import LinearProgramming.Json.Basic
import LinearProgramming.Text

/-!
# What can be wrong with a JSON document

A text can fail to be JSON, it can end too early, or it can be JSON of the wrong shape. Only the
third kind has more to say than where it happened: what was found and what should have been there.
-/

namespace LinearProgramming

/-- A value that is not what was expected, as far as it is looked at to say so. -/
inductive Found
  | null
  | bool (b : Bool)
  | integer (n : Int)
  | number (x : Float)
  | string (s : String)
  | sequence
  | map

/-- How a value differs from what was expected. -/
inductive Mismatch
  /-- A value of another kind. -/
  | wrongType (found : Found) (expected : String)
  /-- A value of the right kind that is out of range. -/
  | wrongValue (found : Found) (expected : String)
  /-- A sequence that is too short. -/
  | wrongLength (length : Nat) (expected : String)
  /-- A word that is none of those known. -/
  | unknownVariant (word : String) (known : List String)
  | missingField (name : String)
  | duplicateField (name : String)

/-- Why a text is not the document it should be. -/
inductive Fault
  /-- It is not JSON, or holds a number that is too large. -/
  | malformed
  /-- It ends too early. -/
  | endOfText
  /-- It is JSON of the wrong shape. -/
  | mismatch (cause : Mismatch)

def Found.describe : Found → String
  | null => "null"
  | bool b => s!"boolean `{b}`"
  | integer n => s!"integer `{n}`"
  | number x => s!"floating point `{String.ofList (Json.numberText x)}`"
  | string s => s!"string {quoted s}"
  | sequence => "sequence"
  | map => "map"

/-- A name between backticks. -/
private def ticked (name : String) : String := s!"`{name}`"

/-- The words that are known: two with an "or" between them, more as a list. -/
def describeKnown : List String → String
  | [a, b] => s!"{ticked a} or {ticked b}"
  | words => "one of " ++ ", ".intercalate (words.map ticked)

def Mismatch.message : Mismatch → String
  | wrongType found expected => s!"invalid type: {found.describe}, expected {expected}"
  | wrongValue found expected => s!"invalid value: {found.describe}, expected {expected}"
  | wrongLength length expected => s!"invalid length {length}, expected {expected}"
  | unknownVariant word known =>
    s!"unknown variant {ticked word}, expected {describeKnown known}"
  | missingField name => s!"missing field {ticked name}"
  | duplicateField name => s!"duplicate field {ticked name}"

end LinearProgramming
