import LinearProgramming.Decimal.Layout

/-!
# JSON values and how they are written

A value is written either on one line without any blank, or indented by two blanks per level with
each element on a line of its own. The two differ only in the blank text between the tokens, so
there is one writer, over a `Style` that says what that text is.
-/

namespace LinearProgramming

/-- A JSON value. Counts and measurements are kept apart, since they are written differently. -/
inductive Json
  | null
  | bool (b : Bool)
  | count (n : Nat)
  | number (x : Float)
  | string (s : String)
  | array (items : List Json)
  | object (fields : List (String × Json))

namespace Json

/-- Floating-point numbers in JSON: the fewest digits that read back, positional from `10 ^ -5` on
and below `10 ^ 16`, and there always with a point. -/
def numberLayout : Layout where
  tie := .even
  positional := fun e ↦ -5 ≤ e && e ≤ 15
  showsPoint := true
  infinity := "inf"
  undefined := "NaN"

/-- A floating-point number in JSON, which has no way to write one that is not finite. -/
def numberText (x : Float) : List Char :=
  if x.isFinite then numberLayout.write x else "null".toList

def hexDigit (n : Nat) : Char := (Nat.digitChar n)

/-- A character inside a string: quotes, backslashes and control characters are escaped. -/
def escapeChar (c : Char) : List Char :=
  if c = '"' then ['\\', '"']
  else if c = '\\' then ['\\', '\\']
  else if c = '\n' then ['\\', 'n']
  else if c = '\r' then ['\\', 'r']
  else if c = '\t' then ['\\', 't']
  else if c.toNat = 8 then ['\\', 'b']
  else if c.toNat = 12 then ['\\', 'f']
  else if c.toNat < 32 then
    ['\\', 'u', '0', '0', hexDigit (c.toNat / 16), hexDigit (c.toNat % 16)]
  else [c]

def stringText (s : String) : List Char := '"' :: s.toList.flatMap escapeChar ++ ['"']

/-- The blank text between tokens. -/
structure Style where
  /-- What goes in front of an element, and of a closing bracket, by their depth. -/
  newline : Nat → List Char
  /-- What separates a name from its value. -/
  colon : List Char

def Style.compact : Style where
  newline := fun _ ↦ []
  colon := [':']

/-- One element a line, indented by two blanks per level. -/
def Style.indented : Style where
  newline := fun depth ↦ '\n' :: List.replicate (2 * depth) ' '
  colon := [':', ' ']

/-- Texts of the elements of a bracket at `depth`, with commas between them. Nothing stands between
the brackets if there are none. -/
def bracketed (style : Style) (depth : Nat) (opening closing : Char) (items : List (List Char)) :
    List Char :=
  if items.isEmpty then [opening, closing]
  else
    opening :: [','].intercalate (items.map (style.newline (depth + 1) ++ ·))
      ++ style.newline depth ++ [closing]

mutual

def write (style : Style) (depth : Nat) : Json → List Char
  | null => "null".toList
  | bool b => (if b then "true" else "false").toList
  | count n => Nat.toDigits 10 n
  | number x => numberText x
  | string s => stringText s
  | array items => bracketed style depth '[' ']' (writeItems style (depth + 1) items)
  | object fields => bracketed style depth '{' '}' (writeFields style (depth + 1) fields)

def writeItems (style : Style) (depth : Nat) : List Json → List (List Char)
  | [] => []
  | item :: rest => write style depth item :: writeItems style depth rest

def writeFields (style : Style) (depth : Nat) : List (String × Json) → List (List Char)
  | [] => []
  | field :: rest => writeField style depth field :: writeFields style depth rest

def writeField (style : Style) (depth : Nat) : String × Json → List Char
  | (name, value) => stringText name ++ style.colon ++ write style depth value

end

def compactText (j : Json) : String := String.ofList (j.write .compact 0)

def indentedText (j : Json) : String := String.ofList (j.write .indented 0)

end Json

end LinearProgramming
