import LinearProgramming.Json.Skip

/-!
# Reading values of a known shape

A document is read straight from its text, each part by the reader of what is expected there, so
that the first fault in reading order is the one reported. A reader says which kind of value it
expects in the words of a mismatch.

A record is read from an object, its fields in any order and others passed over, or from an array
of its fields in their order. Either way the fields are collected in a draft, from which the record
is finished.
-/

namespace LinearProgramming

namespace Json

variable [NumberReading]

/-- A reader of values: it starts anywhere in front of one and stops right behind it. -/
abbrev Reader (α : Type) := List Char → Except Fault (α × List Char)

/-- Apply a function to what a reader returns. -/
def Reader.map {α β : Type} (f : α → β) (r : Reader α) : Reader β := fun cs ↦
  match r cs with
  | .error fault => .error fault
  | .ok (x, rest) => .ok (f x, rest)

/-! ## Values of the wrong kind -/

/-- What a number is, for a mismatch. -/
def Numeral.found : Numeral → Found
  | natural n => .integer n
  | negative n => .integer (-n)
  | decimal x => .number x

/-- The fault of finding the value that `cs` starts with where another kind was expected. The value
is read as far as the message shows it, and its own faults come first. -/
def wrongType (expected : String) (cs : List Char) : Fault :=
  let instead (found : Found) : Fault := .mismatch (.wrongType found expected)
  let word (text : List Char) (found : Found) (rest : List Char) : Fault :=
    match readExactly text rest with
    | .error fault => fault
    | .ok _ => instead found
  let numeral (negative : Bool) (rest : List Char) : Fault :=
    match readNumeral negative rest with
    | .error fault => fault
    | .ok (n, _) => instead n.found
  match cs with
  | [] => .malformed
  | 'n' :: rest => word ['u', 'l', 'l'] .null rest
  | 't' :: rest => word ['r', 'u', 'e'] (.bool true) rest
  | 'f' :: rest => word ['a', 'l', 's', 'e'] (.bool false) rest
  | '-' :: rest => numeral true rest
  | '"' :: rest =>
    match readChars rest with
    | .error fault => fault
    | .ok (s, _) => instead (.string s)
  | '[' :: _ => instead .sequence
  | '\x7b' :: _ => instead .map
  | c :: rest => if c.isDigit then numeral false (c :: rest) else .malformed

/-! ## Simple values -/

/-- Read a number of any kind; `expected` names what should be there. -/
def readNumber (expected : String) : Reader Numeral := fun cs ↦
  match skipBlanks cs with
  | [] => .error .endOfText
  | '-' :: rest => readNumeral true rest
  | c :: rest =>
    if c.isDigit then readNumeral false (c :: rest) else .error (wrongType expected (c :: rest))

/-- Read a floating-point number. Whole numbers are rounded to one. -/
def readFloat : Reader Float :=
  (readNumber "f64").map fun
    | .natural n => Float.ofNat n
    | .negative n => -Float.ofNat n
    | .decimal x => x

def readCount : Reader Nat := fun cs ↦
  match readNumber "usize" cs with
  | .error fault => .error fault
  | .ok (.natural n, rest) => .ok (n, rest)
  | .ok (.negative n, _) => .error (.mismatch (.wrongValue (.integer (-n)) "usize"))
  | .ok (.decimal x, _) => .error (.mismatch (.wrongType (.number x) "usize"))

def readBool : Reader Bool := fun cs ↦
  match skipBlanks cs with
  | [] => .error .endOfText
  | 't' :: rest => (readExactly ['r', 'u', 'e'] rest).map (true, ·)
  | 'f' :: rest => (readExactly ['a', 'l', 's', 'e'] rest).map (false, ·)
  | c :: rest => .error (wrongType "a boolean" (c :: rest))

def readString : Reader String := fun cs ↦
  match skipBlanks cs with
  | [] => .error .endOfText
  | '"' :: rest => readChars rest
  | c :: rest => .error (wrongType "a string" (c :: rest))

/-- Read `null`, or else a value. -/
def readOptional {α : Type} (r : Reader α) : Reader (Option α) := fun cs ↦
  match skipBlanks cs with
  | 'n' :: rest => (readExactly ['u', 'l', 'l'] rest).map (none, ·)
  | rest => r.map some rest

/-- Read the value that stands for nothing. -/
def readUnit : Reader Unit := fun cs ↦
  match skipBlanks cs with
  | [] => .error .endOfText
  | 'n' :: rest => (readExactly ['u', 'l', 'l'] rest).map ((), ·)
  | c :: rest => .error (wrongType "unit" (c :: rest))

/-! ## Words -/

def lookUpWord {α : Type} (words : List (String × α)) (word : String) : Except Fault α :=
  match words.lookup word with
  | some x => .ok x
  | none => .error (.mismatch (.unknownVariant word (words.map (·.1))))

/-- Read the name that an object starts with, from behind its opening brace. Nothing but a string
is a name, so anything else is no object. -/
def readFirstName : Reader String := fun cs ↦
  match skipBlanks cs with
  | [] => .error .endOfText
  | '"' :: rest => readChars rest
  | _ :: _ => .error .malformed

/-- Read one of the given words. It is a string, or an object that has the word as its only name,
with nothing under it. -/
def readWord {α : Type} (words : List (String × α)) : Reader α := fun cs ↦
  match skipBlanks cs with
  | [] => .error .endOfText
  | '"' :: rest => do
    let (word, rest) ← readChars rest
    let meaning ← lookUpWord words word
    return (meaning, rest)
  | '\x7b' :: rest => do
    let (word, rest) ← readFirstName rest
    let meaning ← lookUpWord words word
    let rest ← skipColon rest
    let (_, rest) ← readUnit rest
    match skipBlanks rest with
    | [] => throw .endOfText
    | '\x7d' :: rest => return (meaning, rest)
    | _ :: _ => throw .malformed
  | _ :: _ => .error .malformed

/-! ## Sequences -/

/-- Go to the next element of an array, or to its closing bracket, which is left in place. A comma
stands in front of every element but the first. -/
def nextItem (first : Bool) (cs : List Char) : Except Fault (Option (List Char)) :=
  match skipBlanks cs with
  | [] => .error .endOfText
  | ']' :: _ => .ok none
  | c :: rest =>
    if first then .ok (some (c :: rest))
    else if c = ',' then
      match skipBlanks rest with
      | [] => .error .endOfText
      | ']' :: _ => .error .malformed
      | rest => .ok (some rest)
    else .error .malformed

/-- Leave an array of which all elements wanted have been read. -/
def closeArray (cs : List Char) : Except Fault (List Char) :=
  match skipBlanks cs with
  | [] => .error .endOfText
  | ']' :: rest => .ok rest
  | _ :: _ => .error .malformed

/-- Read the elements of an array from behind its opening bracket up to the closing one. -/
def readItemsWithin {α : Type} (r : Reader α) : (budget : Nat) → (first : Bool) → Reader (List α)
  | 0, _, _ => .error .endOfText
  | budget + 1, first, cs => do
    match ← nextItem first cs with
    | none => return ([], cs)
    | some rest =>
      let (x, rest) ← r rest
      let (xs, rest) ← readItemsWithin r budget false rest
      return (x :: xs, rest)

def readItems {α : Type} (r : Reader α) : Reader (List α) := fun cs ↦ do
  let (xs, rest) ← readItemsWithin r cs.length true cs
  let rest ← closeArray rest
  return (xs, rest)

def readList {α : Type} (r : Reader α) : Reader (List α) := fun cs ↦
  match skipBlanks cs with
  | [] => .error .endOfText
  | '[' :: rest => readItems r rest
  | c :: rest => .error (wrongType "a sequence" (c :: rest))

/-- The fault of an array that ends before element `i`. -/
def tooShort (i : Nat) (expected : String) : Fault := .mismatch (.wrongLength i expected)

/-- Read an array of two values from behind its opening bracket. -/
def readPairItems {α β : Type} (expected : String) (r : Reader α) (s : Reader β) :
    Reader (α × β) := fun cs ↦ do
  match ← nextItem true cs with
  | none => throw (tooShort 0 expected)
  | some rest =>
    let (x, rest) ← r rest
    match ← nextItem false rest with
    | none => throw (tooShort 1 expected)
    | some rest =>
      let (y, rest) ← s rest
      let rest ← closeArray rest
      return ((x, y), rest)

def readPair {α β : Type} (r : Reader α) (s : Reader β) : Reader (α × β) := fun cs ↦
  match skipBlanks cs with
  | [] => .error .endOfText
  | '[' :: rest => readPairItems "a tuple of size 2" r s rest
  | c :: rest => .error (wrongType "a tuple of size 2" (c :: rest))

/-! ## Records -/

/-- A field of a record that is collected in drafts of type `δ`. -/
structure Field (δ : Type) where
  name : String
  /-- Whether an array of the fields may end before this one. -/
  mayBeCutOff : Bool
  /-- Whether a draft has it. -/
  isSet : δ → Bool
  /-- Read its value and put it into a draft. -/
  read : δ → Reader δ

/-- A field that drafts hold as an option. -/
def Field.of {δ β : Type} (name : String) (get : δ → Option β) (put : δ → β → δ) (r : Reader β) :
    Field δ where
  name := name
  mayBeCutOff := false
  isSet := fun draft ↦ (get draft).isSome
  read := fun draft ↦ r.map (put draft)

/-- The field, where an array may end before it. -/
def Field.cutOff {δ : Type} (f : Field δ) : Field δ := { f with mayBeCutOff := true }

/-- How a record of type `α` is read, by way of drafts of type `δ`. -/
structure Record (δ α : Type) where
  name : String
  fields : List (Field δ)
  /-- The draft that nothing has been read into. -/
  empty : δ
  /-- Make the record of a draft, unless it lacks a field that has to be there. -/
  finish : δ → Except Mismatch α

/-- The value of a field that has to be there. -/
def required {β : Type} (name : String) : Option β → Except Mismatch β
  | some x => .ok x
  | none => .error (.missingField name)

/-- Go to the next name in an object and past its opening quote, or to the closing brace, which is
left in place. A comma stands in front of every name but the first. -/
def nextName (first : Bool) (cs : List Char) : Except Fault (Option (List Char)) :=
  match skipBlanks cs with
  | [] => .error .endOfText
  | '\x7d' :: _ => .ok none
  | c :: rest =>
    if first then
      if c = '"' then .ok (some rest) else .error .malformed
    else if c = ',' then
      match skipBlanks rest with
      | [] => .error .endOfText
      | '"' :: rest => .ok (some rest)
      | _ :: _ => .error .malformed
    else .error .malformed

namespace Record

variable {δ α : Type}

/-- Read a field into a draft from behind its name. A field may be given only once; one that is not
known is passed over. -/
def readField (record : Record δ α) (name : String) (draft : δ) : Reader δ := fun cs ↦
  match record.fields.find? (·.name == name) with
  | some field =>
    if field.isSet draft then .error (.mismatch (.duplicateField name))
    else do
      let rest ← skipColon cs
      field.read draft rest
  | none => do
    let rest ← skipColon cs
    let rest ← skipValue rest
    return (draft, rest)

/-- Read the fields of an object from behind its opening brace up to the closing one. -/
def readFieldsWithin (record : Record δ α) :
    (budget : Nat) → (first : Bool) → (draft : δ) → Reader δ
  | 0, _, _, _ => .error .endOfText
  | budget + 1, first, draft, cs => do
    match ← nextName first cs with
    | none => return (draft, cs)
    | some rest =>
      let (name, rest) ← readChars rest
      let (draft, rest) ← record.readField name draft rest
      readFieldsWithin record budget false draft rest

def finishDraft (record : Record δ α) (draft : δ) : Except Fault α :=
  (record.finish draft).mapError .mismatch

/-- Leave an object whose fields have been read. -/
def closeObject (cs : List Char) : Except Fault (List Char) :=
  match skipBlanks cs with
  | [] => .error .endOfText
  | '\x7d' :: rest => .ok rest
  | _ :: _ => .error .malformed

/-- Read the record from an object, from behind its opening brace. -/
def readObject (record : Record δ α) : Reader α := fun cs ↦ do
  let (draft, rest) ← record.readFieldsWithin cs.length true record.empty cs
  let x ← record.finishDraft draft
  let rest ← closeObject rest
  return (x, rest)

/-- What is expected where the record is. -/
def expected (record : Record δ α) : String := s!"struct {record.name}"

/-- Read fields into a draft from the elements of an array, the first of them being number `i`. -/
def readPositions (record : Record δ α) : (i : Nat) → List (Field δ) → (draft : δ) → Reader δ
  | _, [], draft, cs => .ok (draft, cs)
  | i, field :: fields, draft, cs => do
    match ← nextItem (i == 0) cs with
    | some rest =>
      let (draft, rest) ← field.read draft rest
      readPositions record (i + 1) fields draft rest
    | none =>
      if field.mayBeCutOff then readPositions record (i + 1) fields draft cs
      else throw (tooShort i s!"{record.expected} with {record.fields.length} elements")

/-- Read the record from an array of its fields, from behind its opening bracket. -/
def readArray (record : Record δ α) : Reader α := fun cs ↦ do
  let (draft, rest) ← record.readPositions 0 record.fields record.empty cs
  let x ← record.finishDraft draft
  let rest ← closeArray rest
  return (x, rest)

/-- Read the record from an object or from an array. -/
def read (record : Record δ α) : Reader α := fun cs ↦
  match skipBlanks cs with
  | [] => .error .endOfText
  | '[' :: rest => record.readArray rest
  | '\x7b' :: rest => record.readObject rest
  | c :: rest => .error (wrongType record.expected (c :: rest))

end Record

/-! ## Whole documents -/

/-- Read a text that is one value, with nothing but blanks around it. -/
def readDocument {α : Type} (r : Reader α) (text : String) : Except Fault α :=
  match r text.toList with
  | .error fault => .error fault
  | .ok (x, rest) => if (skipBlanks rest).isEmpty then .ok x else .error .malformed

end Json

end LinearProgramming
