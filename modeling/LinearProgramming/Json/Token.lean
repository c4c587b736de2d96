import LinearProgramming.Json.Fault

/-!
# The tokens of JSON

Readers for what a JSON text is made of: blanks, fixed words, strings, numbers, and whole values
that nobody asked for. A reader takes the text from where it stands and returns what it read with
the rest of the text, or the first fault in reading order.

A loop over the text is given the length of the text as its budget. Every round uses up at least
one character, so the budget outlasts the text and running out of it is running out of text.
-/

namespace LinearProgramming

namespace Json

/-- What a reader returns: a value and the rest of the text, or a fault. -/
abbrev Reading (α : Type) := Except Fault (α × List Char)

/-! ## Blanks and words -/

/-- The characters that may stand between tokens. -/
def isBlank (c : Char) : Bool := c = ' ' || c = '\n' || c = '\t' || c = '\r'

def skipBlanks (cs : List Char) : List Char := cs.dropWhile isBlank

def readExactly : List Char → List Char → Except Fault (List Char)
  | [], cs => .ok cs
  | _ :: _, [] => .error .endOfText
  | w :: word, c :: cs => if c = w then readExactly word cs else .error .malformed

/-! ## Strings -/

def hexValue? (c : Char) : Option Nat :=
  if '0' ≤ c ∧ c ≤ '9' then some (c.toNat - '0'.toNat)
  else if 'a' ≤ c ∧ c ≤ 'f' then some (c.toNat - 'a'.toNat + 10)
  else if 'A' ≤ c ∧ c ≤ 'F' then some (c.toNat - 'A'.toNat + 10)
  else none

def byteCount (cs : List Char) : Nat := cs.foldl (fun n c ↦ n + c.utf8Size) 0

/-- Read the four hexadecimal digits of a code unit. A text of less than four bytes ends too early,
whatever is in it. -/
def readCodeUnit (cs : List Char) : Reading Nat :=
  if byteCount (cs.take 4) < 4 then .error .endOfText
  else
    match cs with
    | a :: b :: c :: d :: rest =>
      match hexValue? a, hexValue? b, hexValue? c, hexValue? d with
      | some a, some b, some c, some d => .ok (((a * 16 + b) * 16 + c) * 16 + d, rest)
      | _, _, _, _ => .error .malformed
    | _ => .error .malformed

/-- Read the second half of a surrogate pair, its escape included, of which `high` is the first. -/
def readLowSurrogate (high : Nat) (cs : List Char) : Reading Char :=
  match readExactly ['\\', 'u'] cs with
  | .error fault => .error fault
  | .ok rest =>
    match readCodeUnit rest with
    | .error fault => .error fault
    | .ok (low, rest) =>
      if 0xDC00 ≤ low ∧ low ≤ 0xDFFF then
        .ok (Char.ofNat ((high - 0xD800) * 1024 + (low - 0xDC00) + 0x10000), rest)
      else .error .malformed

/-- Read an escaped character from behind `\u`. Characters past the code units are written as a
surrogate pair; half of one is none. -/
def readUnicodeEscape (cs : List Char) : Reading Char :=
  match readCodeUnit cs with
  | .error fault => .error fault
  | .ok (unit, rest) =>
    if 0xDC00 ≤ unit ∧ unit ≤ 0xDFFF then .error .malformed
    else if 0xD800 ≤ unit ∧ unit ≤ 0xDBFF then readLowSurrogate unit rest
    else .ok (Char.ofNat unit, rest)

/-- The character that a letter behind a backslash stands for. -/
def simpleEscape? (c : Char) : Option Char :=
  if c = '"' ∨ c = '\\' ∨ c = '/' then some c
  else if c = 'b' then some (Char.ofNat 8)
  else if c = 'f' then some (Char.ofNat 12)
  else if c = 'n' then some '\n'
  else if c = 'r' then some '\r'
  else if c = 't' then some '\t'
  else none

/-- Read an escape from behind its backslash. -/
def readEscape : List Char → Reading Char
  | [] => .error .endOfText
  | c :: rest =>
    if c = 'u' then readUnicodeEscape rest
    else
      match simpleEscape? c with
      | some c => .ok (c, rest)
      | none => .error .malformed

/-- Read the characters of a string, and its closing quote, in at most `budget` rounds. -/
def readCharsWithin : (budget : Nat) → List Char → Reading (List Char)
  | 0, _ => .error .endOfText
  | _ + 1, [] => .error .endOfText
  | budget + 1, c :: rest =>
    if c = '"' then .ok ([], rest)
    else if c = '\\' then
      match readEscape rest with
      | .error fault => .error fault
      | .ok (c, rest) =>
        match readCharsWithin budget rest with
        | .error fault => .error fault
        | .ok (cs, rest) => .ok (c :: cs, rest)
    else if c.toNat < 32 then .error .malformed
    else
      match readCharsWithin budget rest with
      | .error fault => .error fault
      | .ok (cs, rest) => .ok (c :: cs, rest)

/-- Read a string from behind its opening quote. -/
def readChars (cs : List Char) : Reading String :=
  match readCharsWithin cs.length cs with
  | .error fault => .error fault
  | .ok (chars, rest) => .ok (String.ofList chars, rest)

/-! ## Numbers -/

/-- A number as it was read. -/
inductive Numeral
  /-- A whole number that fits into 64 bits. -/
  | natural (n : Nat)
  /-- The negation of a positive whole number, if that fits into 64 bits with its sign. -/
  | negative (n : Nat)
  /-- Any other number. -/
  | decimal (x : Float)

def digitValue (c : Char) : Nat := c.toNat - '0'.toNat

/-- Append digits to a number as long as it fits into 64 bits, and count the digits that are left
out from the first on that does not. -/
def appendDigits (significand : Nat) : List Char → Nat × Nat
  | [] => (significand, 0)
  | c :: rest =>
    if significand * 10 + digitValue c < Nat.pow 2 64 then
      appendDigits (significand * 10 + digitValue c) rest
    else (significand, rest.length + 1)

/-- A power of ten, rounded to the nearest double. -/
def powerOfTen (n : Nat) : Float := Float.ofScientific 1 false n

/-- `significand · 10 ^ exponent`, computed from the rounded significand by one multiplication or
division. A result that is too large is a fault. An exponent below `-308` is taken in two steps, and
below `-616` nothing is left. -/
def scaled (significand : Nat) (exponent : Int) : Except Fault Float :=
  let x := Float.ofNat significand
  if significand = 0 then .ok x
  else if 0 ≤ exponent then
    if 308 < exponent then .error .malformed
    else
      let x := x * powerOfTen exponent.toNat
      if x.isFinite then .ok x else .error .malformed
  else if -308 ≤ exponent then .ok (x / powerOfTen (-exponent).toNat)
  else if -616 ≤ exponent then
    .ok (x / powerOfTen 308 / powerOfTen (-exponent - 308).toNat)
  else .ok 0

/-- Read the digits of a number in front of its point. Zero is not followed by further digits. -/
def readWholeDigits : List Char → Reading (List Char)
  | [] => .error .endOfText
  | c :: rest =>
    if !c.isDigit then .error .malformed
    else if c = '0' then
      if rest.head?.any (·.isDigit) then .error .malformed else .ok (['0'], rest)
    else .ok ((c :: rest).takeWhile (·.isDigit), (c :: rest).dropWhile (·.isDigit))

def readDigits : List Char → Reading (List Char)
  | [] => .error .endOfText
  | c :: rest =>
    if c.isDigit then .ok ((c :: rest).takeWhile (·.isDigit), (c :: rest).dropWhile (·.isDigit))
    else .error .malformed

def readFraction? : List Char → Reading (Option (List Char))
  | '.' :: rest =>
    match readDigits rest with
    | .error fault => .error fault
    | .ok (digits, rest) => .ok (some digits, rest)
  | cs => .ok (none, cs)

/-- Read the exponent of a number with its letter, if there is one: whether it is negative, and its
digits. -/
def readExponent? : List Char → Reading (Option (Bool × List Char))
  | [] => .ok (none, [])
  | c :: rest =>
    if c = 'e' ∨ c = 'E' then
      let negative := rest.head? = some '-'
      let digits := if negative ∨ rest.head? = some '+' then rest.drop 1 else rest
      match readDigits digits with
      | .error fault => .error fault
      | .ok (digits, rest) => .ok (some (negative, digits), rest)
    else .ok (none, c :: rest)

def digitsValue (digits : List Char) : Nat :=
  digits.foldl (fun n c ↦ n * 10 + digitValue c) 0

/-- The magnitude of a number, as far as its digits fit into 64 bits. An exponent that does not fit
into 32 bits makes zero of a number, or too much of it. -/
def decimalValue (whole fraction : List Char) (exponent : Option (Bool × List Char)) :
    Except Fault Float :=
  let (significand, left) := appendDigits 0 whole
  let (significand, leftOfFraction) := appendDigits significand fraction
  let point : Int := (left : Int) - (fraction.length - leftOfFraction : Nat)
  match exponent with
  | none => scaled significand point
  | some (negative, digits) =>
    let e := digitsValue digits
    if Nat.pow 2 31 ≤ e then
      if significand ≠ 0 ∧ !negative then .error .malformed else .ok 0
    else scaled significand (if negative then point - e else point + e)

/-- How digits become a double. There is more than one way to do it: to round once, to what is
nearest, or to be quick about it and round on the way. -/
class NumberReading where
  /-- The magnitude of a number with a fraction, an exponent, or more digits than fit into 64
  bits. -/
  magnitude : (whole fraction : List Char) → (exponent : Option (Bool × List Char)) →
    Except Fault Float

/-- Numbers are read quickly unless another way is asked for. -/
instance NumberReading.quick : NumberReading where
  magnitude := decimalValue

/-- The number that has been read: whole as long as it can be. Minus zero cannot. -/
def numeralOf [NumberReading] (negative : Bool) (whole : List Char) (fraction : Option (List Char))
    (exponent : Option (Bool × List Char)) : Except Fault Numeral :=
  let n := digitsValue whole
  if fraction.isNone && exponent.isNone && !negative && n < Nat.pow 2 64 then .ok (.natural n)
  else if fraction.isNone && exponent.isNone && negative && 0 < n && n ≤ Nat.pow 2 63 then
    .ok (.negative n)
  else
    match NumberReading.magnitude whole (fraction.getD []) exponent with
    | .error fault => .error fault
    | .ok x => .ok (.decimal (if negative then -x else x))

/-- Read a number from behind its sign. -/
def readNumeral [NumberReading] (negative : Bool) (cs : List Char) : Reading Numeral :=
  match readWholeDigits cs with
  | .error fault => .error fault
  | .ok (whole, rest) =>
    match readFraction? rest with
    | .error fault => .error fault
    | .ok (fraction, rest) =>
      match readExponent? rest with
      | .error fault => .error fault
      | .ok (exponent, rest) =>
        match numeralOf negative whole fraction exponent with
        | .error fault => .error fault
        | .ok n => .ok (n, rest)

end Json

end LinearProgramming
