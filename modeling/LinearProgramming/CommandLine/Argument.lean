/-!
# Numbers as arguments

How a count and a measurement are written on a command line: digits with an optional sign in front,
for measurements also a fraction, an exponent, and the names of the values that have no digits.
-/

namespace LinearProgramming

namespace Argument

/-- The number that decimal digits stand for. -/
def valueOfDigits (digits : List Char) : Nat :=
  digits.foldl (fun n c ↦ n * 10 + (c.toNat - '0'.toNat)) 0

/-- A sign, if there is one: whether it is a minus, and the text behind it. -/
def splitSign : List Char → Bool × List Char
  | '+' :: rest => (false, rest)
  | '-' :: rest => (true, rest)
  | cs => (false, cs)

/-- Digits, all of the text and at least one. -/
def digits? (cs : List Char) : Option Nat :=
  if !cs.isEmpty && cs.all (·.isDigit) then some (valueOfDigits cs) else none

/-- A count: digits, a plus allowed in front, of a number that fits into 64 bits. -/
def count? (s : String) : Option Nat :=
  let digits := match s.toList with
    | '+' :: rest => rest
    | cs => cs
  (digits? digits).filter (· < Nat.pow 2 64)

/-- An exponent with its letter, or nothing. -/
def exponent? : List Char → Option Int
  | [] => some 0
  | c :: rest =>
    if c = 'e' ∨ c = 'E' then
      let (negative, digits) := splitSign rest
      (digits? digits).map fun n ↦ if negative then -n else n
    else none

/-- The digits that a text starts with, and what is behind them. -/
def splitDigits (cs : List Char) : List Char × List Char :=
  (cs.takeWhile (·.isDigit), cs.dropWhile (·.isDigit))

/-- A point and the digits behind it, if there is one. -/
def splitFraction : List Char → List Char × List Char
  | '.' :: rest => splitDigits rest
  | cs => ([], cs)

/-- `coefficient · 10 ^ exponent`, rounded to the nearest double. -/
def nearestFloat (coefficient : Nat) (exponent : Int) : Float :=
  Float.ofScientific coefficient (exponent < 0) exponent.natAbs

/-- Digits, a point that may be missing, digits, and an exponent that may be missing. There is a
digit on one side of the point at least. -/
def unsigned? (cs : List Char) : Option Float :=
  let (whole, rest) := splitDigits cs
  let (fraction, rest) := splitFraction rest
  if whole.isEmpty && fraction.isEmpty then none
  else (exponent? rest).map fun e ↦
    nearestFloat (valueOfDigits (whole ++ fraction)) (e - fraction.length)

/-- A measurement: a number, or the name of an infinity or of what is not a number, in any case. -/
def float? (s : String) : Option Float :=
  let (negative, rest) := splitSign s.toList
  let name := String.ofList (rest.map (·.toLower))
  let magnitude? :=
    if name = "inf" ∨ name = "infinity" then some (1.0 / 0.0)
    else if name = "nan" then some (0.0 / 0.0)
    else unsigned? rest
  magnitude?.map fun x ↦ if negative then -x else x

end Argument

end LinearProgramming
