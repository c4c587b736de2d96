import LinearProgramming.Json.Token

/-!
# Skipping values

A value under a name that nobody asked for is passed over. It still has to be JSON, but less is
asked of its parts than of a value that is read: a number may be of any size, and an escape needs
its four digits but no partner. A number that breaks off is never a matter of the text ending.
-/

namespace LinearProgramming

namespace Json

/-- Pass over an escape from behind its backslash. -/
def skipEscape : List Char → Except Fault (List Char)
  | [] => .error .endOfText
  | c :: rest =>
    if c = 'u' then
      match readCodeUnit rest with
      | .error fault => .error fault
      | .ok (_, rest) => .ok rest
    else if (simpleEscape? c).isSome then .ok rest
    else .error .malformed

/-- Pass over a string from behind its opening quote. -/
def skipCharsWithin : (budget : Nat) → List Char → Except Fault (List Char)
  | 0, _ => .error .endOfText
  | _ + 1, [] => .error .endOfText
  | budget + 1, c :: rest =>
    if c = '"' then .ok rest
    else if c = '\\' then
      match skipEscape rest with
      | .error fault => .error fault
      | .ok rest => skipCharsWithin budget rest
    else if c.toNat < 32 then .error .malformed
    else skipCharsWithin budget rest

def skipChars (cs : List Char) : Except Fault (List Char) := skipCharsWithin cs.length cs

def skipDigits : List Char → Except Fault (List Char)
  | [] => .error .malformed
  | c :: rest => if c.isDigit then .ok (rest.dropWhile (·.isDigit)) else .error .malformed

def skipExponent : List Char → Except Fault (List Char)
  | [] => .ok []
  | c :: rest =>
    if c = 'e' ∨ c = 'E' then
      skipDigits (if rest.head? = some '-' ∨ rest.head? = some '+' then rest.drop 1 else rest)
    else .ok (c :: rest)

/-- Pass over what follows the digits in front of a point. -/
def skipFraction : List Char → Except Fault (List Char)
  | '.' :: rest =>
    match skipDigits rest with
    | .error fault => .error fault
    | .ok rest => skipExponent rest
  | cs => skipExponent cs

/-- Pass over a number from behind its sign. -/
def skipNumber : List Char → Except Fault (List Char)
  | [] => .error .malformed
  | c :: rest =>
    if !c.isDigit then .error .malformed
    else if c = '0' then
      if rest.head?.any (·.isDigit) then .error .malformed else skipFraction rest
    else skipFraction (rest.dropWhile (·.isDigit))

def skipColon (cs : List Char) : Except Fault (List Char) :=
  match skipBlanks cs with
  | [] => .error .endOfText
  | ':' :: rest => .ok rest
  | _ :: _ => .error .malformed

def skipName (cs : List Char) : Except Fault (List Char) :=
  match skipBlanks cs with
  | [] => .error .endOfText
  | '"' :: rest =>
    match skipChars rest with
    | .error fault => .error fault
    | .ok rest => skipColon rest
  | _ :: _ => .error .malformed

mutual

def skipValueWithin (budget : Nat) (cs : List Char) : Except Fault (List Char) :=
  match budget with
  | 0 => .error .endOfText
  | budget + 1 =>
    match skipBlanks cs with
    | [] => .error .endOfText
    | 'n' :: rest => readExactly ['u', 'l', 'l'] rest
    | 't' :: rest => readExactly ['r', 'u', 'e'] rest
    | 'f' :: rest => readExactly ['a', 'l', 's', 'e'] rest
    | '"' :: rest => skipChars rest
    | '-' :: rest => skipNumber rest
    | '[' :: rest =>
      match skipBlanks rest with
      | [] => .error .endOfText
      | ']' :: rest => .ok rest
      | rest =>
        match skipValueWithin budget rest with
        | .error fault => .error fault
        | .ok rest => skipItemsWithin budget rest
    | '\x7b' :: rest =>
      match skipBlanks rest with
      | [] => .error .endOfText
      | '\x7d' :: rest => .ok rest
      | rest => skipFieldWithin budget rest
    | c :: rest => if c.isDigit then skipNumber (c :: rest) else .error .malformed

/-- Pass over the rest of an array from behind one of its elements. -/
def skipItemsWithin (budget : Nat) (cs : List Char) : Except Fault (List Char) :=
  match budget with
  | 0 => .error .endOfText
  | budget + 1 =>
    match skipBlanks cs with
    | [] => .error .endOfText
    | ']' :: rest => .ok rest
    | ',' :: rest =>
      match skipValueWithin budget rest with
      | .error fault => .error fault
      | .ok rest => skipItemsWithin budget rest
    | _ :: _ => .error .malformed

/-- Pass over a field of an object and all that follow it. -/
def skipFieldWithin (budget : Nat) (cs : List Char) : Except Fault (List Char) :=
  match budget with
  | 0 => .error .endOfText
  | budget + 1 =>
    match skipName cs with
    | .error fault => .error fault
    | .ok rest =>
      match skipValueWithin budget rest with
      | .error fault => .error fault
      | .ok rest =>
        match skipBlanks rest with
        | [] => .error .endOfText
        | '\x7d' :: rest => .ok rest
        | ',' :: rest => skipFieldWithin budget rest
        | _ :: _ => .error .malformed

end

def skipValue (cs : List Char) : Except Fault (List Char) := skipValueWithin cs.length cs

end Json

end LinearProgramming
