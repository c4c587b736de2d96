import LinearProgramming.Json.Skip
import Mathlib.Data.List.Forall2

/-!
# The grammar of JSON

What the texts of JSON values look like, apart from how they are read. Blanks may stand around every
token, and there is more than one way to spell most values: an escape may take the place of any
character, and the elements of a bracket may be laid out at will.

A value that is passed over need not mean anything, so that two rules are laxer for it: its numbers
may be of any size, and its strings may have one half of a surrogate pair without the other.
-/

namespace LinearProgramming

namespace Json

/-! ## Blanks -/

/-- A text of nothing but blanks. -/
def Blank (cs : List Char) : Prop := ∀ c ∈ cs, isBlank c = true

/-- Whether nothing at the start of a text can belong to the value in front of it. -/
def Ends (cs : List Char) : Prop :=
  ∀ c ∈ cs.head?, isBlank c = true ∨ c = ',' ∨ c = ']' ∨ c = '\x7d'

theorem blank_nil : Blank [] := nofun

theorem Blank.ends {b : List Char} (hb : Blank b) : Ends b := by
  intro c hc
  exact .inl (hb c (List.mem_of_mem_head? hc))

theorem ends_comma (cs : List Char) : Ends (',' :: cs) := by
  rintro c ⟨⟩
  exact .inr (.inl rfl)

theorem ends_bracket (cs : List Char) : Ends (']' :: cs) := by
  rintro c ⟨⟩
  exact .inr (.inr (.inl rfl))

theorem ends_brace (cs : List Char) : Ends ('\x7d' :: cs) := by
  rintro c ⟨⟩
  exact .inr (.inr (.inr rfl))

theorem Ends.append_left {b cs : List Char} (hb : Blank b) (h : Ends cs) : Ends (b ++ cs) := by
  cases b with
  | nil => exact h
  | cons c b =>
    rintro c' ⟨⟩
    exact .inl (hb c List.mem_cons_self)

@[simp]
theorem skipBlanks_append {b : List Char} (hb : Blank b) (cs : List Char) :
    skipBlanks (b ++ cs) = skipBlanks cs :=
  List.dropWhile_append_of_pos hb

@[simp]
theorem skipBlanks_cons {c : Char} (hc : isBlank c = false) (cs : List Char) :
    skipBlanks (c :: cs) = c :: cs :=
  List.dropWhile_cons_of_neg (Bool.eq_false_iff.mp hc)

/-! ## Brackets -/

/-- Elements one after the other with blanks around them. A comma stands in front of every element
but the first. -/
inductive Row : (first : Bool) → (items : List (List Char)) → List Char → Prop
  | nil {first : Bool} {b : List Char} (hb : Blank b) : Row first [] b
  | head {b item cs : List Char} {items : List (List Char)} (hb : Blank b)
      (h : Row false items cs) : Row true (item :: items) (b ++ (item ++ cs))
  | next {b b' item cs : List Char} {items : List (List Char)} (hb : Blank b) (hb' : Blank b')
      (h : Row false items cs) : Row false (item :: items) (b ++ ',' :: (b' ++ (item ++ cs)))

/-- Elements between brackets. -/
def Bracketed (opening closing : Char) (items : List (List Char)) (cs : List Char) : Prop :=
  ∃ row, Row true items row ∧ cs = opening :: (row ++ [closing])

theorem Row.ends {items : List (List Char)} {row cs : List Char} (h : Row false items row)
    (hcs : Ends cs) : Ends (row ++ cs) := by
  cases h with
  | nil hb => exact hcs.append_left hb
  | next hb hb' h =>
    rw [List.append_assoc]
    exact (ends_comma _).append_left hb

/-- A field: its name, which is a string, a colon and its value. -/
def Member (name value cs : List Char) : Prop :=
  ∃ b b', Blank b ∧ Blank b' ∧ cs = '"' :: (name ++ '"' :: (b ++ ':' :: (b' ++ value)))

/-! ## Strings -/

/-- The four hexadecimal digits of a code unit. -/
inductive CodeUnit : ℕ → List Char → Prop
  | intro {a b c d : Char} {i j k l : ℕ} (ha : hexValue? a = some i) (hb : hexValue? b = some j)
      (hc : hexValue? c = some k) (hd : hexValue? d = some l) :
      CodeUnit (((i * 16 + j) * 16 + k) * 16 + l) [a, b, c, d]

/-- A character as it is spelled behind a backslash. -/
inductive Escape : Char → List Char → Prop
  | letter {letter c : Char} (h : simpleEscape? letter = some c) : Escape c [letter]
  | unit {n : ℕ} {digits : List Char} (h : CodeUnit n digits) (hn : n < 0xD800 ∨ 0xDFFF < n) :
      Escape (Char.ofNat n) ('u' :: digits)
  | pair {high low : ℕ} {digits digits' : List Char} (h : CodeUnit high digits)
      (hhigh : 0xD800 ≤ high ∧ high ≤ 0xDBFF) (h' : CodeUnit low digits')
      (hlow : 0xDC00 ≤ low ∧ low ≤ 0xDFFF) :
      Escape (Char.ofNat ((high - 0xD800) * 1024 + (low - 0xDC00) + 0x10000))
        ('u' :: (digits ++ '\\' :: 'u' :: digits'))

/-- Characters as they are spelled between quotes. -/
inductive Spelled : (chars : List Char) → List Char → Prop
  | nil : Spelled [] []
  | plain {c : Char} {chars cs : List Char} (hquote : c ≠ '"') (hbackslash : c ≠ '\\')
      (hcontrol : 32 ≤ c.toNat) (h : Spelled chars cs) : Spelled (c :: chars) (c :: cs)
  | escape {c : Char} {text chars cs : List Char} (hc : Escape c text) (h : Spelled chars cs) :
      Spelled (c :: chars) ('\\' :: (text ++ cs))

def Literal (s : String) (cs : List Char) : Prop :=
  ∃ body, Spelled s.toList body ∧ cs = '"' :: (body ++ ['"'])

/-- What may stand between quotes where nobody asks what it means. -/
inductive Unread : List Char → Prop
  | nil : Unread []
  | plain {c : Char} {cs : List Char} (hquote : c ≠ '"') (hbackslash : c ≠ '\\')
      (hcontrol : 32 ≤ c.toNat) (h : Unread cs) : Unread (c :: cs)
  | letter {letter : Char} {cs : List Char} (hletter : (simpleEscape? letter).isSome = true)
      (h : Unread cs) : Unread ('\\' :: letter :: cs)
  | unit {n : ℕ} {digits cs : List Char} (hdigits : CodeUnit n digits) (h : Unread cs) :
      Unread ('\\' :: 'u' :: (digits ++ cs))

/-! ## Numbers -/

def Digits (cs : List Char) : Prop := cs ≠ [] ∧ ∀ c ∈ cs, c.isDigit = true

/-- The digits in front of a point: zero alone, or digits that do not start with it. -/
def WholeDigits (cs : List Char) : Prop := cs = ['0'] ∨ Digits cs ∧ cs.head? ≠ some '0'

/-- A fraction with its point, or none. -/
def Fraction (cs : List Char) : Prop := cs = [] ∨ ∃ digits, Digits digits ∧ cs = '.' :: digits

/-- An exponent with its letter and sign, or none. -/
def Exponent (cs : List Char) : Prop :=
  cs = [] ∨ ∃ letter sign digits, (letter = 'e' ∨ letter = 'E')
    ∧ (sign = [] ∨ sign = ['+'] ∨ sign = ['-']) ∧ Digits digits ∧ cs = letter :: (sign ++ digits)

def Number (cs : List Char) : Prop :=
  ∃ sign whole fraction exponent, (sign = [] ∨ sign = ['-']) ∧ WholeDigits whole
    ∧ Fraction fraction ∧ Exponent exponent ∧ cs = sign ++ (whole ++ (fraction ++ exponent))

/-! ## Values -/

/-- Any value, where nobody asks what it means. -/
inductive Value : List Char → Prop
  | null : Value ['n', 'u', 'l', 'l']
  | true : Value ['t', 'r', 'u', 'e']
  | false : Value ['f', 'a', 'l', 's', 'e']
  | number {cs : List Char} (h : Number cs) : Value cs
  | string {body : List Char} (h : Unread body) : Value ('"' :: (body ++ ['"']))
  | array {items : List (List Char)} {cs : List Char} (hitems : ∀ item ∈ items, Value item)
      (h : Bracketed '[' ']' items cs) : Value cs
  | object {fields : List (List Char × List Char)} {members : List (List Char)} {cs : List Char}
      (hnames : ∀ field ∈ fields, Unread field.1) (hvalues : ∀ field ∈ fields, Value field.2)
      (hmembers : List.Forall₂ (fun field ↦ Member field.1 field.2) fields members)
      (h : Bracketed '\x7b' '\x7d' members cs) : Value cs

/-- An object with the given fields, each a name and the text of its value, in any order and among
any others whose names are not in use. -/
def Object (names : List String) (fields : List (String × List Char)) (cs : List Char) : Prop :=
  ∃ others entries members, (∀ other ∈ others, other.1 ∉ names ∧ Value other.2)
    ∧ entries.Perm (fields ++ others)
    ∧ List.Forall₂ (fun entry member ↦
        ∃ name, Spelled entry.1.toList name ∧ Member name entry.2 member) entries members
    ∧ Bracketed '\x7b' '\x7d' members cs

end Json

end LinearProgramming
