import LinearProgramming.Json.Encode
import LinearProgramming.Proofs.Json.Strings

/-!
# What is written is JSON

The two ways of writing a value differ in nothing but blanks. Whatever blanks a style puts between
the tokens, an array is written as its elements between brackets and an object as its fields between
braces, as the grammar has them.
-/

namespace LinearProgramming

namespace Json

/-- Whether a style puts nothing but blanks between tokens, a colon apart. -/
structure Style.Plain (style : Style) : Prop where
  newline : ∀ depth, Blank (style.newline depth)
  colon : ∃ b, Blank b ∧ style.colon = ':' :: b

theorem Style.plain_compact : Style.compact.Plain := ⟨fun _ ↦ blank_nil, [], blank_nil, rfl⟩

theorem Style.plain_indented : Style.indented.Plain := by
  refine ⟨fun depth c hc ↦ ?_, [' '], ?_, rfl⟩
  · rcases List.mem_cons.mp hc with rfl | hc
    · rfl
    · cases List.eq_of_mem_replicate hc
      rfl
  · intro c hc
    cases List.mem_singleton.mp hc
    rfl

variable {style : Style}

/-! ## Simple values -/

theorem write_null (depth : ℕ) : write style depth null = "null".toList := by rw [write]

theorem write_bool (depth : ℕ) (b : Bool) :
    write style depth (bool b) = (if b then "true" else "false").toList := by rw [write]

theorem write_count (depth n : ℕ) : write style depth (count n) = Nat.toDigits 10 n := by
  rw [write]

theorem write_number (depth : ℕ) (x : Float) : write style depth (number x) = numberText x := by
  rw [write]

theorem write_string (depth : ℕ) (s : String) : write style depth (string s) = stringText s := by
  rw [write]

/-! ## Brackets -/

theorem intercalate_cons (item : List Char) (items : List (List Char)) :
    [','].intercalate (item :: items) = item ++ items.flatMap (',' :: ·) := by
  induction items generalizing item with
  | nil => simp [List.intercalate]
  | cons item' items ih =>
    have hcons : [','].intercalate (item :: item' :: items)
        = item ++ ',' :: [','].intercalate (item' :: items) := by
      simp [List.intercalate]
    rw [hcons, ih, List.flatMap_cons, List.cons_append]

theorem row_flatMap {b b' : List Char} (hb : Blank b) (hb' : Blank b') (items : List (List Char)) :
    Row false items ((items.map (b ++ ·)).flatMap (',' :: ·) ++ b') := by
  induction items with
  | nil => exact .nil hb'
  | cons item items ih =>
    rw [List.map_cons, List.flatMap_cons, List.append_assoc, List.cons_append, List.append_assoc]
    exact .next blank_nil hb ih

theorem bracketed_bracketed (h : style.Plain) (depth : ℕ) (opening closing : Char)
    (items : List (List Char)) :
    Bracketed opening closing items (bracketed style depth opening closing items) := by
  cases items with
  | nil => exact ⟨[], .nil blank_nil, rfl⟩
  | cons item items =>
    have hrow := row_flatMap (h.newline (depth + 1)) (h.newline depth) items
    refine ⟨_, .head (h.newline (depth + 1)) hrow, ?_⟩
    rw [bracketed, if_neg (by simp), List.map_cons, intercalate_cons]
    simp only [List.cons_append, List.append_assoc]

/-! ## Arrays and objects -/

theorem head?_bracketed (style : Style) (depth : ℕ) (opening closing : Char)
    (items : List (List Char)) :
    (bracketed style depth opening closing items).head? = some opening := by
  rw [bracketed]
  split_ifs <;> rfl

theorem head?_write_array (style : Style) (depth : ℕ) (items : List Json) :
    (write style depth (.array items)).head? = some '[' := by
  rw [write, head?_bracketed]

theorem head?_write_object (style : Style) (depth : ℕ) (fields : List (String × Json)) :
    (write style depth (.object fields)).head? = some '\x7b' := by
  rw [write, head?_bracketed]

theorem writeItems_eq_map (style : Style) (depth : ℕ) (items : List Json) :
    writeItems style depth items = items.map (write style depth) := by
  induction items with
  | nil => rw [writeItems, List.map_nil]
  | cons item items ih => rw [writeItems, ih, List.map_cons]

theorem writeFields_eq_map (style : Style) (depth : ℕ) (fields : List (String × Json)) :
    writeFields style depth fields = fields.map (writeField style depth) := by
  induction fields with
  | nil => rw [writeFields, List.map_nil]
  | cons field fields ih => rw [writeFields, ih, List.map_cons]

theorem bracketed_write_array (h : style.Plain) (depth : ℕ) (items : List Json) :
    Bracketed '[' ']' (items.map (write style (depth + 1))) (write style depth (.array items)) := by
  rw [write, writeItems_eq_map]
  exact bracketed_bracketed h _ _ _ _

theorem bracketed_write_list {β : Type} (h : style.Plain) (depth : ℕ) (item : β → Json)
    (xs : List β) :
    Bracketed '[' ']' (xs.map fun x ↦ write style (depth + 1) (item x))
      (write style depth (list item xs)) := by
  have harray := bracketed_write_array h depth (xs.map item)
  rwa [List.map_map] at harray

theorem member_stringText {b : List Char} (hb : Blank b) (name : String) (value : List Char) :
    ∃ text, Spelled name.toList text
      ∧ Member text value (stringText name ++ ':' :: (b ++ value)) := by
  refine ⟨_, spelled_flatMap_escapeChar _, [], b, blank_nil, hb, ?_⟩
  rw [stringText, List.append_assoc, List.cons_append]
  rfl

theorem object_write (h : style.Plain) (depth : ℕ) (names : List String)
    (fields : List (String × Json)) :
    Object names (fields.map fun f ↦ (f.1, write style (depth + 1) f.2))
      (write style depth (.object fields)) := by
  refine ⟨[], _, fields.map (writeField style (depth + 1)), nofun, by rw [List.append_nil], ?_, ?_⟩
  · obtain ⟨b, hb, hcolon⟩ := h.colon
    rw [List.forall₂_map_left_iff, List.forall₂_map_right_iff, List.forall₂_same]
    rintro ⟨name, value⟩ -
    rw [writeField, hcolon, List.append_assoc, List.cons_append]
    exact member_stringText hb name _
  · rw [write, writeFields_eq_map]
    exact bracketed_bracketed h _ _ _ _

end Json

end LinearProgramming
