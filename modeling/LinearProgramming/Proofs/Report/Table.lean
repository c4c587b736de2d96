import Mathlib.Data.List.Forall2
import LinearProgramming.CommandLine.Response
import LinearProgramming.Proofs.Decimal.Fixed

/-!
# The columns of a table

The width of a table is measured in bytes and its columns are filled up by characters. A character
takes one byte or more, so every column has room for its text and two blanks, and the two measures
disagree only in how many blanks there are beyond that. A reader who knows the width can therefore
cut each line into its columns and take the blanks off, without looking at what the texts are.

Numbers are shown without blanks and without ends of lines, so the cells of a table always come out
of it as they went in. Headings and labels are whatever a problem calls its variables, and may begin
with blanks of their own.
-/

namespace LinearProgramming

/-! ## The characters of a number -/

/-- A report shows a number by its digits and five marks, or by one of two words. -/
theorem Decimal.Foreign.notMem_text {c : Char} (hc : Decimal.Foreign c)
    (hletters : c ∉ ['/', 'i', 'n', 'f', 'N', 'a']) (v : Float) :
    c ∉ (Reportable.text v).toList := by
  have hminus : c ≠ '-' := fun heq ↦ hc.2 (by simp [heq])
  have hinteger : ∀ n : ℤ, c ∉ (toString n).toList := by
    intro n hmem
    rcases isDigit_or_eq_of_mem_toString hmem with hdigit | heq
    · cases hdigit.symm.trans hc.1
    · exact hminus heq
  have hfixed : ∀ (negative : Bool) (n d : ℕ), c ∉ (fixedText 4 negative n d).toList := by
    intro negative n d
    have hdigits := hc.notMem_positionalText
      (hc.notMem_toDigits (roundDiv .even (n * Nat.pow 10 4) d)) false (-(4 : ℕ))
    rw [fixedText, String.toList_ofList]
    cases negative with
    | false => exact hdigits
    | true => exact List.not_mem_cons_of_ne_of_not_mem hminus hdigits
  simp only [List.mem_cons, List.not_mem_nil, or_false, not_or] at hletters
  obtain ⟨hslash, hi, hn, hf, hN, ha⟩ := hletters
  rw [Reportable.text]
  split_ifs
  · simpa using hc.ne_zero
  · exact hinteger _
  · cases Reportable.fraction? v with
    | some pq =>
      obtain ⟨p, q⟩ := pq
      have hslash' : c ∉ ("/" : String).toList := by simpa using hslash
      have hdenominator : c ∉ (toString q).toList := hinteger (q : ℤ)
      simp only [String.toList_append, List.mem_append, not_or]
      exact ⟨⟨hinteger p, hslash'⟩, hdenominator⟩
    | none =>
      change c ∉ (fixedFloat 4 v).toList
      rw [fixedFloat]
      cases BinaryValue.ofFloat v with
      | finite negative m e => exact hfixed _ _ _
      | infinite negative => cases negative <;> simp [hminus, hi, hn, hf]
      | undefined => simp [hN, ha]

/-! ## Bytes and characters -/

theorem length_le_utf8ByteSize (s : String) : s.length ≤ s.utf8ByteSize := by
  induction s using String.push_induction with
  | empty => exact Nat.zero_le _
  | push s c ih =>
    have hc := c.utf8Size_pos
    rw [String.length_push, String.utf8ByteSize_push]
    omega

namespace Table

theorem le_longest {n : ℕ} {lengths : List ℕ} (h : n ∈ lengths) : n ≤ longest lengths := by
  have hne := List.ne_nil_of_mem h
  have hempty : ¬lengths.isEmpty = true := by rwa [List.isEmpty_iff]
  rw [longest, if_neg hempty, List.foldl_max_eq_max hne]
  exact (List.le_max_of_mem h).trans (Nat.le_max_right _ _)

/-! ## One line -/

/-- A text without the blanks that it begins with. -/
def stripped (s : String) : String := String.ofList (s.toList.dropWhile (· = ' '))

/-- The first `count` pieces of `w` characters each. -/
def cut (w : ℕ) : (count : ℕ) → List Char → List String
  | 0, _ => []
  | count + 1, cs => String.ofList (cs.take w) :: cut w count (cs.drop w)

/-- The pieces of a line of which each has `w` characters. -/
def fields (w : ℕ) (line : String) : List String := cut w (line.length / w) line.toList

/-- A field shows a text at its right end, behind two blanks or more. What it shows can be told from
the field, unless it begins with a blank itself. -/
structure IsField (w : ℕ) (text field : String) : Prop where
  length_eq : field.length = w
  exists_blanks : ∃ k, 2 ≤ k ∧ field = String.ofList (List.replicate k ' ') ++ text
  stripped_eq : text.toList.head? ≠ some ' ' → stripped field = text

/-- A line is made of fields of `w` characters and nothing else, one for each of the texts. -/
structure IsRow (w : ℕ) (texts : List String) (line : String) : Prop where
  length_eq : line.length = w * texts.length
  isField : List.Forall₂ (IsField w) texts (fields w line)

theorem stripped_blanks {k : ℕ} {s : String} (h : s.toList.head? ≠ some ' ') :
    stripped (String.ofList (List.replicate k ' ') ++ s) = s := by
  have hblanks : ∀ c ∈ List.replicate k ' ', decide (c = ' ') = true := by
    intro c hc
    exact decide_eq_true (List.eq_of_mem_replicate hc)
  have htext : s.toList.dropWhile (· = ' ') = s.toList := by
    cases hs : s.toList with
    | nil => rfl
    | cons c cs =>
      rw [hs] at h
      exact List.dropWhile_cons_of_neg fun hc ↦ h (congrArg some (of_decide_eq_true hc))
  rw [stripped, String.toList_append, String.toList_ofList, List.dropWhile_append_of_pos hblanks,
    htext, String.ofList_toList]

/-- **A column has room** for a text that takes two bytes less. -/
theorem isField_alignRight {w : ℕ} {s : String} (h : s.utf8ByteSize + 2 ≤ w) :
    IsField w s (alignRight w s) where
  length_eq := by
    have hlength := length_le_utf8ByteSize s
    rw [alignRight, blanksFor, String.length_append, String.length_ofList, List.length_replicate]
    omega
  exists_blanks := by
    have hlength := length_le_utf8ByteSize s
    exact ⟨w - s.length, by omega, rfl⟩
  stripped_eq := stripped_blanks

theorem length_join_eq {w : ℕ} {texts : List String} (h : ∀ s ∈ texts, s.length = w) :
    (String.join texts).length = texts.length * w := by
  have hlengths : texts.map String.length = List.replicate texts.length w := by
    rw [List.eq_replicate_iff, List.length_map]
    exact ⟨rfl, by simpa using h⟩
  rw [String.length_join, hlengths, List.sum_replicate_nat]

/-- Texts of one length that are put together are cut apart again. -/
theorem fields_join {w : ℕ} (hw : 0 < w) {texts : List String} (h : ∀ s ∈ texts, s.length = w) :
    fields w (String.join texts) = texts := by
  have hcut : cut w texts.length (texts.flatMap String.toList) = texts := by
    clear hw
    induction texts with
    | nil => rfl
    | cons s texts ih =>
      have hs : s.toList.length = w := by
        rw [String.length_toList]
        exact h s List.mem_cons_self
      rw [List.flatMap_cons, List.length_cons, cut, List.take_left' hs, List.drop_left' hs,
        String.ofList_toList, ih fun t ht ↦ h t (List.mem_cons_of_mem _ ht)]
  rw [fields, length_join_eq h, Nat.mul_div_cancel _ hw, String.toList_join, hcut]

/-- **A line with room** for each of its texts is made of fields that show them. -/
theorem isRow_line {w : ℕ} (hw : 0 < w) {texts : List String}
    (h : ∀ s ∈ texts, s.utf8ByteSize + 2 ≤ w) : IsRow w texts (line w texts) := by
  have hlengths : ∀ s ∈ texts.map (alignRight w), s.length = w := by
    intro field hfield
    obtain ⟨s, hs, rfl⟩ := List.mem_map.mp hfield
    exact (isField_alignRight (h s hs)).length_eq
  constructor
  · rw [line, length_join_eq hlengths, List.length_map, Nat.mul_comm]
  · rw [line, fields_join hw hlengths, List.forall₂_map_right_iff, List.forall₂_same]
    exact fun s hs ↦ isField_alignRight (h s hs)

/-! ## All lines -/

/-- The texts that each line of a table shows. -/
def texts (headings : List String) (rows : List (String × List String)) : List (List String) :=
  ("" :: headings) :: rows.map fun (label, cells) ↦ label :: cells

theorem utf8ByteSize_add_two_le {headings : List String} {rows : List (String × List String)}
    {row : List String} (hrow : row ∈ texts headings rows) {s : String} (hs : s ∈ row) :
    s.utf8ByteSize + 2 ≤ width headings rows := by
  rw [width, Nat.add_le_add_iff_right]
  rcases List.mem_cons.mp hrow with rfl | hrow
  · rcases List.mem_cons.mp hs with rfl | hs
    · exact Nat.zero_le _
    · exact le_longest (List.mem_map_of_mem (List.mem_append_left _ hs))
  · obtain ⟨⟨label, cells⟩, hmem, rfl⟩ := List.mem_map.mp hrow
    refine le_longest (List.mem_map_of_mem (List.mem_append_right _ ?_))
    refine List.mem_flatMap.mpr ⟨(label, cells), hmem, ?_⟩
    rw [List.mem_append, List.mem_singleton, or_comm]
    exact List.mem_cons.mp hs

theorem isRow_linesOfTexts (headings : List String) (rows : List (String × List String)) :
    List.Forall₂ (IsRow (width headings rows)) (texts headings rows)
      (linesOfTexts headings rows) := by
  have hlines : linesOfTexts headings rows
      = (texts headings rows).map (line (width headings rows)) := by
    rw [linesOfTexts, texts, List.map_cons, List.map_map]
    rfl
  rw [hlines, List.forall₂_map_right_iff, List.forall₂_same]
  exact fun row hrow ↦ isRow_line (Nat.succ_pos _) fun s hs ↦ utf8ByteSize_add_two_le hrow hs

/-! ## Ends of lines -/

def splitLines (text : String) : List String := (text.toList.splitOn '\n').map String.ofList

theorem splitLines_textOf {lines : List String} (h : ∀ l ∈ lines, '\n' ∉ l.toList) :
    splitLines (Response.textOf lines) = lines ++ [""] := by
  induction lines with
  | nil => rfl
  | cons l lines ih =>
    have htext : (Response.textOf (l :: lines)).toList
        = l.toList ++ '\n' :: (Response.textOf lines).toList := by
      rw [Response.textOf, List.map_cons, String.join_cons, String.toList_append,
        String.toList_append, List.append_assoc]
      rfl
    rw [splitLines, htext, List.splitOn_append_cons_self_of_not_mem (h l List.mem_cons_self),
      List.map_cons, String.ofList_toList]
    exact congrArg (l :: ·) (ih fun t ht ↦ h t (List.mem_cons_of_mem _ ht))

theorem notMem_line {c : Char} (hc : c ≠ ' ') {w : ℕ} {texts : List String}
    (h : ∀ s ∈ texts, c ∉ s.toList) : c ∉ (line w texts).toList := by
  rw [line, String.toList_join, List.mem_flatMap]
  rintro ⟨field, hfield, hmem⟩
  obtain ⟨s, hs, rfl⟩ := List.mem_map.mp hfield
  rw [alignRight, blanksFor, String.toList_append, String.toList_ofList, List.mem_append] at hmem
  rcases hmem with hmem | hmem
  · exact hc (List.eq_of_mem_replicate hmem)
  · exact h s hs hmem

/-- **Tables can be read by columns.** Printed with headings and labels that do not contain the end
of a line, a table is one line for the headings and one for each row, and nothing behind the last
end of a line. All lines are made of fields of one number of characters: a blank one or the label
first, then one for each heading or number in order. A field has its text at its right end behind
two blanks or more, and without its blanks is just that, unless the text begins with blanks. The
texts of numbers never do. -/
theorem isRow_of_lines {headings : List String} {rows : List (String × List Float)}
    (hheadings : ∀ s ∈ headings, '\n' ∉ s.toList) (hlabels : ∀ row ∈ rows, '\n' ∉ row.1.toList) :
    let shown := rows.map fun (label, values) ↦ (label, values.map Reportable.text)
    splitLines (Response.textOf (lines headings rows)) = lines headings rows ++ [""]
    ∧ List.Forall₂ (IsRow (width headings shown)) (texts headings shown) (lines headings rows)
    ∧ ∀ v : Float, (Reportable.text v).toList.head? ≠ some ' ' := by
  have hblank : ∀ v : Float, ' ' ∉ (Reportable.text v).toList :=
    Decimal.Foreign.notMem_text ⟨by decide, by decide⟩ (by decide)
  have hend : ∀ v : Float, '\n' ∉ (Reportable.text v).toList :=
    Decimal.Foreign.notMem_text ⟨by decide, by decide⟩ (by decide)
  refine ⟨splitLines_textOf fun l hl ↦ ?_, isRow_linesOfTexts _ _, fun v hv ↦ ?_⟩
  · rw [lines, linesOfTexts] at hl
    rcases List.mem_cons.mp hl with rfl | hl
    · refine notMem_line (by decide) fun s hs ↦ ?_
      rcases List.mem_cons.mp hs with rfl | hs
      · exact List.not_mem_nil
      · exact hheadings s hs
    · obtain ⟨⟨label, cells⟩, hrow, rfl⟩ := List.mem_map.mp hl
      obtain ⟨⟨_, values⟩, hmem, heq⟩ := List.mem_map.mp hrow
      cases heq
      refine notMem_line (by decide) fun s hs ↦ ?_
      rcases List.mem_cons.mp hs with rfl | hs
      · exact hlabels _ hmem
      · obtain ⟨v, -, rfl⟩ := List.mem_map.mp hs
        exact hend v
  · exact hblank v (List.mem_of_mem_head? hv)

/-- With letters of two bytes in the longest text there are more than two blanks before it. -/
theorem isRow_of_lines_umlauts :
    let rows : List (String × List Float) := [("Größe", [1.5, -4]), ("Z", [0])]
    (∀ s ∈ ["Öl", "RHS"], '\n' ∉ s.toList) ∧ (∀ row ∈ rows, '\n' ∉ row.1.toList)
    ∧ lines ["Öl", "RHS"] rows
      = ["                Öl      RHS", "    Größe      3/2       -4", "        Z        0"]
    ∧ splitLines (Response.textOf (lines ["Öl", "RHS"] rows)) = lines ["Öl", "RHS"] rows ++ [""]
    ∧ List.Forall₂ (IsRow 9) [["", "Öl", "RHS"], ["Größe", "3/2", "-4"], ["Z", "0"]]
      (lines ["Öl", "RHS"] rows) := by
  intro rows
  have hheadings : ∀ s ∈ ["Öl", "RHS"], '\n' ∉ s.toList := by decide
  have hlabels : ∀ row ∈ rows, '\n' ∉ row.1.toList := by simp [rows]
  have hwidth : width ["Öl", "RHS"] (rows.map fun (label, values) ↦
      (label, values.map Reportable.text)) = 9 := by decide +kernel
  have htexts : texts ["Öl", "RHS"] (rows.map fun (label, values) ↦
      (label, values.map Reportable.text))
        = [["", "Öl", "RHS"], ["Größe", "3/2", "-4"], ["Z", "0"]] := by decide +kernel
  obtain ⟨hsplit, hrows, -⟩ := isRow_of_lines hheadings hlabels
  rw [hwidth, htexts] at hrows
  exact ⟨hheadings, hlabels, by decide +kernel, hsplit, hrows⟩

end Table

end LinearProgramming
