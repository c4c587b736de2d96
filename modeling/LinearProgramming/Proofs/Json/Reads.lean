import LinearProgramming.Proofs.Json.Numerals

/-!
# Readers of values

A reader reads a text as a value if it returns the value wherever the text stands in a document,
with what stands behind it. For the readers of simple values this is a fact about the text. For the
readers of lists and pairs it follows from the same for the elements, however they are laid out.
-/

namespace LinearProgramming

namespace Json

/-- Whether a reader reads a text as a value, with blanks in front of the text or not, and with
anything behind it that ends a value. -/
structure Reads {α : Type} (r : Reader α) (cs : List Char) (x : α) : Prop where
  starts : Starts cs
  eq : ∀ ⦃b rest⦄, Blank b → Ends rest → r (b ++ (cs ++ rest)) = .ok (x, rest)

section

variable {α β : Type} {r : Reader α} {r' : Reader β} {cs : List Char} {x : α} {y : β}

theorem Literal.starts {s : String} (h : Literal s cs) : Starts cs := by
  obtain ⟨body, -, rfl⟩ := h
  exact starts_quote _

/-! ## Simple values -/

theorem reads_float [NumberReading] {x : Float} (h : ReadsBack x) :
    Reads readFloat (numberText x) x :=
  ⟨h.starts, fun _ _ ↦ h.readFloat_append⟩

theorem reads_count [NumberReading] {n : ℕ} (hn : n < 2 ^ 64) :
    Reads readCount (Nat.toDigits 10 n) n := by
  obtain ⟨d, digits, hdigits, hd⟩ := (wholeDigits_toDigits n).exists_cons
  exact ⟨hdigits ▸ starts_of_isDigit hd digits, fun _ _ ↦ readCount_append hn⟩

theorem reads_bool [NumberReading] (b : Bool) :
    Reads readBool (if b then "true" else "false").toList b := by
  cases b with
  | false =>
    refine ⟨⟨_, _, rfl, rfl, by decide⟩, fun b rest hb _ ↦ ?_⟩
    rw [readBool, skipBlanks_append hb]
    exact congrArg (Except.map _) (readExactly_append ['a', 'l', 's', 'e'] rest)
  | true =>
    refine ⟨⟨_, _, rfl, rfl, by decide⟩, fun b rest hb _ ↦ ?_⟩
    rw [readBool, skipBlanks_append hb]
    exact congrArg (Except.map _) (readExactly_append ['r', 'u', 'e'] rest)

theorem reads_string [NumberReading] {s : String} (h : Literal s cs) : Reads readString cs s := by
  refine ⟨h.starts, fun b rest hb _ ↦ ?_⟩
  obtain ⟨body, hbody, rfl⟩ := h
  rw [readString, skipBlanks_append hb, List.cons_append, List.append_assoc,
    skipBlanks_cons (by decide)]
  exact readChars_append hbody rest

theorem reads_word [NumberReading] {words : List (String × α)} {word : String} (h : Literal word cs)
    (hword : words.lookup word = some x) : Reads (readWord words) cs x := by
  refine ⟨h.starts, fun b rest hb _ ↦ ?_⟩
  obtain ⟨body, hbody, rfl⟩ := h
  have hlookUp : lookUpWord words word = .ok x := by rw [lookUpWord, hword]
  rw [readWord, skipBlanks_append hb, List.cons_append, List.append_assoc,
    skipBlanks_cons (by decide)]
  change Except.bind (readChars (body ++ '"' :: rest)) _ = _
  rw [readChars_append hbody]
  change Except.bind (lookUpWord words word) _ = _
  rw [hlookUp]
  rfl

theorem reads_none : Reads (readOptional r) "null".toList none := by
  refine ⟨⟨_, _, rfl, rfl, by decide⟩, fun b rest hb _ ↦ ?_⟩
  rw [readOptional, skipBlanks_append hb]
  exact congrArg (Except.map _) (readExactly_append ['u', 'l', 'l'] rest)

theorem reads_some (h : Reads r cs x) (hnull : cs.head? ≠ some 'n') :
    Reads (readOptional r) cs (some x) := by
  refine ⟨h.starts, fun b rest hb hrest ↦ ?_⟩
  have heq := h.eq blank_nil hrest
  obtain ⟨c, cs, rfl, hc, -⟩ := h.starts
  -- Whatever starts with an `n` is read as `null`, so the value must not.
  rw [readOptional, skipBlanks_append hb, List.cons_append, skipBlanks_cons hc]
  split
  case h_1 hn => exact absurd (congrArg List.head? hn) hnull
  case h_2 =>
    rw [Reader.map, ← List.cons_append]
    rw [List.nil_append] at heq
    rw [heq]

/-! ## Lists and pairs -/

theorem exists_nextItem {first : Bool} {item row : List Char} {items : List (List Char)}
    (h : Row first (item :: items) row) (hitem : Starts item) (cs : List Char) :
    ∃ row', Row false items row' ∧ row'.length < row.length
      ∧ nextItem first (row ++ cs) = .ok (some (item ++ (row' ++ cs))) := by
  have hlength := hitem.length_pos
  obtain ⟨c, item, rfl, hc, hbracket⟩ := hitem
  cases h with
  | @head b _ row _ hb h =>
    refine ⟨row, h, by simp only [List.length_append]; omega, ?_⟩
    simp only [List.append_assoc, List.cons_append]
    rw [nextItem, skipBlanks_append hb, skipBlanks_cons hc]
    split
    case h_1 heq => cases heq
    case h_2 heq => exact absurd (List.cons.inj heq).1 hbracket
    case h_3 heq =>
      cases heq
      exact if_pos rfl
  | @next b b' _ row _ hb hb' h =>
    refine ⟨row, h, by simp only [List.length_append, List.length_cons]; omega, ?_⟩
    simp only [List.append_assoc, List.cons_append]
    rw [nextItem, skipBlanks_append hb, skipBlanks_cons (by decide)]
    split <;> rename_i heq <;> cases heq
    rw [if_neg (by decide), if_pos rfl, skipBlanks_append hb', skipBlanks_cons hc]
    split
    case h_1 heq => cases heq
    case h_2 heq => exact absurd (List.cons.inj heq).1 hbracket
    case h_3 => rfl

theorem nextItem_close {b : List Char} (hb : Blank b) (first : Bool) (cs : List Char) :
    nextItem first (b ++ ']' :: cs) = .ok none := by
  rw [nextItem, skipBlanks_append hb, skipBlanks_cons (by decide)]
  rfl

theorem closeArray_append {b : List Char} (hb : Blank b) (cs : List Char) :
    closeArray (b ++ ']' :: cs) = .ok cs := by
  rw [closeArray, skipBlanks_append hb, skipBlanks_cons (by decide)]
  rfl

/-- The elements of an array are read in their order, up to the blanks behind the last. -/
theorem exists_readItemsWithin {texts : List (List Char)} {xs : List α}
    (h : List.Forall₂ (Reads r) texts xs) {first : Bool} {row : List Char}
    (hrow : Row first texts row) {budget : ℕ} (hbudget : row.length < budget) (cs : List Char) :
    ∃ b, Blank b
      ∧ readItemsWithin r budget first (row ++ ']' :: cs) = .ok (xs, b ++ ']' :: cs) := by
  obtain ⟨budget, rfl⟩ := Nat.exists_eq_add_one.mpr (Nat.zero_lt_of_lt hbudget)
  induction h generalizing first row budget with
  | nil =>
    obtain ⟨hb⟩ := hrow
    refine ⟨row, hb, ?_⟩
    rw [readItemsWithin, nextItem_close hb]
    rfl
  | @cons text x texts xs hx _ ih =>
    obtain ⟨row', hrow', hlength, hnext⟩ := exists_nextItem hrow hx.starts (']' :: cs)
    have hread := hx.eq blank_nil (hrow'.ends (ends_bracket cs))
    obtain ⟨budget, rfl⟩ := Nat.exists_eq_add_one.mpr (show 0 < budget by omega)
    obtain ⟨b, hb, hrest⟩ := ih hrow' budget (by omega)
    refine ⟨b, hb, ?_⟩
    rw [List.nil_append] at hread
    rw [readItemsWithin, hnext]
    change Except.bind (r (text ++ (row' ++ ']' :: cs))) _ = _
    rw [hread]
    change Except.bind (readItemsWithin r (budget + 1) false (row' ++ ']' :: cs)) _ = _
    rw [hrest]
    rfl

theorem readItems_append {texts : List (List Char)} {xs : List α}
    (h : List.Forall₂ (Reads r) texts xs) {row : List Char} (hrow : Row true texts row)
    (cs : List Char) : readItems r (row ++ ']' :: cs) = .ok (xs, cs) := by
  have hbudget : row.length < (row ++ ']' :: cs).length := by simp
  obtain ⟨b, hb, hitems⟩ := exists_readItemsWithin h hrow hbudget cs
  rw [readItems, hitems]
  change Except.bind (closeArray (b ++ ']' :: cs)) _ = _
  rw [closeArray_append hb]
  rfl

theorem Bracketed.starts {items : List (List Char)} (h : Bracketed '[' ']' items cs) :
    Starts cs := by
  obtain ⟨rest, rfl⟩ := h.exists_cons
  exact ⟨_, _, rfl, rfl, by decide⟩

/-- **A list is read** from any layout of texts that its elements are read from. -/
theorem reads_list [NumberReading] {texts : List (List Char)} {xs : List α}
    (h : List.Forall₂ (Reads r) texts xs) (hcs : Bracketed '[' ']' texts cs) :
    Reads (readList r) cs xs := by
  refine ⟨hcs.starts, fun b rest hb _ ↦ ?_⟩
  obtain ⟨row, hrow, rfl⟩ := hcs
  rw [readList, skipBlanks_append hb, List.cons_append, List.append_assoc,
    skipBlanks_cons (by decide)]
  exact readItems_append h hrow rest

theorem reads_pair [NumberReading] {text text' : List Char} (hx : Reads r text x)
    (hy : Reads r' text' y) (hcs : Bracketed '[' ']' [text, text'] cs) :
    Reads (readPair r r') cs (x, y) := by
  refine ⟨hcs.starts, fun b rest hb _ ↦ ?_⟩
  obtain ⟨row, hrow, rfl⟩ := hcs
  obtain ⟨row', hrow', -, hnext⟩ := exists_nextItem hrow hx.starts (']' :: rest)
  obtain ⟨row'', hrow'', -, hnext'⟩ := exists_nextItem hrow' hy.starts (']' :: rest)
  have hread := hx.eq blank_nil (hrow'.ends (ends_bracket rest))
  have hread' := hy.eq blank_nil (hrow''.ends (ends_bracket rest))
  rw [List.nil_append] at hread hread'
  obtain ⟨hb'⟩ := hrow''
  rw [readPair, skipBlanks_append hb, List.cons_append, List.append_assoc,
    skipBlanks_cons (by decide)]
  change readPairItems _ r r' (row ++ ']' :: rest) = _
  rw [readPairItems, hnext]
  change Except.bind (r (text ++ (row' ++ ']' :: rest))) _ = _
  rw [hread]
  change Except.bind (nextItem false (row' ++ ']' :: rest)) _ = _
  rw [hnext']
  change Except.bind (r' (text' ++ (row'' ++ ']' :: rest))) _ = _
  rw [hread']
  change Except.bind (closeArray (row'' ++ ']' :: rest)) _ = _
  rw [closeArray_append hb']
  rfl

theorem reads_numbers [NumberReading] {xs : List Float} (h : ∀ x ∈ xs, ReadsBack x)
    (hcs : Bracketed '[' ']' (xs.map numberText) cs) : Reads (readList readFloat) cs xs := by
  refine reads_list ?_ hcs
  rw [List.forall₂_map_left_iff, List.forall₂_same]
  exact fun x hx ↦ reads_float (h x hx)

theorem reads_strings [NumberReading] {ss : List String} {texts : List (List Char)}
    (h : List.Forall₂ Literal ss texts) (hcs : Bracketed '[' ']' texts cs) :
    Reads (readList readString) cs ss :=
  reads_list (h.flip.imp fun _ _ ↦ reads_string) hcs

/-! ## Whole documents -/

theorem readDocument_of {b b' : List Char} {text : String} (h : Reads r cs x) (hb : Blank b)
    (hb' : Blank b') (htext : text.toList = b ++ (cs ++ b')) : readDocument r text = .ok x := by
  have hrest : skipBlanks b' = [] := by
    rw [← List.append_nil b', skipBlanks_append hb']
    rfl
  rw [readDocument, htext, h.eq hb hb'.ends]
  dsimp only
  rw [hrest]
  rfl

end

end Json

end LinearProgramming
