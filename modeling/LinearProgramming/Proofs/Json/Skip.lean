import LinearProgramming.Proofs.Json.Strings

/-!
# Every value can be passed over

Whatever value the grammar allows under a name that nobody asked for, it is passed over up to its
last character. The induction is on the grammar. A budget of the length of the value suffices, since
every round uses up a character, and what is left of the budget is compared with what is left of the
text.
-/

namespace LinearProgramming

namespace Json

/-! ## Numbers -/

/-- Whether a text does not start with a digit. -/
def NoDigit (cs : List Char) : Prop := ∀ c ∈ cs.head?, c.isDigit = false

theorem noDigit_cons {c : Char} (hc : c.isDigit = false) (cs : List Char) : NoDigit (c :: cs) := by
  rintro c' ⟨⟩
  exact hc

theorem Ends.noDigit {cs : List Char} (h : Ends cs) : NoDigit cs := by
  intro c hc
  rcases h c hc with hblank | rfl | rfl | rfl
  · simp only [isBlank, Bool.or_eq_true, decide_eq_true_eq] at hblank
    obtain ((rfl | rfl) | rfl) | rfl := hblank <;> rfl
  all_goals rfl

theorem Ends.ne {cs : List Char} (h : Ends cs) {c : Char} (hc : c ∈ cs.head?) :
    c ≠ '.' ∧ c ≠ 'e' ∧ c ≠ 'E' := by
  rcases h c hc with hblank | rfl | rfl | rfl
  · simp only [isBlank, Bool.or_eq_true, decide_eq_true_eq] at hblank
    obtain ((rfl | rfl) | rfl) | rfl := hblank <;> decide
  all_goals decide

theorem isBlank_of_isDigit {c : Char} (hc : c.isDigit = true) : isBlank c = false := by
  rw [Bool.eq_false_iff]
  intro hblank
  simp only [isBlank, Bool.or_eq_true, decide_eq_true_eq] at hblank
  obtain ((rfl | rfl) | rfl) | rfl := hblank <;> cases hc

theorem dropWhile_digits {digits cs : List Char} (hdigits : ∀ c ∈ digits, c.isDigit = true)
    (hcs : NoDigit cs) : (digits ++ cs).dropWhile (·.isDigit) = cs := by
  rw [List.dropWhile_append_of_pos hdigits]
  cases cs with
  | nil => rfl
  | cons c cs => exact List.dropWhile_cons_of_neg (Bool.eq_false_iff.mp (hcs c rfl))

theorem skipDigits_append {digits cs : List Char} (h : Digits digits) (hcs : NoDigit cs) :
    skipDigits (digits ++ cs) = .ok cs := by
  obtain ⟨hne, hdigits⟩ := h
  obtain ⟨c, digits, rfl⟩ := List.exists_cons_of_ne_nil hne
  rw [List.cons_append, skipDigits, if_pos (hdigits c List.mem_cons_self),
    dropWhile_digits (fun c hc ↦ hdigits c (List.mem_cons_of_mem _ hc)) hcs]

theorem skipExponent_append {exponent cs : List Char} (h : Exponent exponent) (hcs : Ends cs) :
    skipExponent (exponent ++ cs) = .ok cs := by
  obtain rfl | ⟨letter, sign, digits, hletter, hsign, hdigits, rfl⟩ := h
  · cases cs with
    | nil => rfl
    | cons c cs =>
      obtain ⟨-, hlower, hupper⟩ := hcs.ne (show c ∈ (c :: cs).head? from rfl)
      rw [List.nil_append, skipExponent, if_neg (not_or.mpr ⟨hlower, hupper⟩)]
  · have hskip := skipDigits_append hdigits hcs.noDigit
    obtain ⟨hne, hdigit⟩ := hdigits
    obtain ⟨d, digits, rfl⟩ := List.exists_cons_of_ne_nil hne
    have hd := hdigit d List.mem_cons_self
    rw [List.cons_append, skipExponent, if_pos hletter]
    rcases hsign with rfl | rfl | rfl
    · rw [if_neg]
      · exact hskip
      · rintro (hminus | hplus)
        · cases Option.some.inj hminus
          cases hd
        · cases Option.some.inj hplus
          cases hd
    · exact hskip
    · exact hskip

theorem Exponent.head {exponent cs : List Char} (h : Exponent exponent) (hcs : Ends cs) {c : Char}
    (hc : c ∈ (exponent ++ cs).head?) : c.isDigit = false ∧ c ≠ '.' := by
  obtain rfl | ⟨letter, sign, digits, hletter, -, -, rfl⟩ := h
  · exact ⟨hcs.noDigit c hc, (hcs.ne hc).1⟩
  · cases hc
    rcases hletter with rfl | rfl <;> exact ⟨rfl, by decide⟩

theorem skipFraction_append {fraction exponent cs : List Char} (h : Fraction fraction)
    (h' : Exponent exponent) (hcs : Ends cs) :
    skipFraction (fraction ++ (exponent ++ cs)) = .ok cs := by
  obtain rfl | ⟨digits, hdigits, rfl⟩ := h
  -- Without a fraction, what is next must not be taken for the point of one.
  · rw [List.nil_append, skipFraction, skipExponent_append h' hcs]
    rintro rest hpoint
    exact (h'.head hcs (hpoint ▸ rfl)).2 rfl
  · rw [List.cons_append, skipFraction, skipDigits_append hdigits fun c hc ↦ (h'.head hcs hc).1]
    exact skipExponent_append h' hcs

theorem skipNumber_append {whole fraction exponent cs : List Char} (hwhole : WholeDigits whole)
    (hfraction : Fraction fraction) (hexponent : Exponent exponent) (hcs : Ends cs) :
    skipNumber (whole ++ (fraction ++ (exponent ++ cs))) = .ok cs := by
  have hskip := skipFraction_append hfraction hexponent hcs
  have hnext : NoDigit (fraction ++ (exponent ++ cs)) := by
    obtain rfl | ⟨digits, -, rfl⟩ := hfraction
    · exact fun c hc ↦ (hexponent.head hcs hc).1
    · exact noDigit_cons rfl _
  obtain rfl | ⟨⟨hne, hdigits⟩, hzero⟩ := hwhole
  · have hnone : (fraction ++ (exponent ++ cs)).head?.any (·.isDigit) = false := by
      rw [Option.any_eq_false]
      exact hnext
    rw [List.cons_append, List.nil_append, skipNumber, hnone]
    exact hskip
  · obtain ⟨d, digits, rfl⟩ := List.exists_cons_of_ne_nil hne
    have hd := hdigits d List.mem_cons_self
    have hd' : d ≠ '0' := fun h ↦ hzero (congrArg some h)
    rw [List.cons_append, skipNumber, hd, if_neg (by decide), if_neg hd',
      dropWhile_digits (fun c hc ↦ hdigits c (List.mem_cons_of_mem _ hc)) hnext, hskip]

/-! ## The start of a value -/

/-- A text that does not start with a blank, nor with the end of a bracket. -/
def Starts (cs : List Char) : Prop :=
  ∃ c rest, cs = c :: rest ∧ isBlank c = false ∧ c ≠ ']'

theorem starts_quote (cs : List Char) : Starts ('"' :: cs) := ⟨_, _, rfl, rfl, by decide⟩

theorem Starts.length_pos {cs : List Char} (h : Starts cs) : 0 < cs.length := by
  obtain ⟨c, rest, rfl, -⟩ := h
  exact Nat.succ_pos _

theorem WholeDigits.exists_cons {whole : List Char} (h : WholeDigits whole) :
    ∃ d digits, whole = d :: digits ∧ d.isDigit = true := by
  obtain rfl | ⟨⟨hne, hdigits⟩, -⟩ := h
  · exact ⟨'0', [], rfl, rfl⟩
  · obtain ⟨d, digits, rfl⟩ := List.exists_cons_of_ne_nil hne
    exact ⟨d, digits, rfl, hdigits d List.mem_cons_self⟩

theorem starts_of_isDigit {c : Char} (hc : c.isDigit = true) (cs : List Char) :
    Starts (c :: cs) := by
  refine ⟨c, cs, rfl, isBlank_of_isDigit hc, ?_⟩
  rintro rfl
  cases hc

theorem Number.starts {cs : List Char} (h : Number cs) : Starts cs := by
  obtain ⟨sign, whole, fraction, exponent, hsign, hwhole, -, -, rfl⟩ := h
  rcases hsign with rfl | rfl
  · obtain ⟨d, digits, rfl, hd⟩ := hwhole.exists_cons
    exact starts_of_isDigit hd _
  · exact ⟨'-', _, rfl, rfl, by decide⟩

theorem Bracketed.exists_cons {opening closing : Char} {items : List (List Char)} {cs : List Char}
    (h : Bracketed opening closing items cs) : ∃ rest, cs = opening :: rest := by
  obtain ⟨row, -, rfl⟩ := h
  exact ⟨_, rfl⟩

theorem Value.starts {cs : List Char} (h : Value cs) : Starts cs := by
  cases h with
  | null | true | false => exact ⟨_, _, rfl, rfl, by decide⟩
  | number h => exact h.starts
  | string h => exact starts_quote _
  | array _ h =>
    obtain ⟨rest, rfl⟩ := h.exists_cons
    exact ⟨_, _, rfl, rfl, by decide⟩
  | object _ _ _ h =>
    obtain ⟨rest, rfl⟩ := h.exists_cons
    exact ⟨_, _, rfl, rfl, by decide⟩

/-! ## Values -/

/-- Whether a text is passed over with any budget of its length. -/
def Skips (cs : List Char) : Prop :=
  ∀ ⦃b rest : List Char⦄ ⦃budget : ℕ⦄, Blank b → Ends rest → cs.length ≤ budget →
    skipValueWithin budget (b ++ (cs ++ rest)) = .ok rest

theorem skips_of_starts {cs : List Char} (hcs : Starts cs)
    (h : ∀ {rest : List Char} {budget : ℕ}, Ends rest → cs.length ≤ budget + 1 →
      skipValueWithin (budget + 1) (cs ++ rest) = .ok rest) : Skips cs := by
  intro b rest budget hb hrest hbudget
  obtain ⟨budget, rfl⟩ := Nat.exists_eq_add_one.mpr (Nat.lt_of_lt_of_le hcs.length_pos hbudget)
  have hskip := h hrest hbudget
  rw [skipValueWithin] at hskip ⊢
  rwa [skipBlanks_append hb]

theorem skipValueWithin_digit {c : Char} (hc : c.isDigit = true) (budget : ℕ) (cs : List Char) :
    skipValueWithin (budget + 1) (c :: cs) = skipNumber (c :: cs) := by
  rw [skipValueWithin, skipBlanks_cons (isBlank_of_isDigit hc)]
  split <;> rename_i heq <;> cases heq
  case h_9 => exact if_pos hc
  all_goals cases hc

theorem skips_number {cs : List Char} (h : Number cs) : Skips cs := by
  refine skips_of_starts h.starts fun hrest _ ↦ ?_
  obtain ⟨sign, whole, fraction, exponent, hsign, hwhole, hfraction, hexponent, rfl⟩ := h
  have hskip := skipNumber_append hwhole hfraction hexponent hrest
  simp only [List.append_assoc]
  rcases hsign with rfl | rfl
  · obtain ⟨d, digits, rfl, hd⟩ := hwhole.exists_cons
    exact (skipValueWithin_digit hd _ _).trans hskip
  · rw [List.cons_append, skipValueWithin, skipBlanks_cons (by decide)]
    exact hskip

/-! ## Arrays -/

theorem skipItemsWithin_close {b : List Char} (hb : Blank b) (budget : ℕ) (cs : List Char) :
    skipItemsWithin (budget + 1) (b ++ ']' :: cs) = .ok cs := by
  rw [skipItemsWithin, skipBlanks_append hb, skipBlanks_cons (by decide)]
  rfl

theorem skipItemsWithin_comma {b : List Char} (hb : Blank b) (budget : ℕ) (cs : List Char) :
    skipItemsWithin (budget + 1) (b ++ ',' :: cs)
      = skipValueWithin budget cs >>= skipItemsWithin budget := by
  rw [skipItemsWithin, skipBlanks_append hb, skipBlanks_cons (by decide)]
  cases hskip : skipValueWithin budget cs <;> simp only [hskip] <;> rfl

theorem skipItemsWithin_append {items : List (List Char)} (hitems : ∀ item ∈ items, Skips item)
    {row : List Char} (h : Row false items row) {budget : ℕ} (hbudget : row.length < budget)
    (rest : List Char) : skipItemsWithin budget (row ++ ']' :: rest) = .ok rest := by
  -- An element uses up at least the comma in front of it, so what is left of the budget is more
  -- than what is left of the row.
  induction items generalizing row budget with
  | nil =>
    obtain ⟨budget, rfl⟩ := Nat.exists_eq_add_one.mpr (Nat.zero_lt_of_lt hbudget)
    obtain ⟨hb⟩ := h
    exact skipItemsWithin_close hb budget rest
  | cons item items ih =>
    obtain ⟨budget, rfl⟩ := Nat.exists_eq_add_one.mpr (Nat.zero_lt_of_lt hbudget)
    obtain - | - | ⟨hb, hb', h⟩ := h
    have hends := h.ends (ends_bracket rest)
    simp only [List.length_append, List.length_cons] at hbudget
    simp only [List.append_assoc, List.cons_append]
    rw [skipItemsWithin_comma hb, hitems item List.mem_cons_self hb' hends (by omega)]
    exact ih (fun item hitem ↦ hitems item (List.mem_cons_of_mem _ hitem)) h (by omega)

theorem skipValueWithin_bracket_close {b : List Char} (hb : Blank b) (budget : ℕ)
    (cs : List Char) : skipValueWithin (budget + 1) ('[' :: (b ++ ']' :: cs)) = .ok cs := by
  have hclose : skipBlanks (b ++ ']' :: cs) = ']' :: cs := by
    rw [skipBlanks_append hb, skipBlanks_cons (by decide)]
  rw [skipValueWithin, skipBlanks_cons (by decide)]
  simp only [hclose]

theorem skipValueWithin_bracket {b item : List Char} (hb : Blank b) (hitem : Starts item)
    (budget : ℕ) (cs : List Char) :
    skipValueWithin (budget + 1) ('[' :: (b ++ (item ++ cs)))
      = skipValueWithin budget (item ++ cs) >>= skipItemsWithin budget := by
  obtain ⟨c, item, rfl, hc, hbracket⟩ := hitem
  have hstart : skipBlanks (b ++ (c :: item ++ cs)) = c :: (item ++ cs) := by
    rw [skipBlanks_append hb, List.cons_append, skipBlanks_cons hc]
  rw [skipValueWithin, skipBlanks_cons (by decide)]
  simp only [hstart]
  split
  case h_1 heq => cases heq
  case h_2 heq => exact absurd (List.cons.inj heq).1 hbracket
  case h_3 =>
    rw [List.cons_append]
    cases hskip : skipValueWithin budget (c :: (item ++ cs)) <;> rfl

theorem skips_array {items : List (List Char)} (hstarts : ∀ item ∈ items, Starts item)
    (hitems : ∀ item ∈ items, Skips item) {cs : List Char} (h : Bracketed '[' ']' items cs) :
    Skips cs := by
  obtain ⟨row, hrow, rfl⟩ := h
  refine skips_of_starts ⟨_, _, rfl, rfl, by decide⟩ fun {rest budget} hrest hbudget ↦ ?_
  simp only [List.length_append, List.length_cons, List.length_nil] at hbudget
  rw [List.cons_append, List.append_assoc]
  cases hrow with
  | nil hb => exact skipValueWithin_bracket_close hb budget rest
  | @head b item row items hb h =>
    have hends := h.ends (ends_bracket rest)
    simp only [List.length_append] at hbudget
    have hitem := hitems item List.mem_cons_self blank_nil hends
      (show item.length ≤ budget by omega)
    simp only [List.append_assoc, List.cons_append, List.nil_append] at hitem ⊢
    rw [skipValueWithin_bracket hb (hstarts item List.mem_cons_self), hitem]
    exact skipItemsWithin_append (fun item hitem ↦ hitems item (List.mem_cons_of_mem _ hitem)) h
      (by omega) rest

/-! ## Objects -/

theorem skipColon_append {b : List Char} (hb : Blank b) (cs : List Char) :
    skipColon (b ++ ':' :: cs) = .ok cs := by
  rw [skipColon, skipBlanks_append hb, skipBlanks_cons (by decide)]
  rfl

theorem skipName_append {b name b' : List Char} (hb : Blank b) (hname : Unread name)
    (hb' : Blank b') (cs : List Char) :
    skipName (b ++ '"' :: (name ++ '"' :: (b' ++ ':' :: cs))) = .ok cs := by
  rw [skipName, skipBlanks_append hb, skipBlanks_cons (by decide)]
  simp only [skipChars_append hname]
  exact skipColon_append hb' cs

theorem exists_skipName {b name value member cs : List Char} {budget : ℕ} (hb : Blank b)
    (hname : Unread name) (hvalue : Skips value) (hmember : Member name value member)
    (hcs : Ends cs) (hbudget : member.length ≤ budget) :
    ∃ rest, skipName (b ++ (member ++ cs)) = .ok rest ∧ skipValueWithin budget rest = .ok cs := by
  obtain ⟨b', b'', hb', hb'', rfl⟩ := hmember
  simp only [List.length_cons, List.length_append] at hbudget
  simp only [List.append_assoc, List.cons_append]
  exact ⟨_, skipName_append hb hname hb' _, hvalue hb'' hcs (by omega)⟩

theorem skipFieldWithin_close {b name value member b' : List Char} {budget : ℕ} (hb : Blank b)
    (hname : Unread name) (hvalue : Skips value) (hmember : Member name value member)
    (hb' : Blank b') (hbudget : member.length ≤ budget) (cs : List Char) :
    skipFieldWithin (budget + 1) (b ++ (member ++ (b' ++ '\x7d' :: cs))) = .ok cs := by
  obtain ⟨rest, hrest, hskip⟩ :=
    exists_skipName hb hname hvalue hmember ((ends_brace cs).append_left hb') hbudget
  rw [skipFieldWithin, hrest]
  simp only [hskip]
  rw [skipBlanks_append hb', skipBlanks_cons (by decide)]
  rfl

theorem skipFieldWithin_comma {b name value member b' : List Char} {budget : ℕ} (hb : Blank b)
    (hname : Unread name) (hvalue : Skips value) (hmember : Member name value member)
    (hb' : Blank b') (hbudget : member.length ≤ budget) (cs : List Char) :
    skipFieldWithin (budget + 1) (b ++ (member ++ (b' ++ ',' :: cs)))
      = skipFieldWithin budget cs := by
  obtain ⟨rest, hrest, hskip⟩ :=
    exists_skipName hb hname hvalue hmember ((ends_comma cs).append_left hb') hbudget
  rw [skipFieldWithin, hrest]
  simp only [hskip]
  rw [skipBlanks_append hb', skipBlanks_cons (by decide)]
  rfl

theorem skipFieldWithin_append {field : List Char × List Char}
    {fields : List (List Char × List Char)} {member : List Char} {members : List (List Char)}
    (hnames : ∀ f ∈ field :: fields, Unread f.1) (hvalues : ∀ f ∈ field :: fields, Skips f.2)
    (hmember : Member field.1 field.2 member)
    (hmembers : List.Forall₂ (fun field ↦ Member field.1 field.2) fields members)
    {row : List Char} (h : Row false members row) {b : List Char} (hb : Blank b) {budget : ℕ}
    (hbudget : member.length + row.length < budget) (rest : List Char) :
    skipFieldWithin budget (b ++ (member ++ (row ++ '\x7d' :: rest))) = .ok rest := by
  have hname := hnames field List.mem_cons_self
  have hvalue := hvalues field List.mem_cons_self
  obtain ⟨budget, rfl⟩ := Nat.exists_eq_add_one.mpr (Nat.zero_lt_of_lt hbudget)
  induction hmembers generalizing field member row b budget with
  | nil =>
    obtain ⟨hb'⟩ := h
    exact skipFieldWithin_close hb hname hvalue hmember hb' (by omega) rest
  | @cons field' member' fields members hmember' _ ih =>
    obtain - | - | @⟨b', b'', _, row, _, hb', hb'', h⟩ := h
    simp only [List.length_append, List.length_cons] at hbudget
    simp only [List.append_assoc, List.cons_append]
    rw [skipFieldWithin_comma hb hname hvalue hmember hb' (by omega)]
    obtain ⟨budget, rfl⟩ := Nat.exists_eq_add_one.mpr (show 0 < budget by omega)
    have hnames' := fun f hf ↦ hnames f (List.mem_cons_of_mem _ hf)
    have hvalues' := fun f hf ↦ hvalues f (List.mem_cons_of_mem _ hf)
    exact ih hnames' hvalues' hmember' h hb'' (hnames' field' List.mem_cons_self)
      (hvalues' field' List.mem_cons_self) budget (by omega)

theorem skipValueWithin_brace_close {b : List Char} (hb : Blank b) (budget : ℕ)
    (cs : List Char) : skipValueWithin (budget + 1) ('\x7b' :: (b ++ '\x7d' :: cs)) = .ok cs := by
  have hclose : skipBlanks (b ++ '\x7d' :: cs) = '\x7d' :: cs := by
    rw [skipBlanks_append hb, skipBlanks_cons (by decide)]
  rw [skipValueWithin, skipBlanks_cons (by decide)]
  simp only [hclose]

theorem skipValueWithin_brace {b : List Char} (hb : Blank b) (budget : ℕ) (cs : List Char) :
    skipValueWithin (budget + 1) ('\x7b' :: (b ++ '"' :: cs))
      = skipFieldWithin budget ('"' :: cs) := by
  have hstart : skipBlanks (b ++ '"' :: cs) = '"' :: cs := by
    rw [skipBlanks_append hb, skipBlanks_cons (by decide)]
  rw [skipValueWithin, skipBlanks_cons (by decide)]
  simp only [hstart]
  rfl

theorem skips_object {fields : List (List Char × List Char)} {members : List (List Char)}
    {cs : List Char} (hnames : ∀ f ∈ fields, Unread f.1) (hvalues : ∀ f ∈ fields, Skips f.2)
    (hmembers : List.Forall₂ (fun field ↦ Member field.1 field.2) fields members)
    (h : Bracketed '\x7b' '\x7d' members cs) : Skips cs := by
  obtain ⟨row, hrow, rfl⟩ := h
  refine skips_of_starts ⟨_, _, rfl, rfl, by decide⟩ fun {rest budget} hrest hbudget ↦ ?_
  simp only [List.length_append, List.length_cons, List.length_nil] at hbudget
  rw [List.cons_append, List.append_assoc]
  cases hrow with
  | nil hb => exact skipValueWithin_brace_close hb budget rest
  | @head b member row members hb h =>
    cases hmembers with
    | @cons field _ fields _ hmember hmembers =>
      simp only [List.length_append] at hbudget
      have hskip := skipFieldWithin_append hnames hvalues hmember hmembers h blank_nil
        (show member.length + row.length < budget by omega) rest
      obtain ⟨b', b'', hb', hb'', rfl⟩ := hmember
      simp only [List.append_assoc, List.cons_append, List.nil_append] at hskip ⊢
      rw [skipValueWithin_brace hb, hskip]

/-! ## Any value -/

/-- **Every value is passed over** up to its last character. -/
theorem Value.skips {cs : List Char} (h : Value cs) : Skips cs := by
  induction h with
  | null =>
    refine skips_of_starts Value.null.starts fun {rest budget} _ _ ↦ ?_
    rw [List.cons_append, skipValueWithin, skipBlanks_cons (by decide)]
    exact readExactly_append ['u', 'l', 'l'] rest
  | true =>
    refine skips_of_starts Value.true.starts fun {rest budget} _ _ ↦ ?_
    rw [List.cons_append, skipValueWithin, skipBlanks_cons (by decide)]
    exact readExactly_append ['r', 'u', 'e'] rest
  | false =>
    refine skips_of_starts Value.false.starts fun {rest budget} _ _ ↦ ?_
    rw [List.cons_append, skipValueWithin, skipBlanks_cons (by decide)]
    exact readExactly_append ['a', 'l', 's', 'e'] rest
  | number h => exact skips_number h
  | string h =>
    refine skips_of_starts (starts_quote _) fun {rest budget} _ _ ↦ ?_
    rw [List.cons_append, List.append_assoc, skipValueWithin, skipBlanks_cons (by decide)]
    exact skipChars_append h rest
  | array hitems h ih => exact skips_array (fun item hitem ↦ (hitems item hitem).starts) ih h
  | object hnames hvalues hmembers h ih => exact skips_object hnames ih hmembers h

theorem skipValue_append {b value rest : List Char} (h : Value value) (hb : Blank b)
    (hrest : Ends rest) : skipValue (b ++ (value ++ rest)) = .ok rest :=
  h.skips hb hrest (by simp only [List.length_append]; omega)

end Json

end LinearProgramming
