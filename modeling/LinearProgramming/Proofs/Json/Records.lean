import LinearProgramming.Proofs.Json.Reads

/-!
# Records are read in any order of their fields

The draft that a record is collected in depends only on which of its fields have been read, not on
their order, nor on what was passed over between them. So the draft is given as a function of the
names that have been read, and reading a field adds its name.
-/

namespace LinearProgramming

namespace Json

variable {δ α : Type}

/-! ## Names -/

theorem exists_nextName {first : Bool} {text row : List Char} {members : List (List Char)}
    (h : Row first (('"' :: text) :: members) row) (cs : List Char) :
    ∃ row', Row false members row' ∧ row'.length < row.length
      ∧ nextName first (row ++ cs) = .ok (some (text ++ (row' ++ cs))) := by
  cases h with
  | @head b _ row _ hb h =>
    refine ⟨row, h, by simp only [List.length_append, List.length_cons]; omega, ?_⟩
    simp only [List.append_assoc, List.cons_append]
    rw [nextName, skipBlanks_append hb, skipBlanks_cons (by decide)]
    rfl
  | @next b b' _ row _ hb hb' h =>
    refine ⟨row, h, by simp only [List.length_append, List.length_cons]; omega, ?_⟩
    simp only [List.append_assoc, List.cons_append]
    rw [nextName, skipBlanks_append hb, skipBlanks_cons (by decide)]
    split <;> rename_i heq <;> cases heq
    rw [if_neg (by decide), if_pos rfl, skipBlanks_append hb', skipBlanks_cons (by decide)]
    rfl

theorem nextName_close {b : List Char} (hb : Blank b) (first : Bool) (cs : List Char) :
    nextName first (b ++ '\x7d' :: cs) = .ok none := by
  rw [nextName, skipBlanks_append hb, skipBlanks_cons (by decide)]
  rfl

/-! ## Fields -/

theorem Reads.map {β γ : Type} {r : Reader β} {cs : List Char} {x : β} (h : Reads r cs x)
    (f : β → γ) : Reads (r.map f) cs (f x) := by
  refine ⟨h.starts, fun b rest hb hrest ↦ ?_⟩
  rw [Reader.map, h.eq hb hrest]

namespace Record

variable {record : Record δ α} {draft : List String → δ}

/-- Whether a text under a name is read as that field of the drafts, once. -/
def Sets (record : Record δ α) (draft : List String → δ) (name : String) (value : List Char) :
    Prop :=
  ∃ field, record.fields.find? (·.name == name) = some field
    ∧ ∀ seen, name ∉ seen → field.isSet (draft seen) = false
      ∧ Reads (field.read (draft seen)) value (draft (name :: seen))

theorem sets_of {β : Type} {name : String} {value : List Char} {get : δ → Option β}
    {put : δ → β → δ} {r : Reader β} {x : β} {cutOff : Bool}
    (hfind : record.fields.find? (·.name == name)
      = some { Field.of name get put r with mayBeCutOff := cutOff })
    (hget : ∀ seen, get (draft seen) = if name ∈ seen then some x else none)
    (hput : ∀ seen, put (draft seen) x = draft (name :: seen))
    (h : Reads r value x) : record.Sets draft name value := by
  refine ⟨_, hfind, fun seen hseen ↦ ⟨?_, ?_⟩⟩
  · change (get (draft seen)).isSome = false
    rw [hget, if_neg hseen]
    rfl
  · rw [← hput]
    exact h.map _

theorem Sets.mem {name : String} {value : List Char} (h : record.Sets draft name value) :
    name ∈ record.fields.map (·.name) := by
  obtain ⟨field, hfind, -⟩ := h
  have hname := List.find?_some hfind
  exact List.mem_map.mpr ⟨field, List.mem_of_find?_eq_some hfind, beq_iff_eq.mp hname⟩

theorem Sets.readField {name : String} {value b b' rest : List Char} {seen : List String}
    (h : record.Sets draft name value) (hseen : name ∉ seen) (hb : Blank b) (hb' : Blank b')
    (hrest : Ends rest) :
    record.readField name (draft seen) (b ++ ':' :: (b' ++ (value ++ rest)))
      = .ok (draft (name :: seen), rest) := by
  obtain ⟨field, hfind, h⟩ := h
  obtain ⟨hset, hread⟩ := h seen hseen
  rw [Record.readField, hfind]
  dsimp only
  rw [hset, skipColon_append hb]
  exact hread.eq hb' hrest

theorem readField_of_notMem {name : String} {value b b' rest : List Char} {d : δ}
    (h : Value value) (hname : name ∉ record.fields.map (·.name)) (hb : Blank b) (hb' : Blank b')
    (hrest : Ends rest) :
    record.readField name d (b ++ ':' :: (b' ++ (value ++ rest))) = .ok (d, rest) := by
  have hfind : record.fields.find? (·.name == name) = none := by
    rw [List.find?_eq_none]
    intro field hfield heq
    exact hname (List.mem_map.mpr ⟨field, hfield, beq_iff_eq.mp heq⟩)
  rw [Record.readField, hfind]
  dsimp only
  rw [skipColon_append hb]
  change Except.bind (skipValue (b' ++ (value ++ rest))) _ = _
  rw [skipValue_append h hb' hrest]
  rfl

/-! ## Objects -/

/-- The names of the fields that have been read once another one has. -/
def seenAfter (record : Record δ α) (seen : List String) (entry : String × List Char) :
    List String :=
  if entry.1 ∈ record.fields.map (·.name) then entry.1 :: seen else seen

theorem foldl_seenAfter (entries : List (String × List Char)) (seen : List String) :
    entries.foldl record.seenAfter seen
      = ((entries.map (·.1)).filter (· ∈ record.fields.map (·.name))).reverse ++ seen := by
  induction entries generalizing seen with
  | nil => rfl
  | cons entry entries ih =>
    rw [List.foldl_cons, ih, seenAfter, List.map_cons, List.filter_cons]
    split_ifs with hmem hmem' hmem'
    · rw [List.reverse_cons, List.append_assoc, List.singleton_append]
    · exact absurd (decide_eq_true hmem) hmem'
    · exact absurd (of_decide_eq_true hmem') hmem
    · rfl

/-- Whether an entry of an object is a field of the record, or else is any value at all. -/
def Takes (record : Record δ α) (draft : List String → δ) (entry : String × List Char) : Prop :=
  record.Sets draft entry.1 entry.2
    ∨ entry.1 ∉ record.fields.map (·.name) ∧ Value entry.2

theorem Takes.readField {entry : String × List Char} {b b' rest : List Char} {seen : List String}
    (h : record.Takes draft entry) (hseen : (record.seenAfter seen entry).Nodup) (hb : Blank b)
    (hb' : Blank b') (hrest : Ends rest) :
    record.readField entry.1 (draft seen) (b ++ ':' :: (b' ++ (entry.2 ++ rest)))
      = .ok (draft (record.seenAfter seen entry), rest) := by
  rw [seenAfter] at hseen ⊢
  rcases h with h | ⟨hname, h⟩
  · rw [if_pos h.mem] at hseen ⊢
    exact h.readField (List.nodup_cons.mp hseen).1 hb hb' hrest
  · rw [if_neg hname]
    exact readField_of_notMem h hname hb hb' hrest

/-- The fields of an object are read, each into the draft that the ones before it have left. -/
theorem exists_readFieldsWithin {entries : List (String × List Char)}
    {members : List (List Char)}
    (hmembers : List.Forall₂ (fun entry member ↦
      ∃ name, Spelled entry.1.toList name ∧ Member name entry.2 member) entries members)
    (hentries : ∀ entry ∈ entries, record.Takes draft entry) {seen : List String}
    (hseen : (entries.foldl record.seenAfter seen).Nodup) {first : Bool} {row : List Char}
    (hrow : Row first members row) {budget : ℕ} (hbudget : row.length < budget)
    (cs : List Char) :
    ∃ b, Blank b ∧ record.readFieldsWithin budget first (draft seen) (row ++ '\x7d' :: cs)
      = .ok (draft (entries.foldl record.seenAfter seen), b ++ '\x7d' :: cs) := by
  obtain ⟨budget, rfl⟩ := Nat.exists_eq_add_one.mpr (Nat.zero_lt_of_lt hbudget)
  -- The draft at hand is always that of the names read so far. That no name comes twice is needed
  -- at every field, and only the names of all fields together tell.
  induction hmembers generalizing seen first row budget with
  | nil =>
    obtain ⟨hb⟩ := hrow
    refine ⟨row, hb, ?_⟩
    rw [readFieldsWithin, nextName_close hb]
    rfl
  | @cons entry member entries members hmember _ ih =>
    obtain ⟨name, hname, b, b', hb, hb', rfl⟩ := hmember
    obtain ⟨row', hrow', hlength, hnext⟩ := exists_nextName hrow ('\x7d' :: cs)
    have hends := hrow'.ends (ends_brace cs)
    have hchars := readChars_append hname (b ++ ':' :: (b' ++ (entry.2 ++ (row' ++ '\x7d' :: cs))))
    have hnext' : (record.seenAfter seen entry).Nodup := by
      rw [List.foldl_cons, foldl_seenAfter] at hseen
      exact (List.nodup_append.mp hseen).2.1
    have hfield := (hentries entry List.mem_cons_self).readField hnext' hb hb' hends
    obtain ⟨budget, rfl⟩ := Nat.exists_eq_add_one.mpr (show 0 < budget by omega)
    obtain ⟨b'', hb'', hrest⟩ := ih (fun e he ↦ hentries e (List.mem_cons_of_mem _ he)) hseen hrow'
      budget (by omega)
    refine ⟨b'', hb'', ?_⟩
    simp only [List.append_assoc, List.cons_append] at hnext
    rw [readFieldsWithin, hnext]
    change Except.bind (readChars (name ++ '"' :: (b ++ ':' :: (b' ++
      (entry.2 ++ (row' ++ '\x7d' :: cs)))))) _ = _
    rw [hchars]
    change Except.bind (record.readField entry.1 (draft seen) _) _ = _
    rw [hfield]
    exact hrest

theorem finishDraft_of {x : α} {d : δ} (h : record.finish d = .ok x) :
    record.finishDraft d = .ok x := by
  rw [finishDraft, h]
  rfl

theorem closeObject_append {b : List Char} (hb : Blank b) (cs : List Char) :
    closeObject (b ++ '\x7d' :: cs) = .ok cs := by
  rw [closeObject, skipBlanks_append hb, skipBlanks_cons (by decide)]
  rfl

/-- **A record is read** from any object that has its fields, whatever else is in it. -/
theorem reads_object [NumberReading] {x : α} (draft : List String → δ)
    (hempty : draft [] = record.empty)
    {fields : List (String × List Char)} (hfields : ∀ f ∈ fields, record.Sets draft f.1 f.2)
    (honce : (fields.map (·.1)).Nodup)
    (hfinish : ∀ seen, (∀ name, name ∈ seen ↔ name ∈ fields.map (·.1)) →
      record.finish (draft seen) = .ok x)
    {cs : List Char} (hcs : Object (record.fields.map (·.name)) fields cs) :
    Reads record.read cs x := by
  obtain ⟨others, entries, members, hothers, hperm, hmembers, row, hrow, rfl⟩ := hcs
  have hentries : ∀ entry ∈ entries, record.Takes draft entry := by
    intro entry hentry
    rcases List.mem_append.mp (hperm.mem_iff.mp hentry) with hfield | hother
    · exact .inl (hfields entry hfield)
    · exact .inr (hothers entry hother)
  -- The names that have been read in the end are those of the fields, in another order.
  have hseen : ((entries.foldl record.seenAfter [])).Perm (fields.map (·.1)) := by
    have hknown :
        (fields.map (·.1)).filter (· ∈ record.fields.map (·.name)) = fields.map (·.1) := by
      rw [List.filter_eq_self]
      intro name hname
      obtain ⟨f, hf, rfl⟩ := List.mem_map.mp hname
      exact decide_eq_true (hfields f hf).mem
    have hunknown : (others.map (·.1)).filter (· ∈ record.fields.map (·.name)) = [] := by
      rw [List.filter_eq_nil_iff]
      intro name hname
      obtain ⟨other, hother, rfl⟩ := List.mem_map.mp hname
      exact (hothers other hother).1 ∘ of_decide_eq_true
    rw [foldl_seenAfter, List.append_nil]
    have hnames := ((hperm.map (·.1)).filter (· ∈ record.fields.map (·.name)))
    rw [List.map_append, List.filter_append, hknown, hunknown, List.append_nil] at hnames
    exact (List.reverse_perm _).trans hnames
  refine ⟨⟨_, _, rfl, rfl, by decide⟩, fun b rest hb _ ↦ ?_⟩
  have hbudget : row.length < (row ++ '\x7d' :: rest).length := by simp
  obtain ⟨b', hb', hread⟩ := exists_readFieldsWithin hmembers hentries
    (hseen.nodup_iff.mpr honce) hrow hbudget rest
  rw [read, skipBlanks_append hb, List.cons_append, List.append_assoc, skipBlanks_cons (by decide)]
  change record.readObject (row ++ '\x7d' :: rest) = _
  rw [readObject, ← hempty, hread]
  change Except.bind (record.finishDraft _) _ = _
  rw [finishDraft_of (hfinish _ fun name ↦ hseen.mem_iff)]
  change Except.bind (closeObject (b' ++ '\x7d' :: rest)) _ = _
  rw [closeObject_append hb']
  rfl

end Record

end Json

end LinearProgramming
