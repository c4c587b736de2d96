import LinearProgramming.Json.Decode
import LinearProgramming.Proofs.Json.Nearest
import LinearProgramming.Proofs.Json.Numbers
import LinearProgramming.Proofs.Json.Records
import LinearProgramming.Proofs.Json.Writing

/-!
# A solution is read from what is written for it

What is written for a solution is read as that solution, on one line or on many. The records are
taken from the inside out: what is written for each of them is read as the record, provided that its
numbers read back and its counts fit into 64 bits, which is all the room there is for a count.
-/

namespace LinearProgramming

open Json

variable {style : Style}

/-! ## Counts -/

def Step.counts (s : Step Float) : List ℕ :=
  s.iteration :: (s.pivot.elim [] (fun cell ↦ [cell.1, cell.2]) ++ s.basis)

/-- The counts in a solution, those of its trace included. -/
def Solution.counts (s : Solution Float) : List ℕ :=
  s.iterations :: s.trace.elim [] fun t ↦ t.steps.flatMap Step.counts

/-! ## Words -/

theorem Status.lookup_keyword (s : Status) : words.lookup s.keyword = some s := by
  cases s <;> rfl

theorem Phase.lookup_keyword (p : Phase) : words.lookup p.keyword = some p := by
  cases p <;> rfl

/-! ## Lists and what may be absent -/

section

variable {β : Type} {r : Reader β} {item : β → Json}

theorem reads_write_optional (depth : ℕ) {x : Option β}
    (hx : ∀ y ∈ x, Reads r (write style depth (item y)) y
      ∧ (write style depth (item y)).head? ≠ some 'n') :
    Reads (readOptional r) (write style depth (optional item x)) x := by
  cases x with
  | none =>
    change Reads _ (write style depth null) none
    rw [write_null]
    exact reads_none
  | some y =>
    obtain ⟨hread, hnull⟩ := hx y rfl
    exact reads_some hread hnull

variable [NumberReading]

theorem reads_write_list (h : style.Plain) (depth : ℕ) {xs : List β}
    (hxs : ∀ x ∈ xs, Reads r (write style (depth + 1) (item x)) x) :
    Reads (readList r) (write style depth (list item xs)) xs := by
  refine reads_list ?_ (bracketed_write_list h depth item xs)
  rw [List.forall₂_map_left_iff, List.forall₂_same]
  exact hxs

theorem reads_write_number (depth : ℕ) {x : Float} (h : ReadsBack x) :
    Reads readFloat (write style depth (number x)) x := by
  rw [write_number]
  exact reads_float h

theorem reads_write_count (depth : ℕ) {n : ℕ} (hn : n < 2 ^ 64) :
    Reads readCount (write style depth (count n)) n := by
  rw [write_count]
  exact reads_count hn

theorem reads_write_bool (depth : ℕ) (b : Bool) :
    Reads readBool (write style depth (bool b)) b := by
  rw [write_bool]
  exact reads_bool b

theorem reads_write_string (depth : ℕ) (s : String) :
    Reads readString (write style depth (string s)) s := by
  rw [write_string]
  exact reads_string (literal_stringText s)

theorem reads_write_keyword (depth : ℕ) {words : List (String × β)} {word : String} {x : β}
    (hword : words.lookup word = some x) :
    Reads (readWord words) (write style depth (string word)) x := by
  rw [write_string]
  exact reads_word (literal_stringText word) hword

end

section

variable [NumberReading]

/-! ## The records of an analysis -/

/-- The draft of a shadow price that some of its fields have been read into. -/
def ShadowPrice.draft (s : ShadowPrice Float) (seen : List String) : ShadowPriceDraft where
  constraint := if "constraint" ∈ seen then some s.constraint else none
  value := if "value" ∈ seen then some s.value else none

theorem ShadowPrice.reads_write (h : style.Plain) (depth : ℕ) {s : ShadowPrice Float}
    (hvalue : ReadsBack s.value) :
    Reads shadowPriceRecord.read (write style depth s.toJson) s := by
  refine Record.reads_object s.draft rfl ?_ ?_ (fun seen hseen ↦ ?_) (object_write h depth _ _)
  · simp only [List.map_cons, List.map_nil, List.forall_mem_cons]
    refine ⟨?_, ?_, List.forall_mem_nil _⟩
    · exact Record.sets_of rfl (fun _ ↦ rfl) (fun seen ↦ by simp [draft]) (reads_write_string _ _)
    · exact Record.sets_of rfl (fun _ ↦ rfl) (fun seen ↦ by simp [draft])
        (reads_write_number _ hvalue)
  · simp
  · simp [shadowPriceRecord, draft, required, hseen]
    rfl

/-- The draft of a reduced cost that some of its fields have been read into. -/
def ReducedCost.draft (r : ReducedCost Float) (seen : List String) : ReducedCostDraft where
  variableName := if "variable" ∈ seen then some r.variableName else none
  value := if "value" ∈ seen then some r.value else none
  cost := if "reduced_cost" ∈ seen then some r.cost else none
  isBasic := if "is_basic" ∈ seen then some r.isBasic else none

theorem ReducedCost.reads_write (h : style.Plain) (depth : ℕ) {r : ReducedCost Float}
    (hvalue : ReadsBack r.value) (hcost : ReadsBack r.cost) :
    Reads reducedCostRecord.read (write style depth r.toJson) r := by
  refine Record.reads_object r.draft rfl ?_ ?_ (fun seen hseen ↦ ?_) (object_write h depth _ _)
  · simp only [List.map_cons, List.map_nil, List.forall_mem_cons]
    refine ⟨?_, ?_, ?_, ?_, List.forall_mem_nil _⟩
    · exact Record.sets_of rfl (fun _ ↦ rfl) (fun seen ↦ by simp [draft]) (reads_write_string _ _)
    · exact Record.sets_of rfl (fun _ ↦ rfl) (fun seen ↦ by simp [draft])
        (reads_write_number _ hvalue)
    · exact Record.sets_of rfl (fun _ ↦ rfl) (fun seen ↦ by simp [draft])
        (reads_write_number _ hcost)
    · exact Record.sets_of rfl (fun _ ↦ rfl) (fun seen ↦ by simp [draft]) (reads_write_bool _ _)
  · simp
  · simp [reducedCostRecord, draft, required, hseen]
    rfl

def Analysis.draft (a : Analysis Float) (seen : List String) : AnalysisDraft where
  shadowPrices := if "shadow_prices" ∈ seen then some a.shadowPrices else none
  reducedCosts := if "reduced_costs" ∈ seen then some a.reducedCosts else none
  bindingConstraints := if "binding_constraints" ∈ seen then some a.bindingConstraints else none

theorem Analysis.reads_write (h : style.Plain) (depth : ℕ) {a : Analysis Float}
    (hnumbers : ∀ x ∈ a.numbers, ReadsBack x) :
    Reads analysisRecord.read (write style depth a.toJson) a := by
  rw [numbers, List.forall_mem_append, List.forall_mem_map,
    List.forall_mem_flatMap] at hnumbers
  obtain ⟨hprices, hcosts⟩ := hnumbers
  refine Record.reads_object a.draft rfl ?_ ?_ (fun seen hseen ↦ ?_) (object_write h depth _ _)
  · simp only [List.map_cons, List.map_nil, List.forall_mem_cons]
    refine ⟨?_, ?_, ?_, List.forall_mem_nil _⟩
    · refine Record.sets_of rfl (fun _ ↦ rfl) (fun seen ↦ by simp [draft])
        (reads_write_list h _ fun s hs ↦ ?_)
      exact s.reads_write h _ (hprices s hs)
    · refine Record.sets_of rfl (fun _ ↦ rfl) (fun seen ↦ by simp [draft])
        (reads_write_list h _ fun r hr ↦ ?_)
      have hnumbers := hcosts r hr
      exact r.reads_write h _ (hnumbers _ (by simp)) (hnumbers _ (by simp))
    · exact Record.sets_of rfl (fun _ ↦ rfl) (fun seen ↦ by simp [draft])
        (reads_write_list h _ fun s _ ↦ reads_write_string _ s)
  · simp
  · simp [analysisRecord, draft, required, hseen]
    rfl

/-! ## The records of a trace -/

def Step.draft (s : Step Float) (seen : List String) : StepDraft where
  phase := if "phase" ∈ seen then some s.phase else none
  iteration := if "iteration" ∈ seen then some s.iteration else none
  pivot := if "pivot" ∈ seen then some s.pivot else none
  basis := if "basis" ∈ seen then some s.basis else none
  grid := if "grid" ∈ seen then some s.grid else none

theorem reads_write_cell (h : style.Plain) (depth : ℕ) {cell : ℕ × ℕ} (hrow : cell.1 < 2 ^ 64)
    (hcolumn : cell.2 < 2 ^ 64) :
    Reads (readPair readCount readCount)
      (write style depth (.array [.count cell.1, .count cell.2])) cell := by
  have harray := bracketed_write_array h depth [.count cell.1, .count cell.2]
  rw [List.map_cons, List.map_cons, List.map_nil] at harray
  exact reads_pair (reads_write_count _ hrow) (reads_write_count _ hcolumn) harray

theorem Step.reads_write (h : style.Plain) (depth : ℕ) {s : Step Float}
    (hnumbers : ∀ row ∈ s.grid, ∀ x ∈ row, ReadsBack x) (hcounts : ∀ n ∈ s.counts, n < 2 ^ 64) :
    Reads stepRecord.read (write style depth s.toJson) s := by
  rw [counts, List.forall_mem_cons, List.forall_mem_append] at hcounts
  obtain ⟨hiteration, hpivot, hbasis⟩ := hcounts
  refine Record.reads_object s.draft rfl ?_ ?_ (fun seen hseen ↦ ?_) (object_write h depth _ _)
  · simp only [List.map_cons, List.map_nil, List.forall_mem_cons]
    refine ⟨?_, ?_, ?_, ?_, ?_, List.forall_mem_nil _⟩
    · exact Record.sets_of rfl (fun _ ↦ rfl) (fun seen ↦ by simp [draft])
        (reads_write_keyword _ s.phase.lookup_keyword)
    · exact Record.sets_of rfl (fun _ ↦ rfl) (fun seen ↦ by simp [draft])
        (reads_write_count _ hiteration)
    · refine Record.sets_of rfl (fun _ ↦ rfl) (fun seen ↦ by simp [draft])
        (reads_write_optional _ fun cell hcell ↦ ?_)
      rw [Option.mem_def.mp hcell] at hpivot
      refine ⟨reads_write_cell h _ (hpivot _ (by simp)) (hpivot _ (by simp)), ?_⟩
      rw [head?_write_array]
      decide
    · exact Record.sets_of rfl (fun _ ↦ rfl) (fun seen ↦ by simp [draft])
        (reads_write_list h _ fun n hn ↦ reads_write_count _ (hbasis n hn))
    · exact Record.sets_of rfl (fun _ ↦ rfl) (fun seen ↦ by simp [draft])
        (reads_write_list h _ fun row hrow ↦
          reads_write_list h _ fun x hx ↦ reads_write_number _ (hnumbers row hrow x hx))
  · simp
  · simp [stepRecord, draft, required, hseen]
    rfl

def Trace.draft (t : Trace Float) (seen : List String) : TraceDraft where
  columnLabels := if "column_labels" ∈ seen then some t.columnLabels else none
  steps := if "steps" ∈ seen then some t.steps else none

theorem Trace.reads_write (h : style.Plain) (depth : ℕ) {t : Trace Float}
    (hnumbers : ∀ x ∈ t.toJson.numbers, ReadsBack x)
    (hcounts : ∀ n ∈ t.steps.flatMap Step.counts, n < 2 ^ 64) :
    Reads traceRecord.read (write style depth t.toJson) t := by
  rw [numbers_toJson, List.forall_mem_flatMap] at hnumbers
  rw [List.forall_mem_flatMap] at hcounts
  refine Record.reads_object t.draft rfl ?_ ?_ (fun seen hseen ↦ ?_) (object_write h depth _ _)
  · simp only [List.map_cons, List.map_nil, List.forall_mem_cons]
    refine ⟨?_, ?_, List.forall_mem_nil _⟩
    · exact Record.sets_of rfl (fun _ ↦ rfl) (fun seen ↦ by simp [draft])
        (reads_write_list h _ fun s _ ↦ reads_write_string _ s)
    · refine Record.sets_of rfl (fun _ ↦ rfl) (fun seen ↦ by simp [draft])
        (reads_write_list h _ fun s hs ↦ ?_)
      exact s.reads_write h _ (List.forall_mem_flatten.mp (hnumbers s hs)) (hcounts s hs)
  · simp
  · simp [traceRecord, draft, required, hseen]
    rfl

/-! ## Solutions -/

def Solution.draft (s : Solution Float) (seen : List String) : SolutionDraft where
  status := if "status" ∈ seen then some s.status else none
  values := if "values" ∈ seen then some s.values else none
  objectiveValue := if "objective_value" ∈ seen then some s.objectiveValue else none
  iterations := if "iterations" ∈ seen then some s.iterations else none
  analysis := if "analysis" ∈ seen then some s.analysis else none
  trace := if "trace" ∈ seen then some s.trace else none

theorem Solution.reads_write (h : style.Plain) (depth : ℕ) {s : Solution Float}
    (hnumbers : ∀ x ∈ s.toJson.numbers, ReadsBack x) (hcounts : ∀ n ∈ s.counts, n < 2 ^ 64) :
    Reads solutionRecord.read (write style depth s.toJson) s := by
  rw [numbers_toJson_eq_append, numbers] at hnumbers
  simp only [List.forall_mem_append] at hnumbers
  obtain ⟨⟨⟨hvalues, hobjective⟩, hanalysis⟩, htrace⟩ := hnumbers
  rw [counts, List.forall_mem_cons] at hcounts
  obtain ⟨hiterations, htraceCounts⟩ := hcounts
  refine Record.reads_object s.draft rfl ?_ ?_ (fun seen hseen ↦ ?_) (object_write h depth _ _)
  · simp only [List.map_cons, List.map_nil, List.forall_mem_cons]
    refine ⟨?_, ?_, ?_, ?_, ?_, ?_, List.forall_mem_nil _⟩
    · exact Record.sets_of rfl (fun _ ↦ rfl) (fun seen ↦ by simp [draft])
        (reads_write_keyword _ s.status.lookup_keyword)
    · refine Record.sets_of rfl (fun _ ↦ rfl) (fun seen ↦ by simp [draft])
        (reads_write_optional _ fun xs hxs ↦ ?_)
      rw [Option.mem_def.mp hxs] at hvalues
      refine ⟨reads_write_list h _ fun x hx ↦ reads_write_number _ (hvalues x hx), ?_⟩
      rw [list, head?_write_array]
      decide
    · refine Record.sets_of rfl (fun _ ↦ rfl) (fun seen ↦ by simp [draft])
        (reads_write_optional _ fun x hx ↦ ?_)
      have hback := hobjective x (Option.mem_toList.mpr hx)
      refine ⟨reads_write_number _ hback, ?_⟩
      rw [write_number]
      exact hback.head?_ne
    · exact Record.sets_of rfl (fun _ ↦ rfl) (fun seen ↦ by simp [draft])
        (reads_write_count _ hiterations)
    · refine Record.sets_of rfl (fun _ ↦ rfl) (fun seen ↦ by simp [draft])
        (reads_write_optional _ fun a ha ↦ ?_)
      rw [Option.mem_def.mp ha] at hanalysis
      refine ⟨a.reads_write h _ hanalysis, ?_⟩
      rw [Analysis.toJson, head?_write_object]
      decide
    · refine Record.sets_of rfl (fun _ ↦ rfl) (fun seen ↦ by simp [draft])
        (reads_write_optional _ fun t ht ↦ ?_)
      rw [Option.mem_def.mp ht] at htrace htraceCounts
      refine ⟨t.reads_write h _ htrace htraceCounts, ?_⟩
      rw [Trace.toJson, head?_write_object]
      decide
  · simp
  · simp [solutionRecord, draft, required, hseen]
    rfl

theorem Solution.ofJson_write (h : style.Plain) {s : Solution Float}
    (hnumbers : ∀ x ∈ s.toJson.numbers, ReadsBack x) (hcounts : ∀ n ∈ s.counts, n < 2 ^ 64) :
    ofJson (String.ofList (write style 0 s.toJson)) = .ok s :=
  readDocument_of (s.reads_write h 0 hnumbers hcounts) blank_nil blank_nil (by
    rw [String.toList_ofList, List.append_nil, List.nil_append])

/-- **Reading undoes writing** for a solution whose numbers are finite, if finite numbers read
back. Its counts are machine words of 64 bits. -/
theorem Solution.ofJson_toJson {s : Solution Float} (hcounts : ∀ n ∈ s.counts, n < 2 ^ 64)
    (hfinite : ∀ x ∈ s.toJson.numbers, Scalar.isFinite x = true)
    (hinverse : ∀ x ∈ s.toJson.numbers, Scalar.isFinite x = true → ReadsBack x) :
    ofJson s.toJson.compactText = .ok s ∧ ofJson s.toJson.indentedText = .ok s := by
  have hnumbers : ∀ x ∈ s.toJson.numbers, ReadsBack x := fun x hx ↦ hinverse x hx (hfinite x hx)
  exact ⟨ofJson_write Style.plain_compact hnumbers hcounts,
    ofJson_write Style.plain_indented hnumbers hcounts⟩

end

theorem Solution.ofJson_nearest (h : style.Plain) {s : Solution Float}
    (hcounts : ∀ n ∈ s.counts, n < 2 ^ 64)
    (hfinite : ∀ x ∈ s.toJson.numbers, Scalar.isFinite x = true) :
    @ofJson .nearest (String.ofList (write style 0 s.toJson)) = .ok s :=
  @ofJson_write style .nearest h s (fun x hx ↦ readsBack_nearest (hfinite x hx)) hcounts

/-- A solution with something in every place, a ragged grid and an unusual name among them. -/
def harvest : Solution Float where
  status := .optimal
  values := some [1.5, 0]
  objectiveValue := some (-0.0)
  iterations := 1
  analysis := some {
    shadowPrices := [⟨"east\nfield", 1e-7⟩]
    reducedCosts := [⟨"\"wheat\"", 1.5, 0, true⟩, ⟨"", 0, 2e16, false⟩]
    bindingConstraints := [] }
  trace := some {
    columnLabels := ["X1", "X2", "RHS"]
    steps := [⟨.one, 0, none, [2], [[1, 0.1], []]⟩, ⟨.two, 1, some (0, 1), [1], []⟩] }

theorem Solution.ofJson_toJson_harvest :
    (∀ n ∈ harvest.counts, n < 2 ^ 64)
      ∧ (∀ x ∈ harvest.toJson.numbers, Scalar.isFinite x = true ∧ ReadsBack x)
      ∧ ofJson harvest.toJson.compactText = .ok harvest
      ∧ ofJson harvest.toJson.indentedText = .ok harvest := by
  have hcounts : ∀ n ∈ harvest.counts, n < 2 ^ 64 := by decide
  have hnumbers : ∀ x ∈ harvest.toJson.numbers, Scalar.isFinite x = true ∧ ReadsBack x := by
    decide +kernel
  exact ⟨hcounts, hnumbers, ofJson_toJson hcounts (fun x hx ↦ (hnumbers x hx).1)
    fun x hx _ ↦ (hnumbers x hx).2⟩

end LinearProgramming
