import LinearProgramming.Json.Decode
import LinearProgramming.Proofs.Json.Nearest
import LinearProgramming.Proofs.Json.Numbers
import LinearProgramming.Proofs.Json.Records
import LinearProgramming.Proofs.Json.Writing

/-!
# A problem is read from every spelling of it

There is more than one text for a problem. The fields of an object may come in any order and among
others that mean nothing, blanks may stand between all tokens, a relation has a symbol and letters,
and what is absent may be left out or, where it is a name, be `null`. All of these are read as the
problem, and what is written for the problem is among them.
-/

namespace LinearProgramming

open Json

/-! ## Spellings -/

/-- The letters for a relation. -/
def Relation.letters : Relation → String
  | le => "le"
  | ge => "ge"
  | eq => "eq"

theorem Relation.lookup_symbol (r : Relation) : words.lookup r.symbol = some r := by
  cases r <;> rfl

theorem Relation.lookup_letters (r : Relation) : words.lookup r.letters = some r := by
  cases r <;> rfl

/-- The field for a name, which may be left out or be `null` where there is no name. -/
inductive NameField : Option String → List (String × List Char) → Prop
  | absent : NameField none []
  | null : NameField none [("name", "null".toList)]
  | given {s : String} {text : List Char} (h : Literal s text) :
      NameField (some s) [("name", text)]

/-- The field for a list, which may be left out where the list is empty. -/
inductive ListField (name : String) : List (List Char) → List (String × List Char) → Prop
  | absent : ListField name [] []
  | given {items : List (List Char)} {text : List Char} (h : Bracketed '[' ']' items text) :
      ListField name items [(name, text)]

theorem NameField.names_or {name : Option String} {field : List (String × List Char)}
    (h : NameField name field) :
    (name = none ∧ field.map (·.1) = []) ∨ field.map (·.1) = ["name"] := by
  cases h with
  | absent => exact .inl ⟨rfl, rfl⟩
  | null | given => exact .inr rfl

theorem ListField.names_or {name : String} {items : List (List Char)}
    {field : List (String × List Char)} (h : ListField name items field) :
    (items = [] ∧ field.map (·.1) = []) ∨ field.map (·.1) = [name] := by
  cases h with
  | absent => exact .inl ⟨rfl, rfl⟩
  | given => exact .inr rfl

inductive Constraint.Spelling (c : Constraint Float) : List Char → Prop
  | intro {name : List (String × List Char)} {coefficients relation cs : List Char}
      (hname : NameField c.name name)
      (hcoefficients : Bracketed '[' ']' (c.coefficients.map numberText) coefficients)
      (hrelation : Literal c.relation.symbol relation ∨ Literal c.relation.letters relation)
      (h : Object ["name", "coefficients", "relation", "rhs"]
        (name ++ [("coefficients", coefficients), ("relation", relation),
          ("rhs", numberText c.rhs)]) cs) :
      Spelling c cs

inductive Problem.Spelling (p : Problem Float) : List Char → Prop
  | intro {constraints names : List (List Char)}
      {constraintsField namesField : List (String × List Char)} {sense objective cs : List Char}
      (hsense : Literal p.sense.keyword sense)
      (hobjective : Bracketed '[' ']' (p.objective.map numberText) objective)
      (hconstraints : List.Forall₂ Constraint.Spelling p.constraints constraints)
      (hconstraintsField : ListField "constraints" constraints constraintsField)
      (hnames : List.Forall₂ Literal p.variableNames names)
      (hnamesField : ListField "variable_names" names namesField)
      (h : Object ["sense", "objective", "constraints", "variable_names"]
        ([("sense", sense), ("objective", objective)] ++ constraintsField ++ namesField) cs) :
      Spelling p cs

/-- Whether a whole text is a spelling of a problem with blanks around it. -/
def Problem.SpelledBy (p : Problem Float) (text : String) : Prop :=
  ∃ b cs b', Blank b ∧ p.Spelling cs ∧ Blank b' ∧ text.toList = b ++ (cs ++ b')

/-! ## Reading -/

theorem Sense.lookup_keyword (s : Sense) : words.lookup s.keyword = some s := by
  cases s <;> rfl

theorem ListField.forall_sets {δ α : Type} {record : Record δ α} {draft : List String → δ}
    {name : String} {items : List (List Char)} {field : List (String × List Char)}
    (h : ListField name items field)
    (hsets : ∀ text, Bracketed '[' ']' items text → record.Sets draft name text) :
    ∀ f ∈ field, record.Sets draft f.1 f.2 := by
  cases h with
  | absent => exact List.forall_mem_nil _
  | given h => exact List.forall_mem_singleton.mpr (hsets _ h)

theorem getD_of_notMem {β : Type} {name : String} {seen : List String} {xs : List β}
    (h : name ∉ seen → xs = []) : (if name ∈ seen then some xs else none).getD [] = xs := by
  split_ifs with hseen
  · rfl
  · exact (h hseen).symm

section

variable [NumberReading]

/-- The draft of a constraint that some of its fields have been read into. -/
def Constraint.draft (c : Constraint Float) (seen : List String) : ConstraintDraft where
  name := if "name" ∈ seen then some c.name else none
  coefficients := if "coefficients" ∈ seen then some c.coefficients else none
  relation := if "relation" ∈ seen then some c.relation else none
  rhs := if "rhs" ∈ seen then some c.rhs else none

theorem NameField.forall_sets {δ α : Type} {record : Record δ α} {draft : List String → δ}
    {name : Option String} {field : List (String × List Char)} (h : NameField name field)
    (hsets : ∀ text, Reads (readOptional readString) text name → record.Sets draft "name" text) :
    ∀ f ∈ field, record.Sets draft f.1 f.2 := by
  cases h with
  | absent => exact List.forall_mem_nil _
  | null => exact List.forall_mem_singleton.mpr (hsets _ reads_none)
  | given h =>
    refine List.forall_mem_singleton.mpr (hsets _ (reads_some (reads_string h) ?_))
    obtain ⟨body, -, rfl⟩ := h
    rw [List.head?_cons]
    decide

theorem reads_relation {r : Relation} {cs : List Char}
    (h : Literal r.symbol cs ∨ Literal r.letters cs) : Reads (readWord Relation.words) cs r := by
  rcases h with h | h
  · exact reads_word h r.lookup_symbol
  · exact reads_word h r.lookup_letters

theorem Constraint.Spelling.reads {c : Constraint Float} {cs : List Char} (h : c.Spelling cs)
    (hcoefficients : ∀ x ∈ c.coefficients, ReadsBack x) (hrhs : ReadsBack c.rhs) :
    Reads constraintRecord.read cs c := by
  obtain ⟨hname, hcoeffs, hrelation, hcs⟩ := h
  refine Record.reads_object c.draft rfl ?_ ?_ (fun seen hseen ↦ ?_) hcs
  · simp only [List.forall_mem_append, List.forall_mem_cons]
    refine ⟨hname.forall_sets fun text htext ↦ ?_, ?_, ?_, ?_, List.forall_mem_nil _⟩
    · exact Record.sets_of rfl (fun _ ↦ rfl) (fun seen ↦ by simp [draft]) htext
    · exact Record.sets_of rfl (fun _ ↦ rfl) (fun seen ↦ by simp [draft])
        (reads_numbers hcoefficients hcoeffs)
    · exact Record.sets_of rfl (fun _ ↦ rfl) (fun seen ↦ by simp [draft]) (reads_relation hrelation)
    · exact Record.sets_of rfl (fun _ ↦ rfl) (fun seen ↦ by simp [draft]) (reads_float hrhs)
  · rcases hname.names_or with ⟨-, hnames⟩ | hnames <;> simp [hnames]
  -- The name of a constraint without one is `none`, be it left out or written as `null`.
  · rcases hname.names_or with ⟨hnone, hnames⟩ | hnames
    · simp [constraintRecord, draft, required, hseen, hnames, ← hnone]
      rfl
    · simp [constraintRecord, draft, required, hseen, hnames]
      rfl

def Problem.draft (p : Problem Float) (seen : List String) : ProblemDraft where
  sense := if "sense" ∈ seen then some p.sense else none
  objective := if "objective" ∈ seen then some p.objective else none
  constraints := if "constraints" ∈ seen then some p.constraints else none
  variableNames := if "variable_names" ∈ seen then some p.variableNames else none

theorem Problem.Spelling.reads {p : Problem Float} {cs : List Char} (h : p.Spelling cs)
    (hnumbers : ∀ x ∈ p.toJson.numbers, ReadsBack x) : Reads problemRecord.read cs p := by
  obtain ⟨hsense, hobjective, hconstraints, hconstraintsField, hnames, hnamesField, hcs⟩ := h
  rw [numbers_toJson, List.forall_mem_append] at hnumbers
  obtain ⟨hobjective', hrows⟩ := hnumbers
  have hreads := (List.forall₂_and_left _ _).mpr ⟨List.forall_mem_flatMap.mp hrows, hconstraints⟩
  have hconstraints' := hreads.flip.imp fun text c hc ↦ by
    obtain ⟨hnumbers, hspelling⟩ := hc
    rw [List.forall_mem_append, List.forall_mem_singleton] at hnumbers
    exact hspelling.reads hnumbers.1 hnumbers.2
  refine Record.reads_object p.draft rfl ?_ ?_ (fun seen hseen ↦ ?_) hcs
  · simp only [List.forall_mem_append, List.forall_mem_cons]
    refine ⟨⟨⟨?_, ?_, List.forall_mem_nil _⟩, hconstraintsField.forall_sets fun text htext ↦ ?_⟩,
      hnamesField.forall_sets fun text htext ↦ ?_⟩
    · exact Record.sets_of rfl (fun _ ↦ rfl) (fun seen ↦ by simp [draft])
        (reads_word hsense p.sense.lookup_keyword)
    · exact Record.sets_of rfl (fun _ ↦ rfl) (fun seen ↦ by simp [draft])
        (reads_numbers hobjective' hobjective)
    · exact Record.sets_of rfl (fun _ ↦ rfl) (fun seen ↦ by simp [draft])
        (reads_list hconstraints' htext)
    · exact Record.sets_of rfl (fun _ ↦ rfl) (fun seen ↦ by simp [draft])
        (reads_strings hnames htext)
  · rcases hconstraintsField.names_or with ⟨-, hc⟩ | hc <;>
      rcases hnamesField.names_or with ⟨-, hn⟩ | hn <;> simp [hc, hn]
  -- A list that is not in the text is empty, which is also what the draft is given for it.
  · have hconstraints : (p.draft seen).constraints.getD [] = p.constraints := by
      refine getD_of_notMem fun hnone ↦ ?_
      rcases hconstraintsField.names_or with ⟨hempty, -⟩ | hc
      · subst hempty
        exact List.forall₂_nil_right_iff.mp hconstraints
      · exact absurd ((hseen _).mpr (by simp [hc])) hnone
    have hnames : (p.draft seen).variableNames.getD [] = p.variableNames := by
      refine getD_of_notMem fun hnone ↦ ?_
      rcases hnamesField.names_or with ⟨hempty, -⟩ | hc
      · subst hempty
        exact List.forall₂_nil_right_iff.mp hnames
      · exact absurd ((hseen _).mpr (by simp [hc])) hnone
    have hsense : (p.draft seen).sense = some p.sense := if_pos ((hseen _).mpr (by simp))
    have hobjective : (p.draft seen).objective = some p.objective :=
      if_pos ((hseen _).mpr (by simp))
    simp only [problemRecord, hconstraints, hnames, hsense, hobjective, required]
    rfl

/-! ## Whole texts -/

theorem Problem.ofJson_of_spelledBy {p : Problem Float} {text : String}
    (hnumbers : ∀ x ∈ p.toJson.numbers, ReadsBack x) (h : p.SpelledBy text) :
    ofJson text = .ok p := by
  obtain ⟨b, cs, b', hb, hcs, hb', htext⟩ := h
  exact readDocument_of (hcs.reads hnumbers) hb hb' htext

end

/-! ## Writing -/

section

variable {style : Style}

theorem Constraint.spelling_write (h : style.Plain) (depth : ℕ) (c : Constraint Float) :
    c.Spelling (write style depth c.toJson) := by
  obtain ⟨name, coefficients, relation, rhs⟩ := c
  have hcoefficients := bracketed_write_list h (depth + 1) number coefficients
  simp only [write_number] at hcoefficients
  have hrelation := literal_stringText relation.symbol
  cases name with
  | none =>
    have hobject := object_write h depth ["name", "coefficients", "relation", "rhs"]
      [("coefficients", list number coefficients), ("relation", string relation.symbol),
        ("rhs", number rhs)]
    simp only [List.map_cons, List.map_nil, write_string, write_number] at hobject
    exact .intro .absent hcoefficients (.inl hrelation) hobject
  | some name =>
    have hobject := object_write h depth ["name", "coefficients", "relation", "rhs"]
      [("name", string name), ("coefficients", list number coefficients),
        ("relation", string relation.symbol), ("rhs", number rhs)]
    simp only [List.map_cons, List.map_nil, write_string, write_number] at hobject
    exact .intro (.given (literal_stringText name)) hcoefficients (.inl hrelation) hobject

theorem Problem.spelling_write (h : style.Plain) (depth : ℕ) (p : Problem Float) :
    p.Spelling (write style depth p.toJson) := by
  obtain ⟨sense, objective, constraints, names⟩ := p
  have hobjective := bracketed_write_list h (depth + 1) number objective
  have hconstraints := bracketed_write_list h (depth + 1) (·.toJson) constraints
  have hspellings : List.Forall₂ Constraint.Spelling constraints
      (constraints.map fun c ↦ write style (depth + 2) c.toJson) := by
    rw [List.forall₂_map_right_iff, List.forall₂_same]
    exact fun c _ ↦ c.spelling_write h _
  have hsense := literal_stringText sense.keyword
  simp only [write_number] at hobjective
  cases names with
  | nil =>
    have hobject := object_write h depth ["sense", "objective", "constraints", "variable_names"]
      [("sense", string sense.keyword), ("objective", list number objective),
        ("constraints", list (·.toJson) constraints)]
    simp only [List.map_cons, List.map_nil, write_string] at hobject
    exact .intro hsense hobjective hspellings (.given hconstraints) .nil .absent hobject
  | cons name names =>
    have hnames := bracketed_write_list h (depth + 1) string (name :: names)
    have hliterals : List.Forall₂ Literal (name :: names) ((name :: names).map stringText) := by
      rw [List.forall₂_map_right_iff, List.forall₂_same]
      exact fun s _ ↦ literal_stringText s
    have hobject := object_write h depth ["sense", "objective", "constraints", "variable_names"]
      [("sense", string sense.keyword), ("objective", list number objective),
        ("constraints", list (·.toJson) constraints),
        ("variable_names", list string (name :: names))]
    simp only [List.map_cons, List.map_nil, write_string] at hobject
    simp only [write_string] at hnames
    exact .intro hsense hobjective hspellings (.given hconstraints) hliterals (.given hnames)
      hobject

theorem Problem.spelledBy_write (h : style.Plain) (p : Problem Float) :
    p.SpelledBy (String.ofList (write style 0 p.toJson)) :=
  ⟨[], _, [], blank_nil, p.spelling_write h 0, blank_nil, by
    rw [String.toList_ofList, List.append_nil, List.nil_append]⟩

end

/-- **Reading undoes writing** for a problem whose numbers are finite, in whatever way the problem
is spelled, if finite numbers read back. -/
theorem Problem.ofJson_of_readsBack [NumberReading] {p : Problem Float}
    (hfinite : ∀ x ∈ p.toJson.numbers, Scalar.isFinite x = true)
    (hinverse : ∀ x ∈ p.toJson.numbers, Scalar.isFinite x = true → ReadsBack x) :
    (∀ text, p.SpelledBy text → ofJson text = .ok p)
      ∧ ofJson p.toJson.compactText = .ok p ∧ ofJson p.toJson.indentedText = .ok p := by
  have hnumbers : ∀ x ∈ p.toJson.numbers, ReadsBack x := fun x hx ↦ hinverse x hx (hfinite x hx)
  exact ⟨fun _ ↦ ofJson_of_spelledBy hnumbers,
    ofJson_of_spelledBy hnumbers (p.spelledBy_write Style.plain_compact),
    ofJson_of_spelledBy hnumbers (p.spelledBy_write Style.plain_indented)⟩

theorem Problem.ofJson_nearest {p : Problem Float}
    (hfinite : ∀ x ∈ p.toJson.numbers, Scalar.isFinite x = true) {text : String}
    (h : p.SpelledBy text) : @ofJson .nearest text = .ok p :=
  @ofJson_of_spelledBy .nearest p text (fun x hx ↦ readsBack_nearest (hfinite x hx)) h

/-- Two ways to use an oven. -/
def bakery : Problem Float where
  sense := .maximize
  objective := [2.5, -0.0]
  constraints := [{ name := none, coefficients := [1, 1e-7], relation := .le, rhs := 40 }]
  variableNames := []

/-- The problem with its fields from last to first, and one that no problem has. -/
def bakeryText : String :=
  "\x7b\"oven\":true,\"constraints\":[\x7b\"rhs\":40.0,\"relation\":\"le\",\"coefficients\":"
    ++ "[1.0,1e-7],\"name\":null\x7d],\"objective\":[2.5,-0.0],\"sense\":\"maximize\"\x7d\n"

theorem spelledBy_bakeryText : bakery.SpelledBy bakeryText := by
  have hpair : ∀ x y, Bracketed '[' ']' [x, y] _ := fun x y ↦
    ⟨_, .head blank_nil (.next blank_nil blank_nil (.nil blank_nil)), rfl⟩
  have hobject : ∀ w x y z, Bracketed '\x7b' '\x7d' [w, x, y, z] _ := fun w x y z ↦
    ⟨_, .head blank_nil (.next blank_nil blank_nil (.next blank_nil blank_nil
      (.next blank_nil blank_nil (.nil blank_nil)))), rfl⟩
  have hmember := fun name value ↦ member_stringText blank_nil name value
  have hconstraint : Constraint.Spelling bakery.constraints[0] _ :=
    .intro .null (hpair _ _) (.inr (literal_stringText _))
      ⟨[], _, _, List.forall_mem_nil _, List.reverse_perm _,
        .cons (hmember _ _) (.cons (hmember _ _) (.cons (hmember _ _) (.cons (hmember _ _) .nil))),
        hobject _ _ _ _⟩
  have hproblem : bakery.Spelling _ :=
    .intro (literal_stringText _) (hpair _ _) (.cons hconstraint .nil)
      (.given ⟨_, .head blank_nil (.nil blank_nil), rfl⟩) .nil .absent
      ⟨[("oven", "true".toList)], _, _, List.forall_mem_singleton.mpr ⟨by decide, .true⟩,
        List.reverse_perm _, .cons (hmember _ _) (.cons (hmember _ _) (.cons (hmember _ _)
          (.cons (hmember _ _) .nil))), hobject _ _ _ _⟩
  refine ⟨[], _, ['\n'], blank_nil, hproblem, List.forall_mem_singleton.mpr rfl, ?_⟩
  decide +kernel

theorem Problem.ofJson_of_readsBack_bakery :
    (∀ x ∈ bakery.toJson.numbers, Scalar.isFinite x = true ∧ ReadsBack x)
      ∧ bakery.SpelledBy bakeryText ∧ ofJson bakeryText = .ok bakery
      ∧ ofJson bakery.toJson.compactText = .ok bakery
      ∧ ofJson bakery.toJson.indentedText = .ok bakery := by
  have hnumbers : ∀ x ∈ bakery.toJson.numbers, Scalar.isFinite x = true ∧ ReadsBack x := by
    decide +kernel
  obtain ⟨hspelled, hcompact, hindented⟩ :=
    ofJson_of_readsBack (fun x hx ↦ (hnumbers x hx).1) fun x hx _ ↦ (hnumbers x hx).2
  exact ⟨hnumbers, spelledBy_bakeryText, hspelled _ spelledBy_bakeryText, hcompact, hindented⟩

end LinearProgramming
