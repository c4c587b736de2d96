import Mathlib.Data.List.Induction
import Mathlib.Data.Nat.PSub

/-!
# Checked access

What a program does with its tables, where a position that a table does not have is an end of
everything and not a value made up for the occasion. Reading is `xs[i]?`, and the number before one
is `Nat.ppred`. Writing and counting are here, and two shapes of loop: one that goes through the
positions of a table and changes its entries in place, and one that goes through them and carries
something along.

Each loop comes with the rule that it succeeds if its body does, at every position that the table
has, and with what it then amounts to: a map in the one case and a fold in the other.
-/

namespace LinearProgramming.Checked

variable {β γ σ : Type}

/-- Write at a position that there is. -/
def setAt (xs : List β) (i : ℕ) (x : β) : Option (List β) :=
  if i < xs.length then some (xs.set i x) else none

theorem setAt_of_lt {xs : List β} {i : ℕ} (h : i < xs.length) (x : β) :
    setAt xs i x = some (xs.set i x) := if_pos h

/-- Copy a list over the first `n` entries of a table, of which there have to be as many. -/
def copyFront (n : ℕ) (xs table : List β) : Option (List β) :=
  if n ≤ table.length ∧ xs.length = n then some (xs ++ table.drop n) else none

theorem copyFront_of_length {n : ℕ} {xs table : List β} (h : xs.length = n)
    (hle : n ≤ table.length) : copyFront n xs table = some (xs ++ table.drop n) := if_pos ⟨hle, h⟩

/-- Count one more, in a word of 64 bits. -/
def next (n : ℕ) : Option ℕ := if n + 1 < 2 ^ 64 then some (n + 1) else none

theorem next_of_lt {n : ℕ} (h : n + 1 < 2 ^ 64) : next n = some (n + 1) := if_pos h

/-! ## Changing every entry -/

/-- Change the entry at position `i`. -/
def changeAt (f : ℕ → β → Option β) (xs : List β) (i : ℕ) : Option (List β) := do
  setAt xs i (← f i (← xs[i]?))

/-- Change the first `n` entries in place, from left to right. -/
def overwrite (n : ℕ) (f : ℕ → β → Option β) (xs : List β) : Option (List β) :=
  (List.range n).foldlM (changeAt f) xs

variable {f : ℕ → β → Option β} {g : ℕ → β → β}

private theorem foldlM_changeAt (done rest : List β)
    (h : ∀ {i : ℕ} {x : β}, rest[i]? = some x →
      f (done.length + i) x = some (g (done.length + i) x)) :
    (List.range' done.length rest.length).foldlM (changeAt f) (done ++ rest)
      = some (done ++ rest.mapIdx fun i x ↦ g (done.length + i) x) := by
  induction rest generalizing done with
  | nil => rfl
  | cons x rest ih =>
    have hread : (done ++ x :: rest)[done.length]? = some x := by
      rw [List.getElem?_append_right (Nat.le_refl _), Nat.sub_self]
      rfl
    have hwrite : setAt (done ++ x :: rest) done.length (g done.length x)
        = some ((done ++ [g done.length x]) ++ rest) := by
      rw [setAt_of_lt (by rw [List.length_append, List.length_cons]; omega), List.set_append_right
        _ _ (Nat.le_refl _), Nat.sub_self, List.set_cons_zero, List.append_assoc]
      rfl
    have hchange : changeAt f (done ++ x :: rest) done.length
        = some ((done ++ [g done.length x]) ++ rest) := by
      rw [changeAt, hread]
      exact (congrArg (· >>= _) (h (i := 0) rfl)).trans hwrite
    have hlength : (done ++ [g done.length x]).length = done.length + 1 := by
      rw [List.length_append, List.length_singleton]
    have hrest := ih (done ++ [g done.length x]) fun {i _} hi ↦ by
      rw [hlength, Nat.add_assoc, Nat.add_comm 1]
      exact h (i := i + 1) hi
    rw [hlength] at hrest
    rw [List.length_cons, List.range'_succ, List.foldlM_cons, hchange]
    refine hrest.trans ?_
    rw [List.mapIdx_cons, List.append_assoc]
    simp only [List.singleton_append, Nat.add_zero, Nat.add_assoc, Nat.add_comm 1]

/-- **A loop that changes every entry** is a map, if the body succeeds at every entry. -/
theorem overwrite_eq (xs : List β)
    (h : ∀ {i : ℕ} {x : β}, xs[i]? = some x → f i x = some (g i x)) :
    overwrite xs.length f xs = some (xs.mapIdx g) := by
  have hloop := foldlM_changeAt (f := f) (g := g) [] xs fun hi ↦ by
    simpa using h hi
  simpa [overwrite, List.range_eq_range'] using hloop

/-! ## Carrying something along -/

/-- **A loop over positions** succeeds if its body does, wherever it has come to by then, and goes
through the entries as a fold does. The two may carry different things, as long as each step keeps
them related. -/
theorem foldlM_range_zipIdx (xs : List γ) (step : β → ℕ → Option β) {f : σ → γ × ℕ → σ}
    {R : β → σ → Prop} (h : ∀ {i : ℕ} {a : γ} {b : β} {x : σ}, xs[i]? = some a → R b x →
      ∃ b', step b i = some b' ∧ R b' (f x (a, i))) {b : β} {x : σ} (hb : R b x) :
    ∃ b', (List.range xs.length).foldlM step b = some b' ∧ R b' (xs.zipIdx.foldl f x) := by
  induction xs using List.reverseRecOn with
  | nil => exact ⟨b, rfl, hb⟩
  | append_singleton xs a ih =>
    obtain ⟨b₁, hloop, hb₁⟩ := ih fun {i _ _ _} hi ↦
      h (by rwa [List.getElem?_append_left (List.getElem?_eq_some_iff.mp hi).1])
    obtain ⟨b₂, hstep, hb₂⟩ := h (i := xs.length) List.getElem?_concat_length hb₁
    refine ⟨b₂, ?_, ?_⟩
    · rw [List.length_append, List.length_singleton, List.range_succ, List.foldlM_append, hloop]
      simp only [Option.bind_eq_bind, Option.bind_some, List.foldlM_cons, List.foldlM_nil, hstep]
      rfl
    · rw [List.zipIdx_append, List.foldl_append]
      simpa using hb₂

theorem foldlM_range (xs : List γ) (step : β → ℕ → Option β) {f : σ → γ → σ} {R : β → σ → Prop}
    (h : ∀ {i : ℕ} {a : γ} {b : β} {x : σ}, xs[i]? = some a → R b x →
      ∃ b', step b i = some b' ∧ R b' (f x a)) {b : β} {x : σ} (hb : R b x) :
    ∃ b', (List.range xs.length).foldlM step b = some b' ∧ R b' (xs.foldl f x) := by
  have hloop := foldlM_range_zipIdx xs step (f := fun x ai ↦ f x ai.1) h hb
  rwa [← List.foldl_map, List.zipIdx_map_fst] at hloop

theorem mapM_eq {f : γ → Option β} {g : γ → β} {xs : List γ} (h : ∀ a ∈ xs, f a = some (g a)) :
    xs.mapM f = some (xs.map g) := by
  induction xs with
  | nil => rfl
  | cons a xs ih =>
    rw [List.mapM_cons, h a List.mem_cons_self, ih fun b hb ↦ h b (List.mem_cons_of_mem _ hb)]
    rfl

theorem mapM_range {xs : List γ} {f : ℕ → Option β} {g : ℕ → γ → β}
    (h : ∀ {i : ℕ} {a : γ}, xs[i]? = some a → f i = some (g i a)) :
    (List.range xs.length).mapM f = some (xs.mapIdx g) := by
  induction xs using List.reverseRecOn with
  | nil => rfl
  | append_singleton xs a ih =>
    have hloop := ih fun {i _} hi ↦
      h (by rwa [List.getElem?_append_left (List.getElem?_eq_some_iff.mp hi).1])
    have hlast : f xs.length = some (g xs.length a) := h List.getElem?_concat_length
    rw [List.length_append, List.length_singleton, List.range_succ, List.mapM_append, hloop,
      List.mapIdx_append]
    simp [hlast]

theorem findM?_eq {test : β → Option Bool} {q : β → Bool} {xs : List β}
    (h : ∀ x ∈ xs, test x = some (q x)) : xs.findM? test = some (xs.find? q) := by
  induction xs with
  | nil => rfl
  | cons x xs ih =>
    rw [List.findM?, List.find?_cons, h x List.mem_cons_self]
    simp only [Option.bind_eq_bind, Option.bind_some]
    cases q x with
    | true => rfl
    | false => exact ih fun y hy ↦ h y (List.mem_cons_of_mem _ hy)

end LinearProgramming.Checked
