import LinearProgramming.CommandLine.Response
import LinearProgramming.Proofs.Problem.Canonical
import LinearProgramming.Proofs.Solve.Limit

/-!
# Exit codes and output

What a script that runs the program can rely on. The exit code is zero exactly where the command has
achieved what it is for, and one otherwise. An answer, wanted or not, is all that is written to
standard output; a complaint is all that is written to standard error, except for the events that
were asked for. There is always one of the two and never both.

An answer need not be a success. That a problem has no feasible point or no bound is an answer of
`solve`, although the exit code is one.

Whether a problem is well formed does not depend on how it is to be solved. So `check` approves of
just those files on which no options make `solve` complain of the problem.

## What becomes of a dual

A dual is printed to be used as a problem, which it is where the problem has constraints. Each of
them gives the dual a variable, and the limits on the two numbers are the same, so that nothing else
can go wrong. But a problem need not have constraints, and a dual needs variables. No fault is found
when the dual of such a problem is formed, and what is handed back can neither be solved nor passes
for a problem.
-/

namespace LinearProgramming

/-! ## The two streams -/

namespace Response

def standardOutput (r : Response) : String := textOf r.output

/-- What is written to standard error where more reporting was asked for `verbosity` times. -/
def standardError (verbosity : ℕ) (r : Response) : String :=
  textOf (CommandLine.eventLines verbosity r) ++ textOf r.complaints

theorem textOf_ne_empty {lines : List String} (h : lines ≠ []) : textOf lines ≠ "" := by
  cases lines with
  | nil => exact absurd rfl h
  | cons line rest =>
    intro heq
    have hlength := congrArg String.length heq
    simp [textOf, String.join_cons] at hlength

/-- How the exit code and the two streams go together, by whether there is an answer and whether it
is a success. -/
structure Reports (answered succeeded : Prop) (verbosity : ℕ) (r : Response) : Prop where
  exitCode_eq_zero_iff : r.exitCode = 0 ↔ succeeded
  exitCode_eq_one : ¬succeeded → r.exitCode = 1
  of_answered : answered → r.standardOutput ≠ ""
    ∧ r.standardError verbosity = textOf (CommandLine.eventLines verbosity r)
  of_not_answered : ¬answered → r.standardOutput = "" ∧ r.standardError verbosity ≠ ""

variable {answered succeeded : Prop} {verbosity : ℕ} {lines : List String}
  {events : List (Event Float)}

theorem reports_result {success : Bool} (hlines : lines ≠ []) (hanswered : answered)
    (hsucceeded : success = true ↔ succeeded) :
    Reports answered succeeded verbosity { result success lines with events := events } where
  exitCode_eq_zero_iff := by
    rw [← hsucceeded]
    change (if success then 0 else 1) = 0 ↔ success = true
    cases success <;> decide
  exitCode_eq_one h := by
    rw [← hsucceeded] at h
    exact if_neg h
  of_answered _ := ⟨textOf_ne_empty hlines, String.append_empty⟩
  of_not_answered h := absurd hanswered h

theorem reports_failure (hlines : lines ≠ []) (hanswered : ¬answered) (hsucceeded : ¬succeeded) :
    Reports answered succeeded verbosity { failure lines with events := events } where
  exitCode_eq_zero_iff := iff_of_false Nat.one_ne_zero hsucceeded
  exitCode_eq_one _ := rfl
  of_answered h := absurd h hanswered
  of_not_answered _ := by
    refine ⟨rfl, fun heq ↦ textOf_ne_empty hlines ?_⟩
    exact (String.append_eq_empty_iff.mp heq).2

end Response

/-! ## Answers and successes -/

namespace CommandLine

/-- The file can be read, is a text, and the text is a problem. -/
def Loads (contents : Except ReadFault ByteArray) (p : Problem Float) : Prop :=
  ∃ bytes text, contents = .ok bytes ∧ String.fromUTF8? bytes = some text
    ∧ Problem.ofJson text = .ok p

/-- The command has an answer for what the file holds. -/
def Answered (contents : Except ReadFault ByteArray) : Command → Prop
  | .solve options => ∃ p s, Loads contents p ∧ solve (settings options) p = .ok s
  | .check => ∃ p, Loads contents p ∧ p.WellFormed
  | .dual => ∃ p d, Loads contents p ∧ p.dual = .ok d

/-- The command achieves what it is for. -/
def Succeeded (contents : Except ReadFault ByteArray) : Command → Prop
  | .solve options => ∃ p s, Loads contents p ∧ solve (settings options) p = .ok s
    ∧ s.status = .optimal
  | .check => ∃ p, Loads contents p ∧ p.WellFormed
  | .dual => ∃ p d, Loads contents p ∧ p.dual = .ok d

variable {contents : Except ReadFault ByteArray} {p q : Problem Float} {options : SolveOptions}
  {verbosity : ℕ}

theorem Loads.unique (hp : Loads contents p) (hq : Loads contents q) : p = q := by
  obtain ⟨bytes, text, rfl, htext, hp⟩ := hp
  obtain ⟨bytes', text', hbytes, htext', hq⟩ := hq
  cases hbytes
  rw [htext] at htext'
  cases htext'
  exact Except.ok.inj (hp.symm.trans hq)

theorem Answered.exists_loads {command : Command} (h : Answered contents command) :
    ∃ p, Loads contents p := by
  cases command with
  | solve options =>
    obtain ⟨p, s, hp, -⟩ := h
    exact ⟨p, hp⟩
  | check =>
    obtain ⟨p, hp, -⟩ := h
    exact ⟨p, hp⟩
  | dual =>
    obtain ⟨p, d, hp, -⟩ := h
    exact ⟨p, hp⟩

theorem Succeeded.answered {command : Command} (h : Succeeded contents command) :
    Answered contents command := by
  cases command with
  | solve options =>
    obtain ⟨p, s, hp, hs, -⟩ := h
    exact ⟨p, s, hp, hs⟩
  | check => exact h
  | dual => exact h

theorem solutionLines_ne_nil (options : SolveOptions) (p : Problem Float) (s : Solution Float) :
    solutionLines options p s ≠ [] := by
  rw [solutionLines]
  cases options.format with
  | json => exact List.cons_ne_nil _ _
  | pretty =>
    have hstatus : s.statusLines p options.analysis ≠ [] := by
      rw [Solution.statusLines]
      cases s.status <;> exact List.cons_ne_nil _ _
    exact List.append_ne_nil_of_right_ne_nil _ hstatus

/-! ## Each command -/

theorem reports_respondSolve (hp : Loads contents p) :
    (respondSolve options p).Reports (Answered contents (.solve options))
      (Succeeded contents (.solve options)) verbosity := by
  rw [respondSolve]
  dsimp only
  cases hsolve : (solveWithEvents (settings options) p).2 with
  | error fault =>
    have hnone : ¬Answered contents (.solve options) := by
      rintro ⟨q, s, hq, hs⟩
      obtain rfl := hp.unique hq
      cases hsolve.symm.trans hs
    exact Response.reports_failure (List.cons_ne_nil _ _) hnone fun h ↦ hnone h.answered
  | ok s =>
    refine Response.reports_result (solutionLines_ne_nil options p s) ⟨p, s, hp, hsolve⟩ ?_
    rw [Solution.isOptimal, decide_eq_true_iff]
    refine ⟨fun hoptimal ↦ ⟨p, s, hp, hsolve, hoptimal⟩, ?_⟩
    rintro ⟨q, s', hq, hs', hoptimal⟩
    obtain rfl := hp.unique hq
    obtain rfl := Except.ok.inj (hsolve.symm.trans hs')
    exact hoptimal

theorem reports_respondCheck (file : String) (hp : Loads contents p) :
    (respondCheck file p).Reports (Answered contents .check) (Succeeded contents .check)
      verbosity := by
  rw [respondCheck]
  cases hvalid : p.validate with
  | error fault =>
    have hnone : ¬Answered contents .check := by
      rintro ⟨q, hq, hwell⟩
      obtain rfl := hp.unique hq
      cases hvalid.symm.trans hwell
    exact Response.reports_failure (List.cons_ne_nil _ _) hnone hnone
  | ok =>
    exact Response.reports_result (List.cons_ne_nil _ _) ⟨p, hp, hvalid⟩
      (iff_of_true rfl ⟨p, hp, hvalid⟩)

theorem reports_respondDual (hp : Loads contents p) :
    (respondDual p).Reports (Answered contents .dual) (Succeeded contents .dual) verbosity := by
  rw [respondDual]
  cases hdual : p.dual with
  | error fault =>
    have hnone : ¬Answered contents .dual := by
      rintro ⟨q, d, hq, hd⟩
      obtain rfl := hp.unique hq
      cases hdual.symm.trans hd
    exact Response.reports_failure (List.cons_ne_nil _ _) hnone hnone
  | ok d =>
    exact Response.reports_result (List.cons_ne_nil _ _) ⟨p, d, hp, hdual⟩
      (iff_of_true rfl ⟨p, d, hp, hdual⟩)

theorem reports_respondTo (invocation : Invocation) (hp : Loads contents p) :
    (respondTo invocation p).Reports (Answered contents invocation.command)
      (Succeeded contents invocation.command) verbosity := by
  rw [respondTo]
  cases invocation.command with
  | solve options => exact reports_respondSolve hp
  | check => exact reports_respondCheck invocation.file hp
  | dual => exact reports_respondDual hp

theorem reports_respondToBytes (invocation : Invocation)
    (contents : Except ReadFault ByteArray) :
    (respondToBytes invocation contents).Reports (Answered contents invocation.command)
      (Succeeded contents invocation.command) verbosity := by
  have hcomplaint : ∀ line, (¬∃ p, Loads contents p) →
      (Response.failure [line]).Reports (Answered contents invocation.command)
        (Succeeded contents invocation.command) verbosity := by
    intro line hnone
    exact Response.reports_failure (List.cons_ne_nil _ _) (fun h ↦ hnone h.exists_loads)
      fun h ↦ hnone h.answered.exists_loads
  rw [respondToBytes]
  cases contents with
  | error fault =>
    refine hcomplaint _ ?_
    rintro ⟨p, bytes, text, hbytes, -⟩
    cases hbytes
  | ok bytes =>
    have hbind : (Except.ok bytes >>= decodeText) = decodeText bytes := rfl
    rw [hbind, decodeText]
    cases htext : String.fromUTF8? bytes with
    | none =>
      refine hcomplaint _ ?_
      rintro ⟨p, bytes', text, hbytes, htext', -⟩
      cases hbytes
      cases htext.symm.trans htext'
    | some text =>
      dsimp only
      cases hproblem : Problem.ofJson text with
      | error fault =>
        refine hcomplaint _ ?_
        rintro ⟨p, bytes', text', hbytes, htext', hp⟩
        cases hbytes
        obtain rfl := Option.some.inj (htext.symm.trans htext')
        cases hproblem.symm.trans hp
      | ok p => exact reports_respondTo invocation ⟨bytes, text, rfl, htext, hproblem⟩

/-! ## Solving the file that is checked -/

theorem isEmpty_file_of_understandFrom {args : List String} {invocation : Invocation}
    (h : understandFrom verbosity args = some invocation) : invocation.file.isEmpty = false := by
  induction args generalizing verbosity with
  | nil => cases h
  | cons arg rest ih =>
    rw [understandFrom] at h
    split at h
    · simp only [afterCommand?, Option.bind_eq_bind, Option.bind_eq_some_iff] at h
      obtain ⟨_, -, a, -, _, -, file, hfile, hresult⟩ := h
      cases hresult
      rw [Arguments.operand?] at hfile
      split at hfile
      · split_ifs at hfile with hempty
        cases hfile
        exact Bool.not_eq_true _ ▸ hempty
      · cases hfile
    · cases h
    · exact ih h

/-- Every file can be solved without an option. Behind the dashes its name is never taken for
one. -/
theorem understand_solve {file : String} (hfile : file.isEmpty = false) :
    understand ["solve", "--", file]
      = some ⟨0, .solve ⟨false, false, .pretty, none, none⟩, file⟩ := by
  have hoperand : (Arguments.mk [] [file]).operand? = some file := by
    change (if file.isEmpty then none else some file) = some file
    rw [hfile]
    rfl
  change (Option.bind (Arguments.mk [] [file]).operand? fun file ↦ some _) = _
  rw [hoperand]
  rfl

/-- **Exit codes and output** of every command line that makes sense, whatever its file holds. A
file passes `check` exactly where no options make `solve` complain of the problem in it. -/
theorem reports_respond (read : String → Except ReadFault ByteArray) {args : List String}
    {invocation : Invocation} (h : understand args = some invocation) :
    (respond read args).Reports (Answered (read invocation.file) invocation.command)
        (Succeeded (read invocation.file) invocation.command) invocation.verbosity
      ∧ (invocation.command = .check → ((respond read args).exitCode = 0
        ↔ ∃ p, Loads (read invocation.file) p
          ∧ ∀ args' verbosity options,
            understand args' = some ⟨verbosity, .solve options, invocation.file⟩ →
            ∀ fault, solve (settings options) p ≠ .error (.malformed fault))) := by
  have hreports : (respond read args).Reports (Answered (read invocation.file) invocation.command)
      (Succeeded (read invocation.file) invocation.command) invocation.verbosity := by
    rw [respond, h]
    exact reports_respondToBytes invocation _
  refine ⟨hreports, fun hcheck ↦ ?_⟩
  rw [hreports.exitCode_eq_zero_iff, hcheck]
  -- Whether the problem is malformed does not depend on the options. Some options are needed,
  -- though, to complain of it, hence the command line without any.
  refine exists_congr fun p ↦ and_congr_right fun _ ↦ ?_
  simp only [Ne, solve_eq_malformed_iff, Problem.WellFormed]
  cases p.validate with
  | error fault =>
    refine iff_of_false (by rintro ⟨⟩) fun hnone ↦ ?_
    exact hnone _ _ _ (understand_solve (isEmpty_file_of_understandFrom h)) fault rfl
  | ok => exact iff_of_true rfl fun _ _ _ _ _ ↦ by rintro ⟨⟩

/-- A directory with one file in it, a problem with a bound that no amount of its product meets. -/
def stockroom (file : String) : Except ReadFault ByteArray :=
  if file = "stock.json" then
    .ok (String.toUTF8 ("\x7b\"sense\":\"minimize\",\"objective\":[1],\"constraints\":"
      ++ "[\x7b\"coefficients\":[1],\"relation\":\"<=\",\"rhs\":-1\x7d]\x7d"))
  else .error .notFound

/-- The problem has no feasible point, which `solve` says with exit code one, and of which `check`
knows nothing. A file that is not there is complained of. -/
theorem reports_respond_stockroom :
    (respond stockroom ["solve", "stock.json"]).exitCode = 1
      ∧ (respond stockroom ["solve", "stock.json"]).standardOutput ≠ ""
      ∧ (∃ p s, Loads (stockroom "stock.json") p ∧ solve .standard p = .ok s
        ∧ s.status ≠ .optimal)
      ∧ (respond stockroom ["-v", "check", "stock.json"]).exitCode = 0
      ∧ (∃ p, Loads (stockroom "stock.json") p ∧ p.WellFormed)
      ∧ (respond stockroom ["dual", "order.json"]).exitCode = 1
      ∧ (respond stockroom ["dual", "order.json"]).standardError 0 ≠ "" := by
  have hsolve : understand ["solve", "stock.json"]
      = some ⟨0, .solve ⟨false, false, .pretty, none, none⟩, "stock.json"⟩ := by rfl
  have hcheck : understand ["-v", "check", "stock.json"] = some ⟨1, .check, "stock.json"⟩ := by rfl
  have hdual : understand ["dual", "order.json"] = some ⟨0, .dual, "order.json"⟩ := by rfl
  have hone : (respond stockroom ["solve", "stock.json"]).exitCode = 1 := by decide +kernel
  have houtput : (respond stockroom ["solve", "stock.json"]).standardOutput ≠ "" := by
    decide +kernel
  have hzero : (respond stockroom ["-v", "check", "stock.json"]).exitCode = 0 := by decide +kernel
  obtain ⟨hreports, -⟩ := reports_respond stockroom hsolve
  obtain ⟨hreports', -⟩ := reports_respond stockroom hcheck
  obtain ⟨hreports'', -⟩ := reports_respond stockroom hdual
  have hmissing : ¬Answered (stockroom "order.json") .dual := by
    rintro ⟨p, d, ⟨bytes, text, hbytes, -⟩, -⟩
    cases hbytes
  refine ⟨hone, houtput, ?_, hzero, hreports'.exitCode_eq_zero_iff.mp hzero,
    hreports''.exitCode_eq_one fun h ↦ hmissing h.answered,
    (hreports''.of_not_answered hmissing).2⟩
  have hanswered :
      Answered (stockroom "stock.json") (.solve ⟨false, false, .pretty, none, none⟩) := by
    by_contra hnone
    exact houtput (hreports.of_not_answered hnone).1
  obtain ⟨p, s, hp, hs⟩ := hanswered
  refine ⟨p, s, hp, hs, fun hoptimal ↦ ?_⟩
  have hsucceeded := hreports.exitCode_eq_zero_iff.mpr ⟨p, s, hp, hs, hoptimal⟩
  exact absurd (hone.symm.trans hsucceeded) Nat.one_ne_zero

end CommandLine

/-! ## Duals as problems -/

section Dual

open CommandLine

theorem exitCode_respondCheck (file : String) (p : Problem Float) :
    (respondCheck file p).exitCode = 0 ↔ p.WellFormed := by
  rw [respondCheck, Problem.WellFormed]
  cases p.validate with
  | error fault => exact iff_of_false Nat.one_ne_zero fun h ↦ by cases h
  | ok => exact iff_of_true rfl rfl

/-- **The dual of a problem is a problem** exactly where there are constraints. Otherwise it has no
variables, and neither a check nor a solve takes it, whatever the settings. -/
theorem accepted_of_dual {p d : Problem Float} (h : p.dual = .ok d) :
    (d.validate = if p.numConstraints = 0 then .error .noVariables else .ok ())
    ∧ (∀ file, (respondCheck file d).exitCode = 0 ↔ p.numConstraints ≠ 0)
    ∧ ∀ s fault, solve s d = .error (.malformed fault)
        ↔ p.numConstraints = 0 ∧ fault = .noVariables := by
  have hvalid := Problem.validate_of_dual h
  refine ⟨hvalid, fun file ↦ ?_, fun s fault ↦ ?_⟩
  · rw [exitCode_respondCheck, Problem.WellFormed, hvalid]
    split_ifs with hzero <;> simp [hzero]
  · rw [solve_eq_malformed_iff, hvalid]
    split_ifs with hzero <;> simp [hzero, eq_comm]

theorem accepted_of_dual_workshop : ∃ d, workshop.dual = .ok d ∧ workshop.numConstraints = 3
    ∧ d.validate = .ok () ∧ (respondCheck "dual.json" d).exitCode = 0
    ∧ ∀ s fault, solve s d ≠ .error (.malformed fault) := by
  have hp : workshop.WellFormed := by rfl
  obtain ⟨d, hd, -⟩ := Problem.dual_dual hp nofun (by decide +kernel)
  obtain ⟨hvalid, hcheck, hsolve⟩ := accepted_of_dual hd
  refine ⟨d, hd, rfl, hvalid, (hcheck _).mpr nofun, fun s fault h ↦ ?_⟩
  exact absurd ((hsolve s fault).mp h).1 nofun

/-- A single product whose output nothing limits. -/
def boundless : Problem Float := .ofObjective .maximize [1]

/-- **A dual without variables.** Forming and printing it succeeds. Neither a check nor a solve
takes it, and a check of the file that was printed fails. -/
theorem refused_of_dual_boundless : boundless.WellFormed ∧ ∃ d, boundless.dual = .ok d
    ∧ d.validate = .error .noVariables ∧ solve .standard d = .error (.malformed .noVariables)
    ∧ (respondDual boundless).exitCode = 0
    ∧ (respondToBytes ⟨0, .check, "dual.json"⟩
        (.ok (Response.textOf (respondDual boundless).output).toUTF8)).exitCode = 1 :=
  ⟨by rfl, boundless.canonicalDual, by rfl, by rfl, by rfl, by rfl, by decide +kernel⟩

end Dual

end LinearProgramming
