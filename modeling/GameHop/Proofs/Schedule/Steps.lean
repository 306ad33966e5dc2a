import GameHop.Verifier.Schedule
import Mathlib.Data.List.Nodup

/-!
Runs of tasks as steps. A step takes a task of the queue on, or takes note of a report; the steps
are logged.
-/

namespace GameHop

/-- What is kept after a program is. -/
theorem ProofCache.of_insert {c c' : ProofCache} {files files' : FileTree} {program : String}
    (h : c.insert files program = .ok (c', files')) :
    c'.path = c.path ∧
      ∀ d, d ∈ c'.digests ↔ d ∈ c.digests ∨ c.path.isSome ∧ d = digest program := by
  unfold insert at h
  split at h
  · rename_i hpath
    obtain ⟨rfl, -⟩ := Prod.mk.inj (Except.ok.inj h)
    simp [hpath]
  · rename_i path hpath
    dsimp only at h
    split at h
    · rename_i hkept
      obtain ⟨rfl, -⟩ := Prod.mk.inj (Except.ok.inj h)
      have hkept : digest program ∈ c.digests := by simpa using hkept
      refine ⟨rfl, fun d => ⟨.inl, ?_⟩⟩
      rintro (hd | ⟨-, rfl⟩)
      · exact hd
      · exact hkept
    · cases happend : files.append path (digest program ++ "\n") with
      | error f => rw [happend] at h; cases h
      | ok files₁ =>
        rw [happend] at h
        obtain ⟨rfl, -⟩ := Prod.mk.inj (Except.ok.inj h)
        simp [hpath]

namespace Schedule

/-! ## What a step does -/

/-- Whether the verifier says that a program is right. -/
def accepts : Except CheckError Verdict → Bool
  | .ok v => v.verified
  | .error _ => false

/-- Whether a task needs a verdict of its own. -/
def State.isNew (s : State) (t : Task) : Bool :=
  !(s.accepted.contains (digest t.program) || s.cache.containsDigest (digest t.program)) &&
    !(s.running.map (·.key)).contains (digest t.program)

/-- What is wrong with a report: the verdict, or that the program cannot be kept. -/
def State.objection (s : State) (j : Job) : Option CheckError :=
  match j.result with
  | .error e => some e
  | .ok v =>
    if v.verified then
      match s.cache.insert s.files j.task.program with
      | .ok _ => none
      | .error f => some (.file f)
    else some (j.task.rejection (Verifier.programFile j.worker))

/-- A task is known to be right, or waits for a verdict on its program, or is given to a worker. -/
theorem State.take_cases (verifier : Verifier) (s : State) (t : Task) :
    (s.isNew t = false ∧ s.take verifier t = s.share 1 ∧
      (digest t.program ∈ s.accepted ∨ s.cache.containsDigest (digest t.program) = true)) ∨
    (s.isNew t = false ∧ s.take verifier t = s.wait (digest t.program) ∧
      digest t.program ∈ s.running.map (·.key)) ∨
    (s.isNew t = true ∧ s.take verifier t = s.launch verifier t ∧
      digest t.program ∉ s.accepted ∧ s.cache.containsDigest (digest t.program) = false ∧
      digest t.program ∉ s.running.map (·.key)) := by
  have htake : s.take verifier t =
      if s.accepted.contains (digest t.program) || s.cache.containsDigest (digest t.program) then
        s.share 1
      else if (s.running.map (·.key)).contains (digest t.program) then s.wait (digest t.program)
      else s.launch verifier t := rfl
  rw [htake, isNew]
  cases hknown : s.accepted.contains (digest t.program) || s.cache.containsDigest (digest t.program) with
  | true => exact .inl ⟨rfl, rfl, by simpa using hknown⟩
  | false =>
    cases hrunning : (s.running.map (·.key)).contains (digest t.program) with
    | true => exact .inr (.inl ⟨rfl, rfl, by simpa using hrunning⟩)
    | false =>
      simp only [Bool.or_eq_false_iff, List.contains_eq_mem, decide_eq_false_iff_not] at hknown hrunning
      exact .inr (.inr ⟨rfl, rfl, hknown.1, hknown.2, hrunning⟩)

theorem State.failure_take (verifier : Verifier) (s : State) (t : Task) :
    (s.take verifier t).failure = s.failure := by
  rcases s.take_cases verifier t with ⟨-, h, -⟩ | ⟨-, h, -⟩ | ⟨-, h, -⟩ <;> rw [h] <;> rfl

/-- A program is accepted and kept, or accepted without being kept, or not accepted. -/
theorem State.finish_cases (s : State) (j : Job) :
    (∃ cache files, accepts j.result = true ∧
      s.cache.insert s.files j.task.program = .ok (cache, files) ∧ s.objection j = none ∧
      s.finish j = { s with
        summary := ⟨s.summary.verified + 1, s.summary.cached + j.sharers⟩
        accepted := s.accepted ++ [j.key]
        cache, files }) ∨
    (∃ f, accepts j.result = true ∧ s.cache.insert s.files j.task.program = .error f ∧
      s.objection j = some (.file f) ∧
      s.finish j = { s with
        summary := ⟨s.summary.verified + 1, s.summary.cached + j.sharers⟩
        accepted := s.accepted ++ [j.key]
        failure := s.failure <|> some (.file f) }) ∨
    (∃ e, accepts j.result = false ∧ s.objection j = some e ∧ s.finish j = s.fail e) := by
  unfold finish objection
  cases j.result with
  | error e => exact .inr (.inr ⟨e, rfl, rfl, rfl⟩)
  | ok v =>
    cases hv : v.verified with
    | false => exact .inr (.inr ⟨_, hv, if_neg (by simp [hv]), if_neg (by simp [hv])⟩)
    | true =>
      simp only [accept, accepts, hv, if_true]
      cases s.cache.insert s.files j.task.program with
      | ok r => exact .inl ⟨r.1, r.2, trivial, rfl, rfl, rfl⟩
      | error f => exact .inr (.inl ⟨f, trivial, rfl, rfl, rfl⟩)

/-! ## Logs -/

/-- What happens in a run. -/
inductive Event where
  /-- A task is taken on. It is launched if it needs a verdict of its own. -/
  | taken (t : Task) (launched : Bool)
  /-- A job reports, and its report may be objected to. -/
  | reported (j : Job) (objection : Option CheckError)

/-- What happened so far, in order. -/
abbrev Log := List Event

namespace Log

/-- The tasks that were taken on. -/
def taken (log : Log) : List Task :=
  log.filterMap fun
    | .taken t _ => some t
    | .reported _ _ => none

/-- The tasks that were given to the verifier. -/
def launched (log : Log) : List Task :=
  log.filterMap fun
    | .taken t true => some t
    | _ => none

/-- The jobs that have reported. -/
def jobs (log : Log) : List Job :=
  log.filterMap fun
    | .taken _ _ => none
    | .reported j _ => some j

/-- The first objection to a report. -/
def objection? (log : Log) : Option CheckError :=
  log.findSome? fun
    | .taken _ _ => none
    | .reported _ o => o

section
variable (log : Log) (t : Task) (j : Job) (o : Option CheckError)

@[simp] theorem taken_take (b : Bool) : taken (log ++ [.taken t b]) = taken log ++ [t] := by
  simp [taken]

@[simp] theorem taken_report : taken (log ++ [.reported j o]) = taken log := by
  simp [taken]

@[simp] theorem launched_share : launched (log ++ [.taken t false]) = launched log := by
  simp [launched]

@[simp] theorem launched_launch : launched (log ++ [.taken t true]) = launched log ++ [t] := by
  simp [launched]

@[simp] theorem launched_report : launched (log ++ [.reported j o]) = launched log := by
  simp [launched]

@[simp] theorem jobs_take (b : Bool) : jobs (log ++ [.taken t b]) = jobs log := by
  simp [jobs]

@[simp] theorem jobs_report : jobs (log ++ [.reported j o]) = jobs log ++ [j] := by
  simp [jobs]

@[simp] theorem objection_take (b : Bool) : objection? (log ++ [.taken t b]) = objection? log := by
  simp [objection?, List.findSome?_append]

@[simp] theorem objection_report :
    objection? (log ++ [.reported j o]) = (objection? log).or o := by
  simp [objection?, List.findSome?_append]

end

end Log

/-- All that a run depends on. `choose n` says which running task makes the report `n`. -/
structure Plan where
  verifier : Verifier
  workers : Nat
  choose : Nat → Nat
  tasks : List Task
  cache : ProofCache
  files : FileTree

namespace Plan

/-- The state in the end. -/
def run (p : Plan) : State :=
  Schedule.run p.verifier p.workers p.choose p.tasks p.cache p.files

/-- How many tasks may run at once. -/
def slots (p : Plan) : Nat :=
  max p.workers 1

/-- Which running job reports next. -/
def chosen (p : Plan) (log : Log) (s : State) : Nat :=
  p.choose log.jobs.length % s.running.length

/-- The run comes to a state, with a rest of the queue, after what is logged. -/
inductive Reaches (p : Plan) : Log → List Task → State → Prop
  | start : p.Reaches [] (inOrder p.tasks) (.start p.cache p.files)
  /-- Without a failure, the next task is taken on as long as a worker is free. -/
  | take {log : Log} {t : Task} {queue : List Task} {s : State}
      (h : p.Reaches log (t :: queue) s) (hfailure : s.failure = none)
      (hfree : s.running.length < p.slots) :
      p.Reaches (log ++ [.taken t (s.isNew t)]) queue (s.take p.verifier t)
  /-- When no task can be taken on, a job reports. -/
  | report {log : Log} {queue : List Task} {s : State} {j : Job} (h : p.Reaches log queue s)
      (hwaits : s.failure ≠ none ∨ queue = [] ∨ p.slots ≤ s.running.length)
      (hj : s.running[p.chosen log s]? = some j) :
      p.Reaches (log ++ [.reported j (s.objection j)]) queue (s.report (p.chosen log s))

/-! ## Steps and runs -/

section
variable {p : Plan} {log : Log} {queue : List Task} {s : State} {n : Nat}

/-- The end of the run from a state with a rest of the queue, if the next report has number `n`. -/
def rest (p : Plan) (n : Nat) (queue : List Task) (s : State) : State :=
  State.drain p.verifier p.slots p.choose n queue s

theorem rest_eq (p : Plan) (n : Nat) (queue : List Task) (s : State) :
    p.rest n queue s =
      if (State.advance p.verifier p.slots queue s).2.running.length = 0 then
        (State.advance p.verifier p.slots queue s).2
      else
        p.rest (n + 1) (State.advance p.verifier p.slots queue s).1
          ((State.advance p.verifier p.slots queue s).2.report
            (p.choose n % (State.advance p.verifier p.slots queue s).2.running.length)) := by
  unfold rest
  rw [State.drain]
  split
  rename_i hadvance
  rw [hadvance]
  simp only [dite_eq_ite]

theorem advance_take {t : Task} (hfailure : s.failure = none) (hfree : s.running.length < p.slots) :
    State.advance p.verifier p.slots (t :: queue) s =
      State.advance p.verifier p.slots queue (s.take p.verifier t) := by
  unfold State.advance
  rw [State.failure_take, hfailure, State.dispatch, if_pos hfree]
  rfl

/-- Nothing is taken on while the run waits. -/
theorem advance_waits (hwaits : s.failure ≠ none ∨ queue = [] ∨ p.slots ≤ s.running.length) :
    State.advance p.verifier p.slots queue s = (queue, s) := by
  unfold State.advance
  cases hfailure : s.failure with
  | some e => rfl
  | none =>
    rcases hwaits with h | rfl | h
    · exact absurd hfailure h
    · rfl
    · cases queue with
      | nil => rfl
      | cons t queue => simp [State.dispatch, Nat.not_lt.2 h]

/-- From a state that it comes to, a run goes on to its end. -/
theorem Reaches.rest_eq_run (h : p.Reaches log queue s) :
    p.rest log.jobs.length queue s = p.run := by
  induction h with
  | start => rfl
  | @take log t queue s h hfailure hfree ih =>
    rw [← ih, rest_eq, rest_eq p _ (t :: queue), advance_take hfailure hfree]
    simp
  | @report log queue s j h hwaits hj ih =>
    rw [← ih, rest_eq p _ queue s, advance_waits hwaits]
    have hbusy : s.running.length ≠ 0 := by
      rintro hzero
      rw [List.eq_nil_of_length_eq_zero hzero] at hj
      cases hj
    simp [chosen, hbusy]

/-- The state after tasks are taken on is one that the run comes to. -/
theorem Reaches.dispatch (h : p.Reaches log queue s) (hfailure : s.failure = none) :
    ∃ more, p.Reaches (log ++ more) (State.dispatch p.verifier p.slots queue s).1
        (State.dispatch p.verifier p.slots queue s).2 ∧
      (log ++ more).jobs = log.jobs ∧
      ((State.dispatch p.verifier p.slots queue s).1 = [] ∨
        p.slots ≤ (State.dispatch p.verifier p.slots queue s).2.running.length) := by
  induction queue generalizing log s with
  | nil => exact ⟨[], by simpa [State.dispatch] using h, by simp, .inl rfl⟩
  | cons t queue ih =>
    rw [State.dispatch]
    split
    · rename_i hfree
      obtain ⟨more, hmore, hjobs, hdone⟩ :=
        ih (h.take hfailure hfree) (by rw [State.failure_take, hfailure])
      rw [List.append_assoc, List.singleton_append] at hmore hjobs
      exact ⟨_, hmore, hjobs.trans (Log.jobs_take ..), hdone⟩
    · rename_i hfull
      exact ⟨[], by simpa using h, by simp, .inr (Nat.not_lt.1 hfull)⟩

theorem Reaches.advance (h : p.Reaches log queue s) :
    ∃ more, p.Reaches (log ++ more) (State.advance p.verifier p.slots queue s).1
        (State.advance p.verifier p.slots queue s).2 ∧
      (log ++ more).jobs = log.jobs ∧
      ((State.advance p.verifier p.slots queue s).2.failure ≠ none ∨
        (State.advance p.verifier p.slots queue s).1 = [] ∨
        p.slots ≤ (State.advance p.verifier p.slots queue s).2.running.length) := by
  unfold State.advance
  split
  · rename_i hfailure
    obtain ⟨more, hmore, hjobs, hdone⟩ := h.dispatch (by simpa using hfailure)
    exact ⟨more, hmore, hjobs, .inr hdone⟩
  · rename_i hfailure
    exact ⟨[], by simpa using h, by simp, .inl (by simpa using hfailure)⟩

/-- The end of the run is a state that the run comes to. No job is running there, and without a failure
    no task is left. -/
theorem Reaches.rest (h : p.Reaches log queue s) (hn : log.jobs.length = n) :
    ∃ more queue', p.Reaches (log ++ more) queue' (p.rest n queue s) ∧
      (p.rest n queue s).running = [] ∧ ((p.rest n queue s).failure = none → queue' = []) := by
  induction hm : queue.length + s.running.length using Nat.strongRecOn
    generalizing log queue s n with
  | ind m ih =>
    obtain ⟨more, hmore, hjobs, hdone⟩ := h.advance
    have hlength := length_advance p.verifier p.slots queue s
    rw [rest_eq]
    generalize State.advance p.verifier p.slots queue s = r at hmore hdone hlength ⊢
    obtain ⟨queue₁, s₁⟩ := r
    dsimp only at hmore hdone hlength ⊢
    have hn₁ : (log ++ more).jobs.length = n := by rw [hjobs, hn]
    split
    · rename_i hidle
      refine ⟨more, queue₁, hmore, List.eq_nil_of_length_eq_zero hidle, fun hok => ?_⟩
      rcases hdone with hfailed | hempty | hfull
      · exact absurd hok hfailed
      · exact hempty
      · have : 1 ≤ p.slots := Nat.le_max_right _ _
        omega
    · rename_i hbusy
      have hi : p.choose n % s₁.running.length < s₁.running.length := Nat.mod_lt _ (by omega)
      have hchosen : p.chosen (log ++ more) s₁ = p.choose n % s₁.running.length := by
        rw [chosen, hn₁]
      have hstep := hmore.report hdone (by rw [hchosen, List.getElem?_eq_getElem hi])
      rw [hchosen] at hstep
      have hless : queue₁.length + (s₁.report (p.choose n % s₁.running.length)).running.length < m := by
        rw [running_report s₁ _ hi, List.length_eraseIdx_of_lt hi]
        omega
      obtain ⟨more', queue', hend, hidle, hempty⟩ :=
        ih _ hless hstep (n := n + 1) (by rw [Log.jobs_report, List.length_append, hn₁]; rfl) rfl
      exact ⟨_, queue', by simpa using hend, hidle, hempty⟩

end

/-- **From every state that it comes to, the run goes on to its end.** There no job is running, and
    without a failure no task is left. -/
theorem Reaches.ends {p : Plan} {log : Log} {queue : List Task} {s : State}
    (h : p.Reaches log queue s) :
    ∃ more queue', p.Reaches (log ++ more) queue' p.run ∧ p.run.running = [] ∧
      (p.run.failure = none → queue' = []) := by
  have hend := h.rest rfl
  rwa [h.rest_eq_run] at hend

end Plan

end Schedule

end GameHop
