import GameHop.Program.Task
import GameHop.Verifier.Cache
import GameHop.Verifier.Process

/-!
Runs of tasks by several workers. Tasks are handed out by priority and, among equal priorities, in
order.
-/

namespace GameHop.Schedule

/-- A task at a worker. -/
structure Job where
  worker : Nat
  task : Task
  /-- The digest of the program. -/
  key : String
  /-- How many more tasks wait for the verdict. -/
  sharers : Nat
  /-- What the report will say. -/
  result : Except CheckError Verdict

/-- Counts of finished tasks: by a verdict of their own, or by another one. -/
structure Summary where
  verified : Nat
  cached : Nat
deriving DecidableEq, Repr

/-- A run between two reports. -/
structure State where
  running : List Job
  /-- The digests of the programs accepted in this run. -/
  accepted : List String
  summary : Summary
  /-- The first failure. -/
  failure : Option CheckError
  cache : ProofCache
  files : FileTree
  /-- The programs given to the verifier, in order, with their workers. -/
  calls : List (Nat × String)

def State.start (cache : ProofCache) (files : FileTree) : State :=
  ⟨[], [], ⟨0, 0⟩, none, cache, files, []⟩

/-! ## Handing out -/

def freeWorker (running : List Job) : Nat :=
  ((List.range (running.length + 1)).find? fun w => !(running.map (·.worker)).contains w).getD 0

/-- Counts tasks that need no verdict of their own. -/
def State.share (s : State) (n : Nat) : State :=
  { s with summary := { s.summary with cached := s.summary.cached + n } }

/-- Gives a task to the first free worker. -/
def State.launch (verifier : Verifier) (s : State) (t : Task) : State :=
  let worker := freeWorker s.running
  let (result, files) := verifier worker t.program s.files
  { s with
    running := s.running ++ [⟨worker, t, digest t.program, 0, result⟩]
    files
    calls := s.calls ++ [(worker, t.program)] }

/-- Lets a task wait for the verdict on the same program. -/
def State.wait (s : State) (key : String) : State :=
  { s with running := s.running.map fun j =>
      if j.key == key then { j with sharers := j.sharers + 1 } else j }

/-- Takes a task on: its program is accepted already, or at a worker, or given to one. -/
def State.take (verifier : Verifier) (s : State) (t : Task) : State :=
  let key := digest t.program
  if s.accepted.contains key || s.cache.containsDigest key then s.share 1
  else if (s.running.map (·.key)).contains key then s.wait key
  else s.launch verifier t

/-- Hands tasks out as long as there is a free worker. Gives the tasks that are left. -/
def State.dispatch (verifier : Verifier) (workers : Nat) : List Task → State → List Task × State
  | [], s => ([], s)
  | t :: ts, s =>
    if s.running.length < workers then State.dispatch verifier workers ts (s.take verifier t)
    else (t :: ts, s)

/-! ## Reports -/

/-- Notes a failure, unless there was one before. -/
def State.fail (s : State) (e : CheckError) : State :=
  { s with failure := s.failure <|> some e }

/-- The program of a job is accepted. -/
def State.accept (s : State) (j : Job) : State :=
  let s := { s with
    summary := { s.summary with verified := s.summary.verified + 1 }
    accepted := s.accepted ++ [j.key] }
  let s := match s.cache.insert s.files j.task.program with
    | .ok (cache, files) => { s with cache, files }
    | .error f => s.fail (.file f)
  s.share j.sharers

/-- Takes note of what a job reports. -/
def State.finish (s : State) (j : Job) : State :=
  match j.result with
  | .ok v =>
    if v.verified then s.accept j
    else s.fail (j.task.rejection (Verifier.programFile j.worker))
  | .error e => s.fail e

/-- The running job at a position reports. -/
def State.report (s : State) (i : Nat) : State :=
  match s.running[i]? with
  | none => s
  | some j => { s with running := s.running.eraseIdx i }.finish j

/-! ## Runs -/

@[simp] theorem running_fail (s : State) (e : CheckError) : (s.fail e).running = s.running := rfl

@[simp] theorem running_share (s : State) (n : Nat) : (s.share n).running = s.running := rfl

@[simp] theorem running_accept (s : State) (j : Job) : (s.accept j).running = s.running := by
  simp only [State.accept, running_share]
  split <;> simp

@[simp] theorem running_finish (s : State) (j : Job) : (s.finish j).running = s.running := by
  unfold State.finish
  split
  · split <;> simp
  · simp

theorem running_report (s : State) (i : Nat) (h : i < s.running.length) :
    (s.report i).running = s.running.eraseIdx i := by
  simp [State.report, h]

theorem length_running_take (verifier : Verifier) (s : State) (t : Task) :
    (s.take verifier t).running.length ≤ s.running.length + 1 := by
  simp only [State.take]
  split
  · simp
  · split <;> simp [State.wait, State.launch]

theorem length_dispatch (verifier : Verifier) (workers : Nat) (ts : List Task) (s : State) :
    (State.dispatch verifier workers ts s).1.length +
      (State.dispatch verifier workers ts s).2.running.length ≤ ts.length + s.running.length := by
  induction ts generalizing s with
  | nil => simp [State.dispatch]
  | cons t ts ih =>
    unfold State.dispatch
    split
    · have := ih (s.take verifier t)
      have := length_running_take verifier s t
      simp only [List.length_cons]
      omega
    · simp

/-- Hands tasks out, unless there was a failure. -/
def State.advance (verifier : Verifier) (workers : Nat) (queue : List Task) (s : State) :
    List Task × State :=
  if s.failure.isNone then State.dispatch verifier workers queue s else (queue, s)

theorem length_advance (verifier : Verifier) (workers : Nat) (queue : List Task) (s : State) :
    (State.advance verifier workers queue s).1.length +
      (State.advance verifier workers queue s).2.running.length ≤
        queue.length + s.running.length := by
  unfold State.advance
  split
  · exact length_dispatch verifier workers queue s
  · simp

/-- Goes on until no task is running. `choose n` says which running task makes the report `n`. -/
def State.drain (verifier : Verifier) (workers : Nat) (choose : Nat → Nat) (n : Nat)
    (queue : List Task) (s : State) : State :=
  match _advanced : State.advance verifier workers queue s with
  | (queue', s') =>
    if _busy : s'.running.length = 0 then s'
    else
      State.drain verifier workers choose (n + 1) queue'
        (s'.report (choose n % s'.running.length))
termination_by queue.length + s.running.length
decreasing_by
  have h := length_advance verifier workers queue s
  have hi : choose n % s'.running.length < s'.running.length := Nat.mod_lt _ (by omega)
  simp only [_advanced] at h
  rw [running_report s' _ hi, List.length_eraseIdx_of_lt hi]
  omega

/-- The tasks in the order in which they are handed out. -/
def inOrder (tasks : List Task) : List Task :=
  tasks.mergeSort fun a b => a.priority ≤ b.priority

/-- Runs tasks with at least one worker, and gives the state in the end. -/
def run (verifier : Verifier) (workers : Nat) (choose : Nat → Nat) (tasks : List Task)
    (cache : ProofCache) (files : FileTree) : State :=
  State.drain verifier (max workers 1) choose 0 (inOrder tasks) (.start cache files)

/-- What a run comes to. -/
def State.result (s : State) : Except CheckError Summary :=
  match s.failure with
  | some e => .error e
  | none => .ok s.summary

end GameHop.Schedule
