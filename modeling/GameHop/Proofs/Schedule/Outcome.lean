import GameHop.Proofs.Schedule.Safety
import Mathlib

/-!
What a run comes to if the verifier has one verdict for each program. **The outcome does not depend on the
order of the reports**: it is given by the tasks, the cache and the verdicts.
-/

namespace GameHop.Schedule.Plan

variable {p : Plan} {log : Log} {queue : List Task} {s : State}

/-! ## Counts -/

/-- How many tasks get a verdict from a job. -/
def share (j : Job) : Nat :=
  j.sharers + 1

/-- The one running job with a key gets one task more to share its verdict with. -/
theorem sum_share_wait {running : List Job} {key : String} (hnodup : (running.map (·.key)).Nodup)
    (hkey : key ∈ running.map (·.key)) :
    ((running.map fun j => if j.key == key then { j with sharers := j.sharers + 1 } else j).map
      share).sum = (running.map share).sum + 1 := by
  induction running with
  | nil => cases hkey
  | cons j running ih =>
    rw [List.map_cons, List.nodup_cons] at hnodup
    by_cases hj : j.key = key
    · -- the others have other keys
      have hothers : (running.map fun j => if j.key == key then { j with sharers := j.sharers + 1 }
          else j) = running := by
        refine (List.map_congr_left fun k hk => if_neg ?_).trans (List.map_id _)
        rw [beq_iff_eq]
        exact fun hkey => hnodup.1 (hj.trans hkey.symm ▸ List.mem_map_of_mem hk)
      simp only [List.map_cons, hothers, hj, beq_self_eq_true, if_true, List.sum_cons, share]
      omega
    · have hkey : key ∈ running.map (·.key) := (List.mem_cons.1 hkey).resolve_left fun h => hj h.symm
      have ih := ih hnodup.2 hkey
      simp only [List.map_cons, hj, beq_iff_eq, if_false, List.sum_cons] at ih ⊢
      omega

/-- Without a failure, a task that was taken on is counted, or a job has its verdict. -/
theorem Reaches.taken_length (h : p.Reaches log queue s) (hok : s.failure = none) :
    log.taken.length = s.summary.verified + s.summary.cached + (s.running.map share).sum := by
  induction h with
  | start => rfl
  | @take log t queue s h _ _ ih =>
    rw [State.failure_take] at hok
    rw [Log.taken_take, List.length_append, ih hok, List.length_singleton]
    rcases s.take_cases p.verifier t with ⟨-, hs, -⟩ | ⟨-, hs, hkey⟩ | ⟨-, hs, -⟩ <;> rw [hs]
    · simp only [State.share]
      omega
    · have hsum := sum_share_wait h.safe.keys.2 hkey
      dsimp only [State.wait]
      omega
    · simp only [State.launch, List.map_append, List.sum_append, List.map_singleton,
        List.sum_singleton, share]
      omega
  | @report log queue s j h _ hj ih =>
    have hsum := ((running_perm hj).map share).sum_eq
    rw [List.map_cons, List.sum_cons] at hsum
    rw [Log.taken_report]
    rcases State.report_cases hj with ⟨_, _, -, -, -, hs⟩ | ⟨_, -, -, -, hs⟩ | ⟨_, -, -, hs⟩ <;>
      rw [hs] at hok hsum ⊢
    · rw [ih hok, hsum, share]
      dsimp only
      omega
    · cases hfailure : s.failure <;> simp [hfailure] at hok
    · cases hfailure : s.failure <;> simp [hfailure] at hok

theorem Reaches.verified_eq (h : p.Reaches log queue s) :
    s.summary.verified = s.accepted.length := by
  induction h with
  | start => rfl
  | @take log t queue s h _ _ ih =>
    rcases s.take_cases p.verifier t with ⟨-, hs, -⟩ | ⟨-, hs, -⟩ | ⟨-, hs, -⟩ <;> rw [hs] <;> exact ih
  | report h _ hj ih =>
    rcases State.report_cases hj with ⟨_, _, -, -, -, hs⟩ | ⟨_, -, -, -, hs⟩ | ⟨_, -, -, hs⟩ <;> rw [hs]
    · simp [ih]
    · simp [ih]
    · exact ih

/-! ## Programs -/

theorem mem_jobs {j : Job} {o : Option CheckError} (h : Event.reported j o ∈ log) : j ∈ log.jobs :=
  List.mem_filterMap.2 ⟨_, h, rfl⟩

theorem Reaches.mem_tasks (h : p.Reaches log queue s) {t : Task} (ht : t ∈ log.taken) :
    t ∈ p.tasks := by
  rw [← (inOrder_perm p.tasks).mem_iff, ← h.order]
  exact List.mem_append_left _ ht

theorem Reaches.mem_launched (h : p.Reaches log queue s) {j : Job} (hj : j ∈ log.jobs) :
    j.task ∈ log.launched :=
  h.launched_perm.mem_iff.2 (List.mem_map_of_mem (List.mem_append_left _ hj))

/-- What the cache holds, it goes on to hold. -/
theorem Reaches.containsDigest (h : p.Reaches log queue s) {d : String}
    (hd : p.cache.containsDigest d = true) : s.cache.containsDigest d = true := by
  simp only [ProofCache.containsDigest, Bool.and_eq_true, List.contains_eq_mem,
    decide_eq_true_eq] at hd ⊢
  rw [h.cache.1, h.cache.2]
  exact ⟨hd.1, .inl hd.2⟩

/-- The program of a task that was taken on was in the cache, or its digest was given to the verifier. -/
theorem Reaches.known (h : p.Reaches log queue s) :
    ∀ t ∈ log.taken, p.cache.contains t.program = true ∨
      digest t.program ∈ log.launched.map (digest ·.program) := by
  induction h with
  | start => simp [Log.taken]
  | @take log t queue s h _ _ ih =>
    have hsubset : log.launched ⊆ Log.launched (log ++ [.taken t (s.isNew t)]) := by
      cases s.isNew t <;> simp
    rw [Log.taken_take]
    refine List.forall_mem_append.2 ⟨fun t' ht' => (ih t' ht').imp id (List.map_subset _ hsubset ·), ?_⟩
    simp only [List.mem_singleton, forall_eq]
    rcases s.take_cases p.verifier t with ⟨-, -, hknown⟩ | ⟨-, -, hkey⟩ | ⟨hnew, -⟩
    · rcases hknown with haccepted | hcached
      · refine .inr (List.map_subset _ hsubset (h.keys_perm.mem_iff.2 ?_))
        rw [h.accepted_eq] at haccepted
        obtain ⟨j, hj, hkey⟩ := List.mem_map.1 haccepted
        exact List.mem_map.2 ⟨j, List.mem_append_left _ (List.mem_filter.1 hj).1, hkey⟩
      · simp only [ProofCache.containsDigest, Bool.and_eq_true, List.contains_eq_mem,
          decide_eq_true_eq, h.cache.1, h.cache.2] at hcached
        rcases hcached.2 with hold | ⟨-, j, hj, hkept⟩
        · left
          simp [ProofCache.contains, ProofCache.containsDigest, hcached.1, hold]
        · refine .inr (List.map_subset _ hsubset ?_)
          rw [hkept]
          exact List.mem_map_of_mem (h.mem_launched (mem_jobs hj))
    · refine .inr (List.map_subset _ hsubset (h.keys_perm.mem_iff.2 ?_))
      rw [List.map_append]
      exact List.mem_append_right _ hkey
    · right
      rw [hnew, Log.launched_launch]
      exact List.mem_map_of_mem (List.mem_append_right _ (.head _))
  | report h _ _ ih => simpa using ih

/-- No program that was in the cache is given to the verifier. -/
theorem Reaches.unknown (h : p.Reaches log queue s) :
    ∀ t ∈ log.launched, p.cache.contains t.program = false := by
  induction h with
  | start => simp [Log.launched]
  | @take log t queue s h _ _ ih =>
    rcases s.take_cases p.verifier t with ⟨hnew, -⟩ | ⟨hnew, -⟩ | ⟨hnew, -, -, hcached, -⟩ <;>
      rw [hnew]
    · simpa using ih
    · simpa using ih
    · rw [Log.launched_launch]
      refine List.forall_mem_append.2 ⟨ih, ?_⟩
      simp only [List.mem_singleton, forall_eq]
      cases hold : p.cache.contains t.program with
      | false => rfl
      | true => rw [h.containsDigest hold] at hcached; cases hcached
  | report h _ _ ih => simpa using ih

/-! ## Outcomes -/

/-- The programs that are not in the cache at the start, each once. -/
def fresh (p : Plan) : List String :=
  (p.tasks.map (·.program)).dedup.filter (!p.cache.contains ·)

theorem mem_fresh {program : String} :
    program ∈ p.fresh ↔ (∃ t ∈ p.tasks, t.program = program) ∧ p.cache.contains program = false := by
  simp [fresh]

/-- Whether an accepted program is always kept: no write of the cache fails. -/
def WritesSucceed (p : Plan) : Prop :=
  ∀ log queue s, p.Reaches log queue s → ∀ j o, Event.reported j o ∈ log →
    accepts j.result = true → o = none

/-- Whether different programs of the tasks have different digests. -/
def Distinguishes (p : Plan) : Prop :=
  ∀ t ∈ p.tasks, ∀ t' ∈ p.tasks, digest t.program = digest t'.program → t.program = t'.program

/-- In the end of a run without a failure, the verifier got each program once that was not in the cache. -/
theorem Reaches.launched_fresh (h : p.Reaches log [] s) (hdigest : p.Distinguishes) :
    (log.launched.map (·.program)).Perm p.fresh := by
  have hnodup : (log.launched.map (·.program)).Nodup := by
    have hdigests := h.nodup
    rw [show log.launched.map (digest ·.program) = (log.launched.map (·.program)).map digest by
      rw [List.map_map]; rfl] at hdigests
    exact hdigests.of_map
  have hfresh : p.fresh.Nodup := (List.nodup_dedup _).filter _
  refine (List.perm_ext_iff_of_nodup hnodup hfresh).2 fun program => ?_
  rw [List.mem_map, mem_fresh]
  constructor
  · rintro ⟨t, ht, rfl⟩
    exact ⟨⟨t, h.mem_tasks ((launched_sublist log).subset ht), rfl⟩, h.unknown t ht⟩
  · rintro ⟨⟨t, ht, rfl⟩, hfresh⟩
    have htaken : t ∈ log.taken := by
      rwa [← (inOrder_perm p.tasks).mem_iff, ← h.order, List.append_nil] at ht
    rcases h.known t htaken with hcached | hlaunched
    · rw [hfresh] at hcached
      cases hcached
    · obtain ⟨t', ht', hsame⟩ := List.mem_map.1 hlaunched
      exact ⟨t', ht', hdigest t' (h.mem_tasks ((launched_sublist log).subset ht')) t ht hsame⟩

/-- **The outcome of a run does not depend on the order of the reports.** If the verifier has a fixed
    verdict for each program, the run ends well exactly if it accepts every program that is not in the
    cache at the start. Each of these programs is then verified once, and every other task is counted as
    cached. -/
theorem run_outcome (verdict : String → Except CheckError Verdict)
    (hverifier : ∀ worker program files, (p.verifier worker program files).1 = verdict program)
    (hwrites : p.WritesSucceed) (hdigest : p.Distinguishes) :
    ((∃ summary, p.run.result = .ok summary) ↔ ∀ program ∈ p.fresh, accepts (verdict program) = true) ∧
      ∀ summary, p.run.result = .ok summary →
        summary.verified = p.fresh.length ∧ summary.verified + summary.cached = p.tasks.length ∧
        (p.run.calls.map (·.2)).Perm p.fresh := by
  obtain ⟨log, queue, h, hidle, hempty⟩ := Reaches.start (p := p) |>.ends
  rw [List.nil_append] at h
  have hresult : ∀ j ∈ log.jobs, j.result = verdict j.task.program := fun j hj => by
    obtain ⟨files, hj⟩ := (h.job j (List.mem_append_left _ hj)).2
    rw [hj, hverifier]
  have hok : ∀ summary, p.run.result = .ok summary ↔ p.run.failure = none ∧ p.run.summary = summary := by
    intro summary
    rw [State.result]
    cases p.run.failure <;> simp
  have hlaunched : log.launched.Perm (log.jobs.map (·.task)) := by
    simpa [hidle] using h.launched_perm
  constructor
  · constructor
    · rintro ⟨summary, hsummary⟩ program hprogram
      have hfailure := ((hok summary).1 hsummary).1
      obtain rfl := hempty hfailure
      rw [← (h.launched_fresh hdigest).mem_iff, ((hlaunched.map (·.program)).mem_iff)] at hprogram
      rw [List.map_map] at hprogram
      obtain ⟨j, hj, rfl⟩ := List.mem_map.1 hprogram
      rw [Function.comp_apply, ← hresult j hj]
      exact h.accepts_of_ok hfailure j hj
    · intro haccepts
      refine ⟨p.run.summary, (hok _).2 ⟨?_, rfl⟩⟩
      rw [h.failure_eq, Log.objection?, List.findSome?_eq_none_iff]
      intro e he
      cases e with
      | taken t b => rfl
      | reported j o =>
        -- the program was fresh, so that it is accepted and kept
        have hj := mem_jobs he
        have ht := h.mem_launched hj
        refine hwrites log queue p.run h j o he ?_
        rw [hresult j hj]
        exact haccepts _ (mem_fresh.2
          ⟨⟨j.task, h.mem_tasks ((launched_sublist log).subset ht), rfl⟩, h.unknown _ ht⟩)
  · intro summary hsummary
    obtain ⟨hfailure, rfl⟩ := (hok summary).1 hsummary
    obtain rfl := hempty hfailure
    have hfresh := h.launched_fresh hdigest
    refine ⟨?_, ?_, ?_⟩
    · rw [h.verified_eq, h.accepted_eq, List.filter_eq_self.2 (h.accepts_of_ok hfailure), List.length_map,
        ← hfresh.length_eq, List.length_map, hlaunched.length_eq, List.length_map]
    · have hcount := h.taken_length hfailure
      have horder := congrArg List.length h.order
      rw [List.append_nil, (inOrder_perm p.tasks).length_eq] at horder
      rw [hidle] at hcount
      simp only [List.map_nil, List.sum_nil] at hcount
      omega
    · rw [h.calls_eq]
      exact hfresh

/-- A disabled cache is not written. -/
theorem writesSucceed_of_disabled (hdisabled : p.cache.path = none) : p.WritesSucceed := by
  intro log queue s h
  induction h with
  | start => rintro j o ⟨⟩
  | take h _ _ ih => simpa using ih
  | report h _ hj ih =>
    intro k o hk haccepts
    rcases List.mem_append.1 hk with hk | hk
    · exact ih k o hk haccepts
    · obtain ⟨rfl, rfl⟩ := Event.reported.inj (List.mem_singleton.1 hk)
      rcases State.report_cases hj with ⟨_, _, -, -, ho, -⟩ | ⟨_, -, hinsert, -⟩ | ⟨_, hrejected, -⟩
      · exact ho
      · rw [ProofCache.insert, h.cache.1, hdisabled] at hinsert
        cases hinsert
      · rw [haccepts] at hrejected
        cases hrejected

/-- Three tasks with one program for two workers, and a verifier that accepts everything. -/
def sharing : Plan where
  verifier := fun _ _ files => (.ok ⟨true, ""⟩, files)
  workers := 2
  choose := fun _ => 0
  tasks := [⟨"x", "", "", 2, .detached ""⟩, ⟨"x", "", "", 1, .detached ""⟩,
    ⟨"x", "", "", 2, .detached ""⟩]
  cache := .disabled
  files := .empty ""

/-- The verifier is called once for three tasks with one program. -/
theorem run_outcome_sharing :
    sharing.WritesSucceed ∧ sharing.Distinguishes ∧ sharing.run.result = .ok ⟨1, 2⟩ ∧
      sharing.run.calls.map (·.2) = ["x"] := by
  have hwrites : sharing.WritesSucceed := writesSucceed_of_disabled rfl
  have hdigest : sharing.Distinguishes := by
    simp [Distinguishes, sharing]
  have hfresh : sharing.fresh = ["x"] := by
    simp [fresh, sharing, ProofCache.contains, ProofCache.containsDigest, ProofCache.disabled]
  obtain ⟨hiff, hsummary⟩ :=
    run_outcome (p := sharing) (fun _ => .ok ⟨true, ""⟩) (fun _ _ _ => rfl) hwrites hdigest
  obtain ⟨summary, hresult⟩ := hiff.2 fun _ _ => rfl
  obtain ⟨hverified, hcount, hcalls⟩ := hsummary summary hresult
  rw [hfresh] at hverified hcalls
  have hcached : summary = ⟨1, 2⟩ := by
    obtain ⟨verified, cached⟩ := summary
    obtain rfl : verified = 1 := hverified
    obtain rfl : cached = 2 := Nat.add_left_cancel hcount
    rfl
  exact ⟨hwrites, hdigest, by rw [hresult, hcached], List.perm_singleton.1 hcalls⟩

end GameHop.Schedule.Plan
