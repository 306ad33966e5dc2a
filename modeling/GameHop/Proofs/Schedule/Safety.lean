import GameHop.Proofs.Schedule.Steps
import Mathlib.Data.List.Perm.Subperm

/-!
What holds in every state of a run (`Plan.Safe`), whatever the verifier says and in whatever order the
jobs report.
-/

namespace GameHop.Schedule

/-! ## The order of tasks -/

theorem inOrder_perm (tasks : List Task) : (inOrder tasks).Perm tasks :=
  List.mergeSort_perm _ _

theorem inOrder_sorted (tasks : List Task) :
    (inOrder tasks).Pairwise fun a b => a.priority ≤ b.priority := by
  refine (List.pairwise_mergeSort (fun a b c hab hbc => ?_) (fun a b => ?_) tasks).imp
    fun h => of_decide_eq_true h
  · simp only [decide_eq_true_eq] at *
    omega
  · simp only [Bool.or_eq_true, decide_eq_true_eq]
    omega

/-- Tasks of the same priority stay in order. -/
theorem inOrder_stable (tasks : List Task) (n : Nat) :
    (inOrder tasks).filter (·.priority == n) = tasks.filter (·.priority == n) := by
  have hsublist : (tasks.filter (·.priority == n)).Sublist (inOrder tasks) := by
    refine List.sublist_mergeSort (fun a b c hab hbc => ?_) (fun a b => ?_) ?_ List.filter_sublist
    · simp only [decide_eq_true_eq] at *
      omega
    · simp only [Bool.or_eq_true, decide_eq_true_eq]
      omega
    · refine List.pairwise_of_forall_mem_list fun a ha b hb => ?_
      have ha : a.priority = n := by simpa using (List.mem_filter.1 ha).2
      have hb : b.priority = n := by simpa using (List.mem_filter.1 hb).2
      simp [ha, hb]
  have hfilter := hsublist.filter (·.priority == n)
  rw [List.filter_filter] at hfilter
  simp only [Bool.and_self] at hfilter
  exact (hfilter.eq_of_length ((inOrder_perm tasks).filter _).length_eq.symm).symm

/-! ## Workers -/

/-- The first free worker is free, and its number is at most that of the running jobs. -/
theorem freeWorker_spec (running : List Job) :
    freeWorker running ∉ running.map (·.worker) ∧ freeWorker running ≤ running.length := by
  unfold freeWorker
  cases hfind : (List.range (running.length + 1)).find?
      fun w => !(running.map (·.worker)).contains w with
  | some w =>
    have hfree := List.find?_some hfind
    have hw := List.mem_range.1 (List.mem_of_find?_eq_some hfind)
    exact ⟨by simpa using hfree, Nat.lt_succ_iff.1 hw⟩
  | none =>
    -- more numbers than running jobs cannot all be taken
    have hsubset : List.range (running.length + 1) ⊆ running.map (·.worker) := fun w hw => by
      simpa using List.find?_eq_none.1 hfind w hw
    have hlength := (List.subperm_of_subset List.nodup_range hsubset).length_le
    simp only [List.length_range, List.length_map] at hlength
    omega

/-! ## Waiting and reports -/

/-- A task that waits changes nothing but the number of sharers. -/
theorem map_running_wait {β : Type} {f : Job → β} (hf : ∀ j n, f { j with sharers := n } = f j)
    (s : State) (key : String) : (s.wait key).running.map f = s.running.map f := by
  rw [State.wait, List.map_map]
  refine List.map_congr_left fun j _ => ?_
  rw [Function.comp_apply]
  split
  · exact hf j _
  · rfl

/-- What a report does to the state: the job leaves, and what it says is noted. -/
theorem State.report_cases {s : State} {i : Nat} {j : Job} (hj : s.running[i]? = some j) :
    (∃ cache files, accepts j.result = true ∧
      s.cache.insert s.files j.task.program = .ok (cache, files) ∧ s.objection j = none ∧
      s.report i = { s with
        running := s.running.eraseIdx i
        summary := ⟨s.summary.verified + 1, s.summary.cached + j.sharers⟩
        accepted := s.accepted ++ [j.key]
        cache, files }) ∨
    (∃ f, accepts j.result = true ∧ s.cache.insert s.files j.task.program = .error f ∧
      s.objection j = some (.file f) ∧
      s.report i = { s with
        running := s.running.eraseIdx i
        summary := ⟨s.summary.verified + 1, s.summary.cached + j.sharers⟩
        accepted := s.accepted ++ [j.key]
        failure := s.failure <|> some (.file f) }) ∨
    (∃ e, accepts j.result = false ∧ s.objection j = some e ∧
      s.report i = { s with
        running := s.running.eraseIdx i
        failure := s.failure <|> some e }) := by
  rw [report, hj]
  exact finish_cases { s with running := s.running.eraseIdx i } j

/-- The running jobs are those that go on and the one that reports. -/
theorem running_perm {s : State} {i : Nat} {j : Job} (hj : s.running[i]? = some j) :
    s.running.Perm (j :: (s.report i).running) := by
  obtain ⟨hi, rfl⟩ := List.getElem?_eq_some_iff.1 hj
  rw [running_report s i hi]
  exact (List.getElem_cons_eraseIdx_perm hi).symm

namespace Plan

variable {p : Plan} {log : Log} {queue : List Task} {s : State}

/-! ## Order -/

theorem Reaches.order (h : p.Reaches log queue s) : log.taken ++ queue = inOrder p.tasks := by
  induction h with
  | start => rfl
  | take h _ _ ih => simpa using ih
  | report h _ _ ih => simpa using ih

theorem launched_sublist (log : Log) : log.launched.Sublist log.taken := by
  induction log with
  | nil => exact .slnil
  | cons e log ih =>
    cases e with
    | taken t b =>
      cases b with
      | false => exact ih.cons t
      | true => exact ih.cons_cons t
    | reported j o => exact ih

/-! ## Failures -/

theorem Reaches.failure_eq (h : p.Reaches log queue s) : s.failure = log.objection? := by
  induction h with
  | start => rfl
  | take h _ _ ih => rw [State.failure_take, ih, Log.objection_take]
  | @report log queue s j h _ hj ih =>
    rw [Log.objection_report, ← ih]
    rcases State.report_cases hj with ⟨_, _, -, -, ho, hs⟩ | ⟨_, -, -, ho, hs⟩ | ⟨_, -, ho, hs⟩ <;>
      rw [hs, ho] <;> cases s.failure <;> rfl

/-- After an objection no task is taken on. -/
theorem Reaches.stopped (h : p.Reaches log queue s) (before after : Log)
    (hlog : log = before ++ after) (hfailed : before.objection? ≠ none) : after.taken = [] := by
  induction h generalizing after with
  | start =>
    obtain ⟨rfl, rfl⟩ := List.append_eq_nil_iff.1 hlog.symm
    rfl
  | @take log t queue s h hfailure _ ih =>
    rcases List.eq_nil_or_concat after with rfl | ⟨after, e, rfl⟩
    · rfl
    · -- the task would have been taken on in a state with a failure
      rw [List.concat_eq_append, ← List.append_assoc] at hlog
      obtain ⟨rfl, -⟩ := List.append_inj' hlog rfl
      rw [h.failure_eq, Log.objection?, List.findSome?_append, Option.or_eq_none_iff] at hfailure
      exact absurd hfailure.1 hfailed
  | @report log queue s j h _ _ ih =>
    rcases List.eq_nil_or_concat after with rfl | ⟨after, e, rfl⟩
    · rfl
    · rw [List.concat_eq_append, ← List.append_assoc] at hlog
      obtain ⟨rfl, he⟩ := List.append_inj' hlog rfl
      obtain rfl := List.singleton_inj.1 he
      rw [List.concat_eq_append, Log.taken_report]
      exact ih after rfl

/-- Without an objection, every report is an acceptance. -/
theorem Reaches.accepts_of_ok (h : p.Reaches log queue s) (hok : s.failure = none) :
    ∀ j ∈ log.jobs, accepts j.result = true := by
  induction h with
  | start => simp [Log.jobs]
  | take h _ _ ih =>
    rw [State.failure_take] at hok
    simpa using ih hok
  | @report log queue s j h _ hj ih =>
    rcases State.report_cases hj with ⟨_, _, hj, -, -, hs⟩ | ⟨_, -, -, -, hs⟩ | ⟨_, -, -, hs⟩
    · rw [hs] at hok
      rw [Log.jobs_report]
      exact List.forall_mem_append.2 ⟨ih hok, by simpa using hj⟩
    · rw [hs] at hok
      cases hfailure : s.failure <;> simp [hfailure] at hok
    · rw [hs] at hok
      cases hfailure : s.failure <;> simp [hfailure] at hok

/-! ## Jobs -/

/-- Jobs carry the digests of their programs, and what the verifier says about them. -/
theorem Reaches.job (h : p.Reaches log queue s) :
    ∀ j ∈ log.jobs ++ s.running, j.key = digest j.task.program ∧
      ∃ files, j.result = (p.verifier j.worker j.task.program files).1 := by
  induction h with
  | start => simp [Log.jobs, State.start]
  | @take log t queue s h _ _ ih =>
    rw [Log.jobs_take]
    simp only [List.forall_mem_append] at ih ⊢
    refine ⟨ih.1, ?_⟩
    rcases s.take_cases p.verifier t with ⟨-, hs, -⟩ | ⟨-, hs, -⟩ | ⟨-, hs, -⟩ <;> rw [hs]
    · exact ih.2
    · intro j hj
      obtain ⟨k, hk, rfl⟩ := List.mem_map.1 hj
      split
      · exact ih.2 k hk
      · exact ih.2 k hk
    · refine List.forall_mem_append.2 ⟨ih.2, ?_⟩
      simp only [List.mem_singleton, forall_eq, true_and]
      exact ⟨s.files, rfl⟩
  | report h _ hj ih =>
    intro k hk
    refine ih k ?_
    rw [List.mem_append, (running_perm hj).mem_iff]
    simpa [or_assoc] using hk

/-- The tasks that were given to the verifier are those of the jobs that have reported or are running. -/
theorem Reaches.launched_perm (h : p.Reaches log queue s) :
    log.launched.Perm ((log.jobs ++ s.running).map (·.task)) := by
  induction h with
  | start => exact .refl _
  | @take log t queue s h _ _ ih =>
    rcases s.take_cases p.verifier t with ⟨hnew, hs, -⟩ | ⟨hnew, hs, -⟩ | ⟨hnew, hs, -⟩ <;>
      rw [hs, hnew]
    · simpa using ih
    · simpa [map_running_wait] using ih
    · simpa [State.launch] using ih.append_right [t]
  | report h _ hj ih =>
    rw [Log.launched_report, Log.jobs_report, List.append_assoc]
    exact ih.trans (((running_perm hj).append_left _).map _)

/-- The programs that the verifier got are those of the launched tasks. -/
theorem Reaches.calls_eq (h : p.Reaches log queue s) :
    s.calls.map (·.2) = log.launched.map (·.program) := by
  induction h with
  | start => rfl
  | @take log t queue s h _ _ ih =>
    rcases s.take_cases p.verifier t with ⟨hnew, hs, -⟩ | ⟨hnew, hs, -⟩ | ⟨hnew, hs, -⟩ <;>
      rw [hs, hnew]
    · simpa [State.share] using ih
    · simpa [State.wait] using ih
    · simpa [State.launch] using ih
  | report h _ hj ih =>
    rcases State.report_cases hj with ⟨_, _, -, -, -, hs⟩ | ⟨_, -, -, -, hs⟩ | ⟨_, -, -, hs⟩ <;>
      rw [hs] <;> simpa using ih

/-- The accepted digests are the keys of the jobs whose reports accept. -/
theorem Reaches.accepted_eq (h : p.Reaches log queue s) :
    s.accepted = (log.jobs.filter (accepts ·.result)).map (·.key) := by
  induction h with
  | start => rfl
  | @take log t queue s h _ _ ih =>
    rw [Log.jobs_take]
    rcases s.take_cases p.verifier t with ⟨-, hs, -⟩ | ⟨-, hs, -⟩ | ⟨-, hs, -⟩ <;> rw [hs] <;> exact ih
  | report h _ hj ih =>
    rcases State.report_cases hj with ⟨_, _, hj, -, -, hs⟩ | ⟨_, hj, -, -, hs⟩ | ⟨_, hj, -, hs⟩ <;>
      rw [hs] <;> simp [hj, ih]

/-- The digests of the jobs are those of the launched tasks. -/
theorem Reaches.keys_perm (h : p.Reaches log queue s) :
    (log.launched.map (digest ·.program)).Perm ((log.jobs ++ s.running).map (·.key)) := by
  have hkeys : (log.jobs ++ s.running).map (·.key) =
      ((log.jobs ++ s.running).map (·.task)).map (digest ·.program) := by
    rw [List.map_map]
    exact List.map_congr_left fun j hj => (h.job j hj).1
  rw [hkeys]
  exact h.launched_perm.map _

/-- **No digest is given to the verifier twice.** A launched task has a digest that is neither running nor
    accepted, and without a failure all jobs that have reported are accepted. -/
theorem Reaches.nodup (h : p.Reaches log queue s) :
    (log.launched.map (digest ·.program)).Nodup := by
  induction h with
  | start => exact List.nodup_nil
  | @take log t queue s h hfailure _ ih =>
    rcases s.take_cases p.verifier t with ⟨hnew, -⟩ | ⟨hnew, -⟩ | ⟨hnew, -, haccepted, -, hrunning⟩ <;>
      rw [hnew]
    · simpa using ih
    · simpa using ih
    · have hjobs : s.accepted = log.jobs.map (·.key) := by
        rw [h.accepted_eq, List.filter_eq_self.2 (h.accepts_of_ok hfailure)]
      have hfresh : digest t.program ∉ log.launched.map (digest ·.program) := by
        rw [h.keys_perm.mem_iff, List.map_append, List.mem_append, ← hjobs]
        exact fun hold => hold.elim haccepted hrunning
      rw [Log.launched_launch, List.map_append, List.nodup_append_comm]
      exact List.nodup_cons.2 ⟨hfresh, ih⟩
  | report h _ _ ih => simpa using ih

/-! ## Workers and the cache -/

theorem Reaches.bounded (h : p.Reaches log queue s) : s.running.length ≤ p.slots := by
  induction h with
  | start => exact Nat.zero_le _
  | @take log t queue s h _ hfree ih =>
    have := length_running_take p.verifier s t
    omega
  | report h _ hj ih =>
    have := (running_perm hj).length_eq
    rw [List.length_cons] at this
    omega

/-- Each running job has a worker of its own. -/
theorem Reaches.workers (h : p.Reaches log queue s) :
    (s.running.map (·.worker)).Nodup ∧ ∀ w ∈ s.running.map (·.worker), w < p.slots := by
  induction h with
  | start => exact ⟨List.nodup_nil, by simp [State.start]⟩
  | @take log t queue s h _ hfree ih =>
    rcases s.take_cases p.verifier t with ⟨-, hs, -⟩ | ⟨-, hs, -⟩ | ⟨-, hs, -⟩ <;> rw [hs]
    · exact ih
    · rwa [map_running_wait fun _ _ => rfl]
    · obtain ⟨hfresh, hle⟩ := freeWorker_spec s.running
      have hlaunch : (s.launch p.verifier t).running.map (·.worker) =
          s.running.map (·.worker) ++ [freeWorker s.running] := by simp [State.launch]
      rw [hlaunch, List.nodup_append_comm]
      refine ⟨List.nodup_cons.2 ⟨hfresh, ih.1⟩, List.forall_mem_append.2 ⟨ih.2, ?_⟩⟩
      simp only [List.mem_singleton, forall_eq]
      omega
  | report h _ hj ih =>
    have hperm := (running_perm hj).map (·.worker)
    refine ⟨(List.nodup_cons.1 (hperm.nodup_iff.1 ih.1)).2, fun w hw => ?_⟩
    exact ih.2 w (hperm.mem_iff.2 (.tail _ hw))

/-- The cache keeps its place, and holds the accepted programs that could be written. -/
theorem Reaches.cache (h : p.Reaches log queue s) :
    s.cache.path = p.cache.path ∧ ∀ d, d ∈ s.cache.digests ↔
      d ∈ p.cache.digests ∨ p.cache.path.isSome ∧
        ∃ j, Event.reported j none ∈ log ∧ d = digest j.task.program := by
  induction h with
  | start => simp [State.start]
  | @take log t queue s h _ _ ih =>
    have hcache : (s.take p.verifier t).cache = s.cache := by
      rcases s.take_cases p.verifier t with ⟨-, hs, -⟩ | ⟨-, hs, -⟩ | ⟨-, hs, -⟩ <;> rw [hs] <;> rfl
    simpa [hcache] using ih
  | report h _ hj ih =>
    rcases State.report_cases hj with ⟨_, _, -, hinsert, ho, hs⟩ | ⟨_, -, -, ho, hs⟩ | ⟨_, -, ho, hs⟩ <;>
      rw [hs, ho]
    · obtain ⟨hpath, hdigests⟩ := ProofCache.of_insert hinsert
      refine ⟨hpath.trans ih.1, fun d => ?_⟩
      rw [hdigests, ih.1, ih.2]
      constructor
      · rintro ((hd | ⟨hp, k, hk, hd⟩) | ⟨hp, hd⟩)
        · exact .inl hd
        · exact .inr ⟨hp, k, List.mem_append_left _ hk, hd⟩
        · exact .inr ⟨hp, _, List.mem_append_right _ (.head _), hd⟩
      · rintro (hd | ⟨hp, k, hk, hd⟩)
        · exact .inl (.inl hd)
        · rcases List.mem_append.1 hk with hk | hk
          · exact .inl (.inr ⟨hp, k, hk, hd⟩)
          · obtain ⟨rfl, -⟩ := Event.reported.inj (List.mem_singleton.1 hk)
            exact .inr ⟨hp, hd⟩
    · simpa using ih
    · simpa using ih

/-! ## Safety -/

/-- What holds in a state of a run, with a rest of the queue, after what is logged. -/
structure Safe (p : Plan) (log : Log) (queue : List Task) (s : State) : Prop where
  /-- No more verifiers are running than there are slots, each in a slot of its own. -/
  bounded : s.running.length ≤ p.slots ∧ (s.running.map (·.worker)).Nodup ∧
    ∀ j ∈ s.running, j.worker < p.slots
  /-- The keys in flight are the digests of the running programs, each once. -/
  keys : s.running.map (·.key) = s.running.map (digest ·.task.program) ∧
    (s.running.map (·.key)).Nodup
  /-- No digest is given to the verifier twice. -/
  once : (s.calls.map (digest ·.2)).Nodup
  /-- What is given to the verifier is running or has reported, and the reports are its answers. -/
  answered : s.calls.map (·.2) = log.launched.map (·.program) ∧
    log.launched.Perm ((log.jobs ++ s.running).map (·.task)) ∧
    ∀ j ∈ log.jobs ++ s.running, ∃ files, j.result = (p.verifier j.worker j.task.program files).1
  /-- Tasks are handed out by priority and, among equal priorities, in the order given. -/
  ordered : log.taken.Pairwise (fun a b => a.priority ≤ b.priority) ∧
    (∀ n, log.taken.filter (·.priority == n) <+: p.tasks.filter (·.priority == n)) ∧
    log.launched.Sublist log.taken ∧ (log.taken ++ queue).Perm p.tasks
  /-- After a failure no task is handed out. -/
  stopped : ∀ before after, log = before ++ after → before.objection? ≠ none → after.taken = []
  /-- The failure is the first objection to a report. -/
  failure : s.failure = log.objection?
  /-- The cache holds what it held, and the programs that were accepted and written. -/
  cached : s.cache.path = p.cache.path ∧ ∀ d, d ∈ s.cache.digests ↔
    d ∈ p.cache.digests ∨ p.cache.path.isSome ∧
      ∃ j, Event.reported j none ∈ log ∧ d = digest j.task.program

theorem Reaches.safe (h : p.Reaches log queue s) : p.Safe log queue s where
  bounded := ⟨h.bounded, h.workers.1, List.forall_mem_map.1 h.workers.2⟩
  keys := by
    have hnodup := h.keys_perm.nodup_iff.1 h.nodup
    rw [List.map_append] at hnodup
    exact ⟨List.map_congr_left fun j hj => (h.job j (List.mem_append_right _ hj)).1,
      (List.nodup_append.1 hnodup).2.1⟩
  once := by
    have hdigests : s.calls.map (digest ·.2) = (s.calls.map (·.2)).map digest := by rw [List.map_map]; rfl
    rw [hdigests, h.calls_eq, List.map_map]
    exact h.nodup
  answered := ⟨h.calls_eq, h.launched_perm, fun j hj => (h.job j hj).2⟩
  ordered := by
    have hsorted := inOrder_sorted p.tasks
    rw [← h.order] at hsorted
    refine ⟨(List.pairwise_append.1 hsorted).1, fun n => ?_, launched_sublist log, ?_⟩
    · rw [← inOrder_stable p.tasks, ← h.order]
      exact (List.prefix_append _ _).filter _
    · rw [h.order]
      exact inOrder_perm p.tasks
  stopped := h.stopped
  failure := h.failure_eq
  cached := h.cache

/-- **Every state of a run is safe**, and the run goes on from it to an end where no job is running. The
    result there is the first objection to a report, if there is any. -/
theorem run_safe (h : p.Reaches log queue s) :
    p.Safe log queue s ∧
      ∃ more queue', p.Reaches (log ++ more) queue' p.run ∧ p.Safe (log ++ more) queue' p.run ∧
        p.run.running = [] ∧ (p.run.failure = none → queue' = []) ∧
        p.run.result = (log ++ more).objection?.elim (.ok p.run.summary) .error := by
  obtain ⟨more, queue', hend, hidle, hempty⟩ := h.ends
  refine ⟨h.safe, more, queue', hend, hend.safe, hidle, hempty, ?_⟩
  rw [← hend.failure_eq, State.result]
  cases p.run.failure <;> rfl

/-- Two tasks for one worker, and a verifier that rejects everything. -/
def rejecting : Plan where
  verifier := fun _ _ files => (.ok ⟨false, ""⟩, files)
  workers := 1
  choose := fun _ => 0
  tasks := [⟨"a", "", "", 1, .detached ""⟩, ⟨"b", "", "", 2, .detached ""⟩]
  cache := .disabled
  files := .empty ""

/-- After the first task is rejected, the second one waits for ever. -/
theorem run_safe_rejecting :
    ∃ log t s, rejecting.Reaches log [t] s ∧ s.failure ≠ none ∧ rejecting.Safe log [t] s ∧
      ∃ more queue', rejecting.Reaches (log ++ more) queue' rejecting.run ∧ more.taken = [] ∧
        rejecting.run.result.toOption = none := by
  have hstart : rejecting.Reaches [] rejecting.tasks (.start rejecting.cache rejecting.files) := by
    have horder : inOrder rejecting.tasks = rejecting.tasks := by
      exact List.mergeSort_of_pairwise (by decide)
    have hstart := Reaches.start (p := rejecting)
    rwa [horder] at hstart
  have hreport := (hstart.take rfl (by decide)).report (.inr (.inr (by decide))) rfl
  obtain ⟨hsafe, more, queue', hend, hend_safe, -, -, hresult⟩ := run_safe hreport
  refine ⟨_, _, _, hreport, ?_, hsafe, more, queue', hend, ?_, ?_⟩
  · rintro ⟨⟩
  · exact hend_safe.stopped _ _ rfl (by rintro ⟨⟩)
  · rw [hresult]
    rfl

end Plan

end GameHop.Schedule
