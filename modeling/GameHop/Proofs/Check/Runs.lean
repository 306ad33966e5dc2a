import GameHop.Check.Proof

/-!
Runs of a check that end well, read backwards: what a step returned and what it did to the state.
-/

namespace GameHop

variable {α β γ : Type}

theorem Obligations.eq_of_goal {o : Obligations} {g : Goal} (h : o.goal = .ok g) :
    ∃ rest, o.stack = .goal g :: rest := by
  obtain ⟨stack⟩ := o
  cases stack with
  | nil => cases h
  | cons x rest =>
    cases x with
    | builder f => cases h
    | goal g' => exact ⟨rest, by rw [Except.ok.inj h]⟩

theorem Obligations.eq_of_builder {o : Obligations} {f : Fact} (h : o.builder = .ok f) :
    ∃ rest, o.stack = .builder f :: rest := by
  obtain ⟨stack⟩ := o
  cases stack with
  | nil => cases h
  | cons x rest =>
    cases x with
    | goal g => cases h
    | builder f' => exact ⟨rest, by rw [Except.ok.inj h]⟩

theorem except_bind_eq_ok {ε : Type} {x : Except ε β} {f : β → Except ε γ} {d : γ}
    (h : x >>= f = .ok d) : ∃ b, x = .ok b ∧ f b = .ok d := by
  cases x with
  | error e => cases h
  | ok b => exact ⟨b, rfl, h⟩

/-- The rest of a run starts where the first part ended well. -/
theorem run_bind {ε σ : Type} {x : ExceptT ε (StateM σ) β} {f : β → ExceptT ε (StateM σ) γ} {s : σ} :
    (x >>= f).run.run s = match x.run.run s with
    | (.ok b, s₁) => (f b).run.run s₁
    | (.error e, s₁) => (.error e, s₁) := by
  rw [ExceptT.run_bind, StateT.run_bind]
  obtain ⟨r, s₁⟩ := x.run.run s
  cases r <;> rfl

theorem ok_of_run_bind {ε σ : Type} {x : ExceptT ε (StateM σ) β} {f : β → ExceptT ε (StateM σ) γ}
    {s s' : σ} {d : γ} (h : (x >>= f).run.run s = (.ok d, s')) :
    ∃ b s₁, x.run.run s = (.ok b, s₁) ∧ (f b).run.run s₁ = (.ok d, s') := by
  rw [run_bind] at h
  cases hx : x.run.run s with
  | mk r s₁ =>
    rw [hx] at h
    cases r with
    | error e => cases h
    | ok b => exact ⟨b, s₁, rfl, h⟩

/-! ## Triples -/

section
variable {ε σ : Type} {P P' : σ → Prop} {Q Q' : β → σ → Prop} {R : γ → σ → Prop} {E E' : ε → σ → Prop}
  {x : ExceptT ε (StateM σ) β}

/-- Whether a run from a state in `P` ends with a result and a state in `Q`, or fails with an error and a
    state in `E`. -/
def Leads (P : σ → Prop) (x : ExceptT ε (StateM σ) β) (Q : β → σ → Prop) (E : ε → σ → Prop) : Prop :=
  ∀ s, P s → match x.run.run s with
    | (.ok b, s') => Q b s'
    | (.error e, s') => E e s'

theorem Leads.ok (h : Leads P x Q E) {s s' : σ} {b : β} (hs : P s) (hx : x.run.run s = (.ok b, s')) :
    Q b s' := by
  have hrun := h s hs
  rwa [hx] at hrun

theorem Leads.error (h : Leads P x Q E) {s s' : σ} {e : ε} (hs : P s)
    (hx : x.run.run s = (.error e, s')) : E e s' := by
  have hrun := h s hs
  rwa [hx] at hrun

theorem leads_iff : Leads P x Q E ↔ ∀ s s', P s → (∀ b, x.run.run s = (.ok b, s') → Q b s') ∧
    ∀ e, x.run.run s = (.error e, s') → E e s' := by
  refine ⟨fun h s s' hs => ⟨fun b => h.ok hs, fun e => h.error hs⟩, fun h s hs => ?_⟩
  obtain ⟨hok, herror⟩ := h s (x.run.run s).2 hs
  cases hx : x.run.run s with
  | mk r s' =>
    rw [hx] at hok herror
    cases r with
    | ok b => exact hok b rfl
    | error e => exact herror e rfl

theorem Leads.mono (h : Leads P x Q E) (hP : ∀ s, P' s → P s) (hQ : ∀ b s, Q b s → Q' b s)
    (hE : ∀ e s, E e s → E' e s) : Leads P' x Q' E' :=
  leads_iff.2 fun _ _ hs => ⟨fun _ hx => hQ _ _ (h.ok (hP _ hs) hx), fun _ hx =>
    hE _ _ (h.error (hP _ hs) hx)⟩

theorem Leads.bind {f : β → ExceptT ε (StateM σ) γ} (hx : Leads P x Q E)
    (hf : ∀ b, Leads (Q b) (f b) R E) : Leads P (x >>= f) R E := by
  intro s hs
  rw [run_bind]
  cases hrun : x.run.run s with
  | mk r s₁ =>
    cases r with
    | ok b => exact hf b s₁ (hx.ok hs hrun)
    | error e => exact hx.error hs hrun

theorem leads_get : Leads P (get : ExceptT ε (StateM σ) σ) (fun _ => P) E := fun _ hs => hs

theorem Leads.forM {bs : List γ} {f : γ → ExceptT ε (StateM σ) Unit}
    (h : ∀ b ∈ bs, Leads P (f b) (fun _ => P) E) : Leads P (bs.forM f) (fun _ => P) E := by
  induction bs with
  | nil => exact fun _ hs => hs
  | cons b bs ih =>
    rw [List.forall_mem_cons] at h
    exact h.1.bind fun _ => ih h.2

end

namespace CheckM

/-- Whether the run from a state ends well, with a result and a state. -/
def Ends (x : CheckM α β) (c : Checker α) (b : β) (c' : Checker α) : Prop :=
  x.run.run c = (.ok b, c')

section
variable {x : CheckM α β} {f : β → CheckM α γ} {c c' : Checker α} {b : β} {d : γ}

theorem ends_of_toOption (h : (x.run.run c).1.toOption = some b) : Ends x c b (x.run.run c).2 := by
  cases hrun : x.run.run c with
  | mk r c₁ =>
    rw [hrun] at h
    cases r with
    | error e => cases h
    | ok b' => rw [Ends, hrun, Option.some.inj h]

theorem fails_of_toOption (h : (x.run.run c).1.toOption = none) :
    ∃ e, x.run.run c = (.error e, (x.run.run c).2) := by
  cases hrun : x.run.run c with
  | mk r c₁ =>
    rw [hrun] at h
    cases r with
    | error e => exact ⟨e, rfl⟩
    | ok b => cases h

theorem ends_bind (h : Ends (x >>= f) c d c') : ∃ b c₁, Ends x c b c₁ ∧ Ends (f b) c₁ d c' :=
  ok_of_run_bind h

theorem ends_pure {b' : β} (h : Ends (pure b : CheckM α β) c b' c') : b = b' ∧ c = c' := by
  cases h
  exact ⟨rfl, rfl⟩

theorem ends_get {c₁ : Checker α} (h : Ends (get : CheckM α (Checker α)) c c₁ c') :
    c = c₁ ∧ c = c' := by
  cases h
  exact ⟨rfl, rfl⟩

theorem ends_modify {g : Checker α → Checker α} (h : Ends (modify g : CheckM α Unit) c () c') :
    c' = g c := by
  cases h
  rfl

theorem not_ends_throw {e : CheckError} (h : Ends (throw e : CheckM α β) c b c') : False := by
  cases h

theorem not_ends_fail {location : Location} {fault : Fault}
    (h : Ends (fail location fault : CheckM α β) c b c') : False :=
  not_ends_throw h

/-- A run that ends well meets no objection. -/
theorem ends_guard {p : Prop} [Decidable p] {location : Location} {fault : Fault}
    {rest : Unit → CheckM α β} (h : Ends (if p then fail location fault >>= rest else rest ()) c b c') :
    ¬ p ∧ Ends (rest ()) c b c' := by
  split at h
  · obtain ⟨_, _, hfail, -⟩ := ends_bind h
    exact (not_ends_fail hfail).elim
  · exact ⟨‹_›, h⟩

/-- An objection, and the rest of the run if there is none. -/
theorem leads_guard {P : Checker α → Prop} {Q : β → Checker α → Prop} {E : CheckError → Checker α → Prop}
    {p : Prop} [Decidable p] {location : Location} {fault : Fault} {rest : Unit → CheckM α β}
    (hfail : ∀ c, P c → E (.located location fault) c) (h : Leads P (rest ()) Q E) :
    Leads P (if p then fail location fault >>= rest else rest ()) Q E := by
  split
  · exact hfail
  · exact h

theorem run_tryCatch {handler : CheckError → CheckM α β} :
    (tryCatch x handler).run.run c = match x.run.run c with
    | (.ok b, c₁) => (.ok b, c₁)
    | (.error e, c₁) => (handler e).run.run c₁ := by
  rw [ExceptT.run_tryCatch, StateT.run_bind]
  obtain ⟨r, c₁⟩ := x.run.run c
  cases r <;> rfl

/-- A handler that fails does not end a run well. -/
theorem ends_tryCatch {handler : CheckError → CheckM α β}
    (hhandler : ∀ e c c', ¬ Ends (handler e) c b c') (h : Ends (tryCatch x handler) c b c') :
    Ends x c b c' := by
  rw [Ends, run_tryCatch] at h
  cases hx : x.run.run c with
  | mk r c₁ =>
    rw [hx] at h
    cases r with
    | error e => exact (hhandler e c₁ c' h).elim
    | ok b' => rwa [Ends, hx]

theorem ends_located {location : Location} {r : Except Fault β}
    (h : Ends (located location r : CheckM α β) c b c') : r = .ok b ∧ c = c' := by
  cases r with
  | error f => exact (not_ends_fail h).elim
  | ok b' =>
    obtain ⟨rfl, rfl⟩ := ends_pure h
    exact ⟨rfl, rfl⟩

theorem ends_internal {r : Except InternalFault β}
    (h : Ends (internal r : CheckM α β) c b c') : r = .ok b ∧ c = c' := by
  cases r with
  | error f => exact (not_ends_throw h).elim
  | ok b' =>
    obtain ⟨rfl, rfl⟩ := ends_pure h
    exact ⟨rfl, rfl⟩

end

section
variable {c c' : Checker α} {location : Location}

/-! ## Names -/

theorem ends_modifyScope {f : Scope → Scope} (h : Ends (modifyScope f) c () c') :
    c' = { c with scope := f c.scope } :=
  ends_modify h

/-- A check of names changes the scope and the classes only. -/
theorem run_naming (file : SourceFile) (x : NamingM Unit) (c : Checker α) :
    (naming file x).run.run c =
      ((x.run.run ⟨c.scope, c.classes⟩).1.mapError fun o => .located (file.locate o.span) o.fault,
        { c with
          scope := (x.run.run ⟨c.scope, c.classes⟩).2.scope
          classes := (x.run.run ⟨c.scope, c.classes⟩).2.classes }) := by
  have hget : (get : CheckM α (Checker α)).run.run c = (.ok c, c) := rfl
  rw [naming, run_bind, hget]
  dsimp only
  obtain ⟨r, n⟩ := x.run.run ⟨c.scope, c.classes⟩
  cases r <;> rfl

theorem ends_naming {file : SourceFile} {x : NamingM Unit} (h : Ends (naming file x) c () c') :
    ∃ n, x.run.run ⟨c.scope, c.classes⟩ = (.ok (), n) ∧
      c' = { c with scope := n.scope, classes := n.classes } := by
  rw [Ends, run_naming] at h
  cases hx : x.run.run ⟨c.scope, c.classes⟩ with
  | mk r n =>
    rw [hx] at h
    cases r with
    | error o => cases h
    | ok u => exact ⟨n, rfl, (Prod.mk.inj h).2.symm⟩

/-! ## Obligations -/

theorem ends_goal {g : Goal} (h : Ends (goal location) c g c') :
    c = c' ∧ ∃ rest, c.obligations.stack = .goal g :: rest := by
  unfold goal at h
  obtain ⟨_, _, hget, h⟩ := ends_bind h
  obtain ⟨rfl, rfl⟩ := ends_get hget
  obtain ⟨hgoal, rfl⟩ := ends_located h
  exact ⟨rfl, Obligations.eq_of_goal hgoal⟩

theorem ends_builder {f : Fact} (h : Ends (builder location) c f c') :
    c = c' ∧ ∃ rest, c.obligations.stack = .builder f :: rest := by
  unfold builder at h
  obtain ⟨_, _, hget, h⟩ := ends_bind h
  obtain ⟨rfl, rfl⟩ := ends_get hget
  obtain ⟨hbuilder, rfl⟩ := ends_located h
  exact ⟨rfl, Obligations.eq_of_builder hbuilder⟩

/-- A step that puts other obligations in the place of those at hand. -/
theorem ends_obligations {f : Obligations → Except Fault Obligations}
    (h : Ends (do
      let o ← located location (f (← get).obligations)
      modify fun c => { c with obligations := o }) c () c') :
    ∃ o, f c.obligations = .ok o ∧ c' = { c with obligations := o } := by
  obtain ⟨_, _, hget, h⟩ := ends_bind h
  obtain ⟨rfl, rfl⟩ := ends_get hget
  obtain ⟨o, _, hlocated, h⟩ := ends_bind h
  obtain ⟨ho, rfl⟩ := ends_located hlocated
  exact ⟨o, ho, ends_modify h⟩

theorem ends_modifyGoal {f : Goal → Goal} (h : Ends (modifyGoal location f) c () c') :
    ∃ g rest, c.obligations.stack = .goal g :: rest ∧
      c' = { c with obligations := ⟨.goal (f g) :: rest⟩ } := by
  obtain ⟨o, ho, rfl⟩ := ends_obligations (f := fun o => o.modifyGoal f) h
  obtain ⟨g, hg, ho⟩ := except_bind_eq_ok ho
  obtain ⟨rest, hstack⟩ := Obligations.eq_of_goal hg
  obtain rfl := Except.ok.inj ho
  exact ⟨g, rest, hstack, by simp [Obligations.setTop, Obligations.pop, Obligations.push, hstack]⟩

theorem ends_modifyBuilder {f : Fact → Fact} (h : Ends (modifyBuilder location f) c () c') :
    ∃ g rest, c.obligations.stack = .builder g :: rest ∧
      c' = { c with obligations := ⟨.builder (f g) :: rest⟩ } := by
  obtain ⟨o, ho, rfl⟩ := ends_obligations (f := fun o => o.modifyBuilder f) h
  obtain ⟨g, hg, ho⟩ := except_bind_eq_ok ho
  obtain ⟨rest, hstack⟩ := Obligations.eq_of_builder hg
  obtain rfl := Except.ok.inj ho
  exact ⟨g, rest, hstack, by simp [Obligations.setTop, Obligations.pop, Obligations.push, hstack]⟩

theorem ends_finishBuilder (h : Ends (finishBuilder location) c () c') :
    ∃ f rest, c.obligations.stack = .builder f :: rest ∧
      c' = { c with obligations := ⟨.goal (.ofFact f) :: rest⟩ } := by
  obtain ⟨o, ho, rfl⟩ := ends_obligations h
  obtain ⟨f, hf, ho⟩ := except_bind_eq_ok ho
  obtain ⟨rest, hstack⟩ := Obligations.eq_of_builder hf
  obtain rfl := Except.ok.inj ho
  exact ⟨f, rest, hstack, by simp [Obligations.setTop, Obligations.pop, Obligations.push, hstack]⟩

theorem ends_popGoal {g : Goal} (h : Ends (popGoal location) c g c') :
    ∃ rest, c.obligations.stack = .goal g :: rest ∧ c' = { c with obligations := ⟨rest⟩ } := by
  unfold popGoal at h
  obtain ⟨_, _, hget, h⟩ := ends_bind h
  obtain ⟨rfl, rfl⟩ := ends_get hget
  obtain ⟨⟨g', o⟩, _, hlocated, h⟩ := ends_bind h
  obtain ⟨ho, rfl⟩ := ends_located hlocated
  obtain ⟨⟨⟩, _, hmodify, h⟩ := ends_bind h
  obtain rfl := ends_modify hmodify
  obtain ⟨rfl, rfl⟩ := ends_pure h
  obtain ⟨g'', hg, ho⟩ := except_bind_eq_ok ho
  obtain ⟨rfl, rfl⟩ := Prod.mk.inj (Except.ok.inj ho)
  obtain ⟨rest, hstack⟩ := Obligations.eq_of_goal hg
  exact ⟨rest, hstack, by simp [Obligations.pop, hstack]⟩

theorem ends_settle (h : Ends (settle location) c () c') :
    ∃ g rest, c.obligations.stack = .goal g :: rest ∧
      c' = { c with obligations := ⟨.goal { g with left := g.right } :: rest⟩ } :=
  ends_modifyGoal h

/-! ## Questions -/

/-- A question that is answered adds its answer. -/
theorem ends_askIn {backend : Backend α} {f : Environment → Environment} {q : Question}
    (h : Ends (askIn backend location f q) c () c') :
    ∃ env a, backend env q = .ok a ∧ c' = { c with answers := c.answers ++ [a] } := by
  unfold askIn at h
  obtain ⟨_, _, hget, h⟩ := ends_bind h
  obtain ⟨rfl, rfl⟩ := ends_get hget
  split at h
  · rename_i a ha
    exact ⟨_, a, ha, ends_modify h⟩
  · exact (not_ends_throw h).elim

end

end CheckM

end GameHop
