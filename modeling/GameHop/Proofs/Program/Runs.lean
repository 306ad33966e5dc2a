import GameHop.Program.Bisimulation
import GameHop.Proofs.Check.Runs

/-!
Runs of steps that build a program, read forwards and backwards.
-/

namespace GameHop.Program

section
variable {ε σ α β : Type} {x : StateT σ (Except ε) α} {f : α → StateT σ (Except ε) β} {s s₁ : σ}

theorem run_bind_of_ok {a : α} (h : x.run s = .ok (a, s₁)) : (x >>= f).run s = (f a).run s₁ := by
  rw [StateT.run_bind, h]
  rfl

theorem run_bind_of_error {e : ε} (h : x.run s = .error e) : (x >>= f).run s = .error e := by
  rw [StateT.run_bind, h]
  rfl

theorem ok_of_bind {r : β × σ} (h : (x >>= f).run s = .ok r) :
    ∃ a s₁, x.run s = .ok (a, s₁) ∧ (f a).run s₁ = .ok r := by
  rw [StateT.run_bind] at h
  cases hx : x.run s with
  | error e =>
    rw [hx] at h
    cases h
  | ok p =>
    rw [hx] at h
    exact ⟨p.1, p.2, rfl, h⟩

theorem eq_of_pure {a b : α} (h : (pure a : StateT σ (Except ε) α).run s = .ok (b, s₁)) :
    a = b ∧ s = s₁ := by
  cases h
  exact ⟨rfl, rfl⟩

theorem ok_of_lift_bind {y : Except ε α} {r : β × σ} (h : (liftM y >>= f).run s = .ok r) :
    ∃ a, y = .ok a ∧ (f a).run s = .ok r := by
  cases y with
  | error e => cases h
  | ok a => exact ⟨a, rfl, h⟩

end

section
variable {σ : Type} {s : σ} {t : Term} {c : Value.Coercion}

theorem run_orInternal (h : c = .ok t) :
    (liftM (orInternal c) : StateT σ (Except CheckError) Term).run s = .ok (t, s) := by
  rw [h]
  rfl

theorem ok_of_orInternal (h : orInternal c = .ok t) : c = .ok t := by
  cases c with
  | error e => cases h
  | ok u => exact congrArg _ (Except.ok.inj h)

end

/-- Whether a step from a state succeeds, with a result and a state after it that have a property. -/
def Makes {σ α : Type} (x : StateT σ (Except CheckError) α) (s : σ) (Q : α → σ → Prop) : Prop :=
  ∃ a s', x.run s = .ok (a, s') ∧ Q a s'

namespace Makes

variable {σ α β : Type} {x : StateT σ (Except CheckError) α} {s : σ} {Q : α → σ → Prop}
  {R : β → σ → Prop}

theorem done {a : α} (h : Q a s) : Makes (pure a) s Q :=
  ⟨a, s, rfl, h⟩

theorem bind {f : α → StateT σ (Except CheckError) β} (hx : Makes x s Q)
    (hf : ∀ a s₁, Q a s₁ → Makes (f a) s₁ R) : Makes (x >>= f) s R := by
  obtain ⟨a, s₁, hrun, ha⟩ := hx
  obtain ⟨b, s₂, hrun', hb⟩ := hf a s₁ ha
  exact ⟨b, s₂, (run_bind_of_ok hrun).trans hrun', hb⟩

variable {f : Term → StateT σ (Except CheckError) β} {c : Value.Coercion}

theorem coerced {t : Term} (hc : c = .ok t) (hf : Makes (f t) s R) :
    Makes (liftM (orInternal c) >>= f) s R :=
  hc ▸ hf

theorem coercing {P : Term → Prop} (hc : ∃ t, c = .ok t ∧ P t) (hf : ∀ t, P t → Makes (f t) s R) :
    Makes (liftM (orInternal c) >>= f) s R := by
  obtain ⟨t, hc, ht⟩ := hc
  exact coerced hc (hf t ht)

end Makes

theorem ok_of_inFrame {α : Type} {kind : FrameKind} {symbols : List (String × Ty)} {x : Build α}
    {a : α} {d d' : Draft} (h : (Build.inFrame kind symbols x).run d = .ok (a, d')) :
    ∃ d₁ d₂, x.run d₁ = .ok (a, d₂) := by
  obtain ⟨_, d₁, -, h⟩ := ok_of_bind h
  obtain ⟨_, d₂, -, h⟩ := ok_of_bind h
  obtain ⟨b, d₃, hx, h⟩ := ok_of_bind h
  obtain ⟨_, d₄, -, h⟩ := ok_of_bind h
  obtain ⟨rfl, -⟩ := eq_of_pure h
  exact ⟨d₂, d₃, hx⟩

theorem ok_of_finishCode {ctx : CodeContext} {locals : Locals} {e : Expr} {d d' : Draft}
    {c : FinishedCode} (h : (finishCode ctx locals e).run d = .ok (c, d')) :
    ∃ s, (e.code ctx).run ⟨d, locals, []⟩ = .ok (c.code, s) ∧ c.locals = s.locals := by
  obtain ⟨⟨code, s⟩, hrun, h⟩ := except_bind_eq_ok h
  cases h
  exact ⟨s, hrun, rfl⟩

theorem Bisimulation.ok_of_methodCode {env : Environment} {o : Object} {m : Method}
    {args : List String} {locals : Locals} {d d' : Draft} {c : FinishedCode}
    (h : (methodCode env o m args locals).run d = .ok (c, d')) :
    ∃ s s', (m.body.code ⟨env, Build.require env, methodVars "objectMemory" o m args⟩).run s =
      .ok (c.code, s') := by
  obtain ⟨_, _, h⟩ := ok_of_inFrame h
  obtain ⟨_, _, h⟩ := ok_of_inFrame h
  obtain ⟨s', hrun, -⟩ := ok_of_finishCode h
  exact ⟨_, s', hrun⟩

end GameHop.Program

namespace GameHop

/-- The declarations of constants that hold values. -/
def Environment.ofConstants (xs : List String) : Environment :=
  ⟨⟨[⟨.constant, xs.map fun x => (x, .value)⟩]⟩, .empty, [], [], .detached ""⟩

end GameHop
