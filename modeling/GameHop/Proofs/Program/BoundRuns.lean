import GameHop.Program.Bounds
import GameHop.Proofs.Program.Runs
import GameHop.Proofs.Reading.Bounds
import GameHop.Proofs.Term.Conversion

/-!
Runs that make terms of bounds. Making a term may declare a context or an adversary, and these stay
declared.
-/

namespace GameHop.Program

/-! ## States -/

/-- Whether a state declares all that another one does, in the same scope. -/
structure BoundState.Extends (s s' : BoundState) : Prop where
  scope : s'.draft.scope = s.draft.scope
  exprs : ∀ text id, s.draft.constants.exprs.lookup text = some id →
    s'.draft.constants.exprs.lookup text = some id
  adversaries : s.adversaries ⊆ s'.adversaries

theorem BoundState.Extends.refl (s : BoundState) : s.Extends s :=
  ⟨rfl, fun _ _ h => h, List.Subset.refl _⟩

theorem BoundState.Extends.trans {s s' s'' : BoundState} (h : s.Extends s') (h' : s'.Extends s'') :
    s.Extends s'' :=
  ⟨h'.scope.trans h.scope, fun text id hid => h'.exprs text id (h.exprs text id hid),
    List.Subset.trans h.adversaries h'.adversaries⟩

/-- Whether a computation that has run once has the same result in every later state, and leaves that
    as it is. -/
def Settles {α : Type} (x : BuildBound α) : Prop :=
  ∀ s a s₁, x.run s = .ok (a, s₁) →
    s.Extends s₁ ∧ ∀ s', s₁.Extends s' → x.run s' = .ok (a, s')

namespace Settles
variable {α β : Type}

theorem pure (a : α) : Settles (Pure.pure a) := by
  intro s b s₁ h
  obtain ⟨rfl, rfl⟩ := eq_of_pure h
  exact ⟨.refl s, fun s' _ => rfl⟩

theorem lift (x : Except CheckError α) : Settles (liftM x) := by
  intro s a s₁ h
  cases x with
  | error e => cases h
  | ok b =>
    cases h
    exact ⟨.refl s, fun s' _ => rfl⟩

theorem throw (e : CheckError) : Settles (throw e : BuildBound α) := by
  intro s a s₁ h
  cases h

theorem bind {x : BuildBound α} {f : α → BuildBound β} (hx : Settles x) (hf : ∀ a, Settles (f a)) :
    Settles (x >>= f) := by
  intro s b s₂ h
  obtain ⟨a, s₁, hxs, hfs⟩ := ok_of_bind h
  obtain ⟨hs₁, hx'⟩ := hx s a s₁ hxs
  obtain ⟨hs₂, hf'⟩ := hf a s₁ b s₂ hfs
  refine ⟨hs₁.trans hs₂, fun s' hs' => ?_⟩
  rw [run_bind_of_ok (hx' s' (hs₂.trans hs'))]
  exact hf' s' hs'

end Settles

theorem BuildBound.run_typeOf? (x : String) (s : BoundState) :
    (onDraft (Build.typeOf? x)).run s = .ok (s.draft.scope.typeOf? x, s) :=
  rfl

theorem settles_typeOf? (x : String) : Settles (BuildBound.onDraft (Build.typeOf? x)) := by
  intro s a s₁ h
  rw [BuildBound.run_typeOf?] at h
  cases h
  exact ⟨.refl s, fun s' hs' => by rw [BuildBound.run_typeOf?, hs'.scope]⟩

theorem settles_addAdversary (x : String) : Settles (BuildBound.addAdversary x) := by
  have hrun : ∀ s, (BuildBound.addAdversary x).run s =
      .ok ((), if s.adversaries.contains x then s
        else { s with adversaries := s.adversaries ++ [x] }) := fun _ => rfl
  intro s a s₁ h
  rw [hrun] at h
  cases h
  have hext : ∀ s₁ : BoundState, x ∈ s₁.adversaries → ∀ s', s₁.Extends s' →
      (BuildBound.addAdversary x).run s' = .ok ((), s') := by
    intro s₁ hx s' hs'
    rw [hrun, if_pos (List.contains_iff_mem.2 (hs'.adversaries hx))]
  by_cases hx : x ∈ s.adversaries
  · rw [if_pos (List.contains_iff_mem.2 hx)]
    exact ⟨.refl s, hext s hx⟩
  · rw [if_neg (by simpa using hx)]
    exact ⟨⟨rfl, fun _ _ h => h, List.subset_append_left _ _⟩, hext _ (by simp)⟩

theorem BuildBound.run_internExpr (text : String) (s : BoundState) :
    (onDraft (Build.internExpr text)).run s =
      .ok ((s.draft.constants.internExpr text s.draft.out).1,
        { s with draft := { s.draft with
          constants := (s.draft.constants.internExpr text s.draft.out).2.1
          out := (s.draft.constants.internExpr text s.draft.out).2.2 } }) :=
  rfl

theorem settles_internExpr (text : String) :
    Settles (BuildBound.onDraft (Build.internExpr text)) := by
  have hsome : ∀ (s : BoundState) id, s.draft.constants.exprs.lookup text = some id →
      (BuildBound.onDraft (Build.internExpr text)).run s = .ok (id, s) := by
    intro s id hid
    simp only [BuildBound.run_internExpr, Constants.internExpr, hid]
  intro s id s₁ h
  cases hid : s.draft.constants.exprs.lookup text with
  | some id' =>
    rw [hsome s id' hid] at h
    cases h
    exact ⟨.refl s, fun s' hs' => hsome s' id (hs'.exprs text id hid)⟩
  | none =>
    simp only [BuildBound.run_internExpr, Constants.internExpr, hid] at h
    cases h
    refine ⟨⟨rfl, fun text' id' hid' => ?_, List.Subset.refl _⟩, fun s' hs' => ?_⟩
    · simp [List.lookup_append, hid']
    · refine hsome s' _ (hs'.exprs text _ ?_)
      simp [List.lookup_append, hid]

end GameHop.Program

namespace GameHop

open Program

theorem Bound.settles_arguments {env : Environment} {f : Function} {args : List Bound}
    (h : ∀ b ∈ args, Settles (b.value env)) (i : Nat) : Settles (arguments env f i args) := by
  induction args generalizing i with
  | nil => exact .pure _
  | cons b bs ih =>
    rw [List.forall_mem_cons] at h
    exact h.1.bind fun v => (Settles.lift _).bind fun t => (ih h.2 (i + 1)).bind fun ts => .pure _

/-- **A bound is made the same term again.** -/
theorem Bound.settles_value (env : Environment) (b : Bound) : Settles (b.value env) := by
  induction b using inductOperands with
  | step b ih =>
    cases b with
    | int => exact .pure _
    | lookup s x =>
      refine (settles_typeOf? x.name).bind fun ty => ?_
      cases ty with
      | some ty => exact .pure _
      | none => exact (settles_addAdversary x.name).bind fun _ => .pure _
    | paren s b => exact ih b (.head _)
    | call s f args =>
      unfold value
      split
      · exact .throw _
      · split
        · exact (Settles.throw _).bind fun _ => (settles_arguments ih 0).bind fun ts => .pure _
        · exact (settles_arguments ih 0).bind fun ts => .pure _
    | env s cs => exact (settles_internExpr _).bind fun id => .pure _
    | binary s op l r =>
      refine (ih l (.head _)).bind fun a => (Settles.lift _).bind fun a =>
        (ih r (.tail _ (.head _))).bind fun b => (Settles.lift _).bind fun b => ?_
      split
      · exact (Settles.lift _).bind fun tl => (Settles.lift _).bind fun tr => .pure _
      · exact (Settles.lift _).bind fun tl => (Settles.lift _).bind fun tr => .pure _

/-! ## Places -/

theorem Bound.arguments_bare {env : Environment} {args : List Bound}
    (h : ∀ b ∈ args, b.bare.value env = b.value env) (f : Function) (i : Nat) :
    arguments env f i (args.map bare) = arguments env f i args := by
  induction args generalizing i with
  | nil => rfl
  | cons b bs ih =>
    rw [List.forall_mem_cons] at h
    rw [List.map_cons, arguments, arguments, h.1, ih h.2]

/-- **Places do not matter.** -/
theorem Bound.value_bare (env : Environment) (b : Bound) : b.bare.value env = b.value env := by
  induction b using inductOperands with
  | step b ih =>
    cases b with
    | int | lookup => rfl
    | paren s b => exact ih b (.head _)
    | call s f args =>
      have hargs : ∀ decl, arguments env decl 0 (args.map bare) =
        arguments env decl 0 args := fun decl => arguments_bare ih decl 0
      simp only [bare, bareList_eq, value, hargs, Ident.name_bare]
    | env s cs =>
      have htext : (Bound.env s cs).bare.text = (Bound.env s cs).text := by
        rw [text, layout_bare, text]
      rw [bare] at htext
      rw [bare, value, value, htext]
    | binary s op l r =>
      rw [bare, value, value, ih l (.head _), ih r (.tail _ (.head _))]

/-! ## Readings -/

namespace Program

/-- How a term is read as a number. -/
inductive Reading where
  | integer
  | real
deriving DecidableEq

/-- Arithmetic is on reals, or on integers. -/
def Reading.of (isReal : Bool) : Reading :=
  if isReal then .real else .integer

def Reading.sort : Reading → TermSort
  | .integer => .integer
  | .real => .real

/-- The term as a number. -/
def Value.read (v : Value) : Reading → Value.Coercion
  | .integer => v.toInteger
  | .real => v.toReal

theorem Value.coerce_reading (v : Value) (m : Reading) : v.coerce m.sort = v.read m := by
  obtain ⟨sort, t⟩ := v
  cases m <;> cases sort <;> rfl

end Program

/-- A bound read as a number. -/
def Bound.readAs (env : Environment) (m : Reading) (b : Bound) : BuildBound Term := do
  let v ← numeric (← b.value env)
  orInternal (v.read m)

theorem Bound.real_eq (env : Environment) (b : Bound) : b.real env = b.readAs env .real :=
  rfl

theorem Bound.settles_readAs (env : Environment) (m : Reading) (b : Bound) :
    Settles (b.readAs env m) :=
  (b.settles_value env).bind fun _ => (Settles.lift _).bind fun _ => .lift _

theorem Bound.readAs_bare (env : Environment) (m : Reading) (b : Bound) :
    b.bare.readAs env m = b.readAs env m := by
  rw [readAs, value_bare, readAs]

section
variable {env : Environment} {b : Bound} {s s₁ : BoundState} {m : Reading} {t : Term}

theorem Bound.readAs_eq_ok : (b.readAs env m).run s = .ok (t, s₁) ↔
    ∃ v v', (b.value env).run s = .ok (v, s₁) ∧ numeric v = .ok v' ∧ v'.read m = .ok t := by
  constructor
  · intro h
    obtain ⟨v, s', hv, h⟩ := ok_of_bind h
    obtain ⟨v', hv', h⟩ := ok_of_lift_bind h
    cases ht : v'.read m with
    | error e => rw [ht] at h; cases h
    | ok t' =>
      rw [run_orInternal ht] at h
      cases h
      exact ⟨v, v', hv, hv', ht⟩
  · rintro ⟨v, v', hv, hv', ht⟩
    rw [readAs, run_bind_of_ok hv, hv']
    exact run_orInternal ht

end

/-- The term for an operation on terms. -/
def Program.operation (op : BoundOp) (l r : Term) : Term :=
  if op = .pow then .call "real_pow" [l, r] else .numeric op l r

theorem Program.sort_of_numericSort {op : BoundOp} (hop : op ≠ .pow) (l r : TermSort) :
    numericSort op l r = (Reading.of (op = .div ∨ op = .pow ∨ l = .real ∨ r = .real)).sort := by
  rw [numericSort, Reading.of]
  split <;> simp_all [Reading.sort]

/-- **An operation reads both operands alike.** -/
theorem Bound.ok_of_value_binary {env : Environment} {sp : Span} {op : BoundOp} {l r : Bound}
    {s s₁ : BoundState} {v : Value}
    (h : ((binary sp op l r).value env).run s = .ok (v, s₁)) :
    ∃ a a' b b' s' tl tr, (l.value env).run s = .ok (a, s') ∧ numeric a = .ok a' ∧
      (r.value env).run s' = .ok (b, s₁) ∧ numeric b = .ok b' ∧
      let m := Reading.of (op = .div ∨ op = .pow ∨ a'.sort = .real ∨ b'.sort = .real)
      a'.read m = .ok tl ∧ b'.read m = .ok tr ∧ v = ⟨m.sort, operation op tl tr⟩ := by
  obtain ⟨a, s', ha, h⟩ := ok_of_bind h
  obtain ⟨a', ha', h⟩ := ok_of_lift_bind h
  obtain ⟨b, s'', hb, h⟩ := ok_of_bind h
  obtain ⟨b', hb', h⟩ := ok_of_lift_bind h
  split at h
  · rename_i hop
    obtain ⟨tl, htl, h⟩ := ok_of_lift_bind h
    obtain ⟨tr, htr, h⟩ := ok_of_lift_bind h
    obtain ⟨rfl, rfl⟩ := eq_of_pure h
    refine ⟨a, a', b, b', s', tl, tr, ha, ha', hb, hb', ?_⟩
    simp only [hop, reduceCtorEq, false_or, true_or, decide_true]
    exact ⟨ok_of_orInternal htl, ok_of_orInternal htr, rfl⟩
  · rename_i hop
    obtain ⟨tl, htl, h⟩ := ok_of_lift_bind h
    obtain ⟨tr, htr, h⟩ := ok_of_lift_bind h
    obtain ⟨rfl, rfl⟩ := eq_of_pure h
    rw [sort_of_numericSort hop] at htl htr ⊢
    refine ⟨a, a', b, b', s', tl, tr, ha, ha', hb, hb', ?_, ?_, ?_⟩
    · rw [← Value.coerce_reading]
      exact ok_of_orInternal htl
    · rw [← Value.coerce_reading]
      exact ok_of_orInternal htr
    · rw [operation, if_neg hop]

end GameHop
