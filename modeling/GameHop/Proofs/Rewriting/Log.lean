import GameHop.Proofs.Matching.Steps
import GameHop.Proofs.Rewriting.Derivation
import Mathlib

/-!
What rewriting gives: the log of a derivation, or a fault. The only faults are calls of one function
with different numbers of arguments and terms that are to be bounds and are not.
-/

namespace GameHop

open Rewriting

/-! ## Faults -/

/-- The faults of matching and of substituting in bounds. -/
def InternalFault.OfTerms : InternalFault → Prop
  | .arityMismatch _ | .exprNotBound _ => True
  | _ => False

/-- Whether a computation fails in no other way. -/
def FailsOnTerms {α : Type} (x : Except InternalFault α) : Prop :=
  ∀ f, x = .error f → f.OfTerms

theorem failsOnTerms_ok {α : Type} (a : α) : FailsOnTerms (.ok a) := by
  intro f h
  cases h

theorem FailsOnTerms.bind {α β : Type} {x : Except InternalFault α}
    {g : α → Except InternalFault β} (hx : FailsOnTerms x) (hg : ∀ a, FailsOnTerms (g a)) :
    FailsOnTerms (x >>= g) := by
  intro f h
  cases x with
  | error f' =>
    have h : Except.error f' = (Except.error f : Except InternalFault β) := h
    exact hx f (by rw [Except.error.inj h])
  | ok a => exact hg a f h

theorem failsOnTerms_exprNotBound {α : Type} (e : Expr) :
    FailsOnTerms (.error (.exprNotBound e) : Except InternalFault α) := by
  rintro - ⟨⟩
  trivial

theorem Bound.failsOnTerms_ofExprList {es : List Expr}
    (h : ∀ e ∈ es, FailsOnTerms (ofExpr e)) : FailsOnTerms (ofExprList es) := by
  induction es with
  | nil => exact failsOnTerms_ok _
  | cons e es ih =>
    rw [List.forall_mem_cons] at h
    rw [ofExprList]
    exact h.1.bind fun b => (ih h.2).bind fun bs => failsOnTerms_ok _

theorem Bound.failsOnTerms_ofExpr (e : Expr) : FailsOnTerms (ofExpr e) := by
  induction e using Expr.inductNode with
  | step e ih =>
    cases e with
    | int | lookup => exact failsOnTerms_ok _
    | paren s l e => exact (ih e (by simp [Expr.children])).bind fun b => failsOnTerms_ok _
    | call s f args =>
      exact (failsOnTerms_ofExprList ih).bind fun bs => failsOnTerms_ok _
    | binary s op a b =>
      cases op with
      | arith op =>
        rw [ofExpr]
        split
        · exact failsOnTerms_exprNotBound _
        · exact (ih a (by simp [Expr.children])).bind fun _ =>
            (ih b (by simp [Expr.children])).bind fun _ => failsOnTerms_ok _
      | _ => exact failsOnTerms_exprNotBound _
    | _ => exact failsOnTerms_exprNotBound _

theorem Bound.failsOnTerms_ofTerm (span : Span) (e : Expr) :
    FailsOnTerms (ofTerm span e) := by
  unfold ofTerm
  split
  · exact failsOnTerms_ok _
  · exact failsOnTerms_ok _
  · exact (failsOnTerms_ofExpr e).bind fun _ => failsOnTerms_ok _

mutual

theorem Bound.failsOnTerms_substitute (s : Substitution) :
    ∀ b : Bound, FailsOnTerms (b.substitute s)
  | .int _ _ | .env _ _ => failsOnTerms_ok _
  | .lookup _ x => by
    rw [substitute]
    cases s.get? x.name with
    | none => exact failsOnTerms_ok _
    | some e => exact failsOnTerms_ofTerm _ e
  | .paren _ b => (failsOnTerms_substitute s b).bind fun _ => failsOnTerms_ok _
  | .call _ _ args => (failsOnTerms_substituteList s args).bind fun _ => failsOnTerms_ok _
  | .binary _ _ a b => (failsOnTerms_substitute s a).bind fun _ =>
    (failsOnTerms_substitute s b).bind fun _ => failsOnTerms_ok _

theorem Bound.failsOnTerms_substituteList (s : Substitution) :
    ∀ bs : List Bound, FailsOnTerms (substituteList s bs)
  | [] => failsOnTerms_ok _
  | b :: bs => (failsOnTerms_substitute s b).bind fun _ =>
    (failsOnTerms_substituteList s bs).bind fun _ => failsOnTerms_ok _

end

namespace Rewriting

/-- Whether a computation adds no other fault. -/
def KeepsFaults {α : Type} (x : StateM State α) : Prop :=
  ∀ st, (∀ f, st.fault = some f → f.OfTerms) → ∀ f, (x.run st).2.fault = some f → f.OfTerms

section
variable {α β : Type} {x : StateM State α} {g : α → StateM State β} {rule : Rule}

theorem KeepsFaults.bind (hx : KeepsFaults x) (hg : ∀ a, KeepsFaults (g a)) :
    KeepsFaults (x >>= g) :=
  fun st h => hg _ _ (hx st h)

theorem KeepsFaults.withBound (names : List String) (hx : KeepsFaults x) :
    KeepsFaults (withBound names x) :=
  fun _ h => hx _ h

end

end Rewriting

end GameHop
