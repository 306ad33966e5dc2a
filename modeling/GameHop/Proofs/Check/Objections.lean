import GameHop.Proofs.Check.Names
import GameHop.Proofs.Rewriting.Readability

/-!
What unfolding and inlining object to. They do not look at the obligations of a proof.
-/

namespace GameHop

variable {β : Type}

def CheckError.concernsGoals : CheckError → Bool
  | .located _ f => f.concernsGoals
  | .internal _ | .file _ => false

/-! ## Traversals -/

/-- A traversal ensures nothing of its result, but is made of its visits only: what a failure or a state
    has to be like after them, it has to be like after the traversal. -/
theorem Expr.ensures_bottomUpM {m : Type → Type} [Monad m] [LawfulMonad m] (A : Assurance m)
    (enter : Bool) {visit : Expr → m Expr} (hvisit : ∀ e, A.Ensures (visit e) fun _ => True)
    (e : Expr) : A.Ensures (e.bottomUpM enter visit) fun _ => True :=
  A.ensures_bottomUpM enter (fun _ _ _ _ => trivial) (fun _ _ _ _ _ => trivial)
    (fun e _ => hvisit e) e trivial

/-! ## Unfolding and inlining -/

/-- Unfolding objects to calls only. -/
theorem Expr.concernsGoals_of_unfold {functions : Functions} {only : List String} {e : Expr}
    {f : Fault} (h : (e.unfold functions only).2 = some f) : f.concernsGoals = false := by
  let A := Assurance.id.state fun s : Option Fault => ∀ f ∈ s, f.concernsGoals = false
  have hvisit : ∀ e, A.Ensures (Unfolding.visit functions only e) fun _ => True := by
    intro e
    refine A.bind Assurance.ensures_get fun s hs => ?_
    split
    · split
      · exact A.pure trivial
      · split
        · refine A.bind (Assurance.ensures_set ?_) fun _ _ => A.pure trivial
          rintro f ⟨⟩
          rfl
        · exact A.pure trivial
    · exact A.pure trivial
  exact (ensures_bottomUpM A true hvisit e none (by simp)).2 f h

/-- What is ensured of failures, beside results. -/
def Assurance.failing {ε : Type} (Q : ε → Prop) : Assurance (Except ε) where
  Ensures x P := (∀ a, x = .ok a → P a) ∧ ∀ e, x = .error e → Q e
  pure ha := ⟨by rintro b ⟨⟩; exact ha, by rintro e ⟨⟩⟩
  bind := by
    intro α β P P' x f hx hf
    cases x with
    | error e => exact ⟨by rintro b ⟨⟩, by rintro e' ⟨⟩; exact hx.2 e rfl⟩
    | ok a => exact hf a (hx.1 a rfl)

namespace Inlining

/-- The failures of inlining that do not concern obligations. -/
abbrev sparing : Assurance (Except Fault) :=
  .failing fun f => f.concernsGoals = false

/-- The same, whatever the names are that are given. -/
abbrev sparingNames : Assurance (StateT (List String) (Except Fault)) :=
  sparing.state fun _ => True

theorem sparing_throw {f : Fault} (h : f.concernsGoals = false) :
    sparingNames.Ensures (throw f : StateT (List String) (Except Fault) β) fun _ => True := by
  refine fun s _ => ⟨?_, ?_⟩
  · rintro r ⟨⟩
  · rintro f' ⟨⟩
    exact h

theorem CallSite.sparing_visit (site : CallSite) (e : Expr) :
    sparingNames.Ensures (site.visit e) fun _ => True := by
  let A := sparingNames
  unfold visit
  split
  · split
    · split
      · exact A.bind Assurance.ensures_get fun _ _ =>
          A.bind (Assurance.ensures_set trivial) fun _ _ => A.pure trivial
      · exact sparing_throw rfl
    · exact A.pure trivial
  · exact A.pure trivial

theorem CallSite.sparing_expandIn (site : CallSite) (members : List String) (m : Method) :
    sparing.Ensures (site.expandIn members m) fun _ => True :=
  sparing.bind (Expr.ensures_bottomUpM sparingNames false site.sparing_visit m.body _ trivial)
    fun _ _ => sparing.pure trivial

theorem sparing_dissolve (scope : Scope) (before : List Field) (x : String) (inner : Object)
    (after : List Field) (methods : List Method) :
    sparingNames.Ensures (dissolve scope before x inner after methods) fun _ => True := by
  let A := sparingNames
  refine A.bind Assurance.ensures_get fun given _ => ?_
  refine A.bind (Assurance.ensures_set trivial) fun _ _ => ?_
  refine A.bind (Assurance.ensures_mapM fun m _ =>
    Assurance.ensures_lift (CallSite.sparing_expandIn _ _ m)) fun methods' _ => ?_
  dsimp only
  split
  · exact A.bind (sparing_throw rfl) fun _ _ => A.pure trivial
  · exact A.pure trivial

theorem sparing_dissolveFields (scope : Scope) (done todo : List Field) (methods : List Method) :
    sparingNames.Ensures (dissolveFields scope done methods todo) fun _ => True := by
  induction todo generalizing done methods with
  | nil => exact sparingNames.pure trivial
  | cons f fs ih =>
    unfold dissolveFields
    split
    · exact ih _ _
    · exact sparingNames.bind (sparing_dissolve _ _ _ _ _ _) fun _ _ => ih _ _

theorem sparing_visit (scope : Scope) (e : Expr) :
    sparingNames.Ensures (visit scope e) fun _ => True := by
  unfold visit
  split
  · exact sparingNames.bind (sparing_dissolveFields _ _ _ _) fun _ _ => sparingNames.pure trivial
  · exact sparingNames.pure trivial

end Inlining

/-- Inlining objects to methods and references only. -/
theorem Expr.concernsGoals_of_inlineObjects {scope : Scope} {names : List String} {e : Expr}
    {f : Fault} (h : e.inlineObjects scope names = .error f) : f.concernsGoals = false := by
  have hrun := ensures_bottomUpM Inlining.sparingNames true (Inlining.sparing_visit scope) e
    names trivial
  exact (Inlining.sparing.bind hrun fun _ _ =>
    Inlining.sparing.pure (P := fun _ => True) trivial).2 f h

end GameHop
