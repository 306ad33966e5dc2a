import GameHop.Proofs.Check.Parameters

/-!
Theorems that fail. Whatever a proof did before it failed, nothing of it is left but the classes that it
names.
-/

namespace GameHop

variable {α : Type}

open CheckM

namespace Checker

/-- **A theorem that fails is rolled back.** Whatever its proof did before it failed, the obligations,
    the frames of the scope with their contents, the functions, the postulates and the facts are those
    before the theorem. -/
theorem rolled_back_of_checkTheorem {ctx : ProofContext α} {t : Theorem} {c c' : Checker α}
    {e : CheckError} (h : (checkTheorem ctx t).run.run c = (.error e, c')) :
    c'.obligations = c.obligations ∧ c'.scope = c.scope ∧ c'.functions = c.functions ∧
      c'.postulates = c.postulates ∧ c'.facts = c.facts := by
  obtain ⟨⟨-, hc'⟩, hscope, hstack⟩ :=
    (leads_checkTheorem (A := ⟨ctx, Set.univ, c, ∅⟩) rfl (Item.proved t).placed_univ).error rfl h
  exact ⟨hstack, hscope, congrArg Theory.functions hc'.theory, congrArg Theory.postulates hc'.theory,
    hc'.facts⟩

/-- `theorem B(x): f(x) ~ g(x)`, with a proof that fails in a subgoal of a subgoal. -/
def nestedTheorem : Theorem :=
  ⟨.nowhere, ⟨.nowhere, .plain "B", [⟨.nowhere, .plain "x", none⟩],
    .call .nowhere (.plain "f") [.var "x"], none, .call .nowhere (.plain "g") [.var "x"]⟩,
    [.subgoal .nowhere none (.expr (.call .nowhere (.plain "g") [.var "x"]))
      [.subgoal .nowhere none (.expr (.call .nowhere (.plain "f") [.var "k"]))
        [.trivial .nowhere]]]⟩

/-- The proof fails with three goals and the frame of its parameter; the theorem leaves neither. -/
theorem rolled_back_of_nestedTheorem : ∃ c c₁ c' e e₁,
    c.obligations.size = 0 ∧ c.scope.depth = 1 ∧ c.facts.length = 1 ∧
    (prove constantContext nestedTheorem).run.run c = (.error e₁, c₁) ∧
    c₁.obligations.size = 3 ∧ c₁.scope.depth = 2 ∧
    (checkTheorem constantContext nestedTheorem).run.run c = (.error e, c') ∧
    c'.obligations = c.obligations ∧ c'.scope = c.scope ∧ c'.functions = c.functions ∧
      c'.postulates = c.postulates ∧ c'.facts = c.facts := by
  have hrun : (fun c : Checker (Location × Question) =>
      (c.obligations.size, c.scope.depth, c.facts.length,
        (fun r : Except CheckError Unit × Checker (Location × Question) =>
          (r.1.toOption, r.2.obligations.size, r.2.scope.depth))
          ((prove constantContext nestedTheorem).run.run c),
        ((checkTheorem constantContext nestedTheorem).run.run c).1.toOption)) afterConstant =
      (0, 1, 1, (none, 3, 2), none) := by
    decide +kernel
  obtain ⟨hsize, hrest⟩ := Prod.mk.inj hrun
  obtain ⟨hdepth, hrest⟩ := Prod.mk.inj hrest
  obtain ⟨hfacts, hrest⟩ := Prod.mk.inj hrest
  obtain ⟨hprove, hcheck⟩ := Prod.mk.inj hrest
  obtain ⟨hnone, hleft⟩ := Prod.mk.inj hprove
  obtain ⟨hsize₁, hdepth₁⟩ := Prod.mk.inj hleft
  -- from here on it does not matter what the state is
  generalize afterConstant = c at hsize hdepth hfacts hnone hsize₁ hdepth₁ hcheck
  obtain ⟨e₁, hprove⟩ := fails_of_toOption hnone
  obtain ⟨e, hcheck⟩ := fails_of_toOption hcheck
  exact ⟨c, _, _, e, e₁, hsize, hdepth, hfacts, hprove, hsize₁, hdepth₁, hcheck,
    rolled_back_of_checkTheorem hcheck⟩

end Checker

end GameHop
