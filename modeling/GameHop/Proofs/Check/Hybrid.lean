import GameHop.Proofs.Check.Soundness
import GameHop.Proofs.Check.Theory
import GameHop.Proofs.Reading.DevelopmentRuns
import GameHop.Proofs.Term.Equality
import Mathlib

/-!
Hybrid arguments. The fact of a hybrid argument relates a call for a number to a call for the next one:
**the arguments of the two calls are as they have to be, but the functions may differ**, and the argument
is an induction step only if they do not.
-/

namespace GameHop

variable {α : Type}

open CheckM

/-- The number after that of a variable. -/
def Expr.next (x : String) : Expr :=
  .binary .nowhere (.arith .add) (.var x) (.ofNat 1)

theorem Expr.readable_var {x : String} (hx : Lexer.isName x = true) : (var x).Readable :=
  (readable_lookup _).2 hx

theorem Expr.readable_next {x : String} (hx : Lexer.isName x = true) : (next x).Readable :=
  (readable_binary _ _ _).2 ⟨nofun, readable_var hx, readable_int _⟩

/-! ## Facts of sources -/

theorem Fact.Stated.asRead {f : Fact} (h : f.Stated) : ∃ s : Statement, s.AsRead ∧ f = s.fact := by
  obtain ⟨source, d, s, hparse, hs, rfl⟩ := h
  obtain ⟨i, hi, his⟩ := List.mem_filterMap.1 hs
  have hread := Development.asRead_of_parse hparse i hi
  refine ⟨s, ?_, rfl⟩
  cases i with
  | proved t =>
    obtain rfl := Option.some.inj his
    exact hread.statement
  | assumed s =>
    obtain rfl := Option.some.inj his
    exact hread
  | imported _ | constant _ | function _ | postulate _ => cases his

theorem Fact.Stated.readable {f : Fact} (h : f.Stated) : f.Readable := by
  obtain ⟨s, hs, rfl⟩ := h.asRead
  exact ⟨hs.left.readable, hs.right.readable⟩

theorem Fact.Stated.isName {f : Fact} (h : f.Stated) {x : String} (hx : x ∈ f.vars) :
    Lexer.isName x = true := by
  obtain ⟨s, hs, rfl⟩ := h.asRead
  obtain ⟨p, hp, rfl⟩ := List.mem_map.1 hx
  exact hs.params p hp

/-! ## Calls for a number -/

/-- Up to parentheses, a call is determined by its function and the text of its argument. -/
theorem Expr.core_of_singleArgument? {e a b : Expr} (he : e.Readable) (hb : b.Readable)
    (h : e.singleArgument? = some a) (htext : a.text = b.text) :
    ∃ g, Lexer.isName g = true ∧
      ∀ σ, e.core σ = (call .nowhere (.plain g) [b]).core σ := by
  unfold singleArgument? at h
  split at h
  · rename_i s g a' hcall
    obtain rfl := Option.some.inj h
    have hread := he.unparen
    rw [hcall, readable_call] at hread
    refine ⟨g.name, hread.1, fun σ => ?_⟩
    have ha : a'.core σ = b.core σ := core_eq_of_text_eq (hread.2 a' (.head _)) hb htext σ
    rw [← core_unparen, hcall, core_call, core_call, List.map_singleton,
      List.map_singleton, ha]
    rfl
  · cases h

/-! ## What is checked -/

section
variable {location : Location} {c c' : Checker α}

theorem ends_hybridVariable {f : Fact} {x : String}
    (h : Ends (Proof.hybridVariable location f) c x c') :
    c = c' ∧ f.vars = [x] ∧ x ∉ f.distance.free ∧
      (∃ l, f.left.singleArgument? = some l ∧ l.text = x) ∧
      ∃ r, f.right.singleArgument? = some r ∧ r.text = (Expr.next x).text := by
  unfold Proof.hybridVariable at h
  split at h
  · rename_i y hvars
    split at h
    · exact (not_ends_fail h).elim
    · rename_i l hl
      obtain ⟨hltext, h⟩ := ends_guard h
      split at h
      · exact (not_ends_fail h).elim
      · rename_i r hr
        obtain ⟨hrtext, h⟩ := ends_guard h
        obtain ⟨hfree, h⟩ := ends_guard h
        obtain ⟨rfl, rfl⟩ := ends_pure h
        exact ⟨rfl, hvars, by simpa using hfree, ⟨l, hl, by simpa using hltext⟩,
          r, hr, by simpa [Expr.next] using hrtext⟩
  · exact (not_ends_fail h).elim

/-- **A hybrid argument goes from a call to a call.** If facts are those of sources and the step is
    accepted, its fact has a single variable, on which the bound does not depend; its left side calls a
    function for this variable, and its right side calls a function for the next number. The right side
    is the left side for the next number iff the functions are the same. -/
theorem Proof.hybrid_relates_calls {ctx : ProofContext α} {name : Ident} {start stop : Bound}
    (hc : c.FromSources) (h : Ends (Proof.hybrid ctx location name start stop) c () c') :
    ∃ f x g g', c.facts.lookup name.name = some f ∧ f.vars = [x] ∧ x ∉ f.distance.free ∧
      f.left.structurallyEqual (.call .nowhere (.plain g) [.var x]) = true ∧
      f.right.structurallyEqual (.call .nowhere (.plain g') [.next x]) = true ∧
      (f.right.structurallyEqual (f.left.substitute [(x, .next x)]) = true ↔ g' = g) := by
  unfold Proof.hybrid at h
  obtain ⟨f, _, hfact, h⟩ := ends_bind h
  obtain ⟨rfl, hlookup⟩ := lookup_of_factNamed hfact
  obtain ⟨x, _, hvariable, -⟩ := ends_bind h
  obtain ⟨rfl, hvars, hfree, ⟨l, hl, hltext⟩, r, hr, hrtext⟩ := ends_hybridVariable hvariable
  have hstated : f.Stated := hc _ (mem_of_lookup hlookup)
  have hread := hstated.readable
  have hx : Lexer.isName x = true := hstated.isName (by simp [hvars])
  obtain ⟨g, -, hleft⟩ := Expr.core_of_singleArgument? hread.left (Expr.readable_var hx) hl hltext
  obtain ⟨g', -, hright⟩ := Expr.core_of_singleArgument? hread.right (Expr.readable_next hx) hr hrtext
  refine ⟨f, x, g, g', hlookup, hvars, hfree, Expr.structurallyEqual_of_core (hleft []),
    Expr.structurallyEqual_of_core (hright []), ?_⟩
  have hnext : (f.left.substitute [(x, .next x)]).Readable :=
    Expr.readable_substitute (by simpa using Expr.readable_next hx) hread.left
  -- the variable of the left side becomes the argument of the right side
  have harg : (Expr.var x).core [(x, .next x)] = (Expr.next x).core [] := by
    have hget : Substitution.get? [(x, .next x)] x = some (.next x) := List.lookup_cons_self
    rw [Expr.var, Expr.core_lookup, Ident.plain, hget, Expr.core, Expr.substitute_nil]
  rw [Expr.structurallyEqual_iff_core hread.right hnext, Expr.core_nil_substitute, hleft, hright]
  simp [harg, Ident.plain, Ident.bare]

end

/-! ## Two sources -/

/-- A hybrid argument from `f(x)` to `g(x + 1)`, for a function `g`. -/
def Checker.hybridSource (g : String) : String :=
  "const n; function f(x); function g(x); assume Step(x): f(x) ~[adv] " ++ g ++ "(x + 1); " ++
  "theorem T(): f(0) ~[n * adv] f(n) \x7b hybrid(Step, 0, n); \x7d"

/-- The check of that source. -/
def Checker.checkHybrid (g : String) : CheckM (Location × Question) Unit :=
  Checker.checkSource ⟨.record, .empty "/", []⟩ ⟨"a.qvl", hybridSource g⟩

/-- The variables of the fact of that source, and whether its right side is the left side for the next
    number. -/
def Checker.hybridFact? (c : Checker (Location × Question)) : Option (List String × Bool) :=
  (c.facts.lookup "Step").map fun f =>
    (f.vars, f.right.structurallyEqual (f.left.substitute [("x", .next "x")]))

/-- The state with `f(0) ~ f(3)` for a goal. -/
def Checker.atHybrid (c : Checker (Location × Question)) : Checker (Location × Question) :=
  { c with obligations := ⟨[.goal (.ofFact ⟨.call .nowhere (.plain "f") [.ofNat 0],
    .call .nowhere (.plain "f") [.ofNat 3], [], .zero⟩)]⟩ }

theorem Proof.hybrid_relates_calls_same :
    ∃ c c' f g, Ends (Checker.checkHybrid "f") .start () c ∧
      Ends (Proof.hybrid ⟨⟨"a.qvl", ""⟩, .record⟩ (.detached "a.qvl") (.plain "Step")
        (.int .nowhere 0) (.int .nowhere 3)) c.atHybrid () c' ∧
      c.facts.lookup "Step" = some f ∧ f.vars = ["x"] ∧
      f.left.structurallyEqual (.call .nowhere (.plain g) [.var "x"]) = true ∧
      f.right.structurallyEqual (.call .nowhere (.plain g) [.next "x"]) = true := by
  let step : CheckM (Location × Question) Unit := Proof.hybrid ⟨⟨"a.qvl", ""⟩, .record⟩
    (.detached "a.qvl") (.plain "Step") (.int .nowhere 0) (.int .nowhere 3)
  have hrun : (fun r : Except CheckError Unit × Checker (Location × Question) =>
      (r.1.toOption, r.2.hybridFact?, (step.run.run r.2.atHybrid).1.toOption))
        ((Checker.checkHybrid "f").run.run .start) = (some (), some (["x"], true), some ()) := by
    decide +kernel
  obtain ⟨hcheck, hrest⟩ := Prod.mk.inj hrun
  obtain ⟨hfact, hstep⟩ := Prod.mk.inj hrest
  have hc := Checker.fromSources_checkSource ⟨.record, .empty "/", []⟩
    ⟨"a.qvl", Checker.hybridSource "f"⟩
  -- from here on it does not matter what the state is
  have hends := ends_of_toOption hcheck
  change (((Checker.checkHybrid "f").run.run .start).2).FromSources at hc
  generalize ((Checker.checkHybrid "f").run.run .start).2 = c at hends hfact hstep hc
  obtain ⟨f, hf, hpair⟩ := Option.map_eq_some_iff.1 hfact
  obtain ⟨hvars, hsame⟩ := Prod.mk.inj hpair
  obtain ⟨f', x, g, g', hf', hvars', -, hleft, hright, hiff⟩ :=
    Proof.hybrid_relates_calls (c := c.atHybrid) hc (ends_of_toOption hstep)
  obtain rfl : f = f' := Option.some.inj (hf.symm.trans hf')
  obtain rfl : x = "x" := List.head_eq_of_cons_eq (hvars'.symm.trans hvars)
  obtain rfl := hiff.1 hsame
  exact ⟨c, _, f, g', hends, ends_of_toOption hstep, hf, hvars, hleft, hright⟩

/-- The source is accepted for another function, too. -/
theorem Checker.checkHybrid_accepts_other :
    ∃ c f, Ends (checkHybrid "g") .start () c ∧ c.facts.lookup "Step" = some f ∧ f.vars = ["x"] ∧
      f.right.structurallyEqual (f.left.substitute [("x", .next "x")]) = false := by
  have hrun : (fun r : Except CheckError Unit × Checker (Location × Question) =>
      (r.1.toOption, r.2.hybridFact?)) ((checkHybrid "g").run.run .start) =
        (some (), some (["x"], false)) := by
    decide +kernel
  obtain ⟨hcheck, hfact⟩ := Prod.mk.inj hrun
  obtain ⟨f, hf, hpair⟩ := Option.map_eq_some_iff.1 hfact
  obtain ⟨hvars, hdiffer⟩ := Prod.mk.inj hpair
  exact ⟨_, f, ends_of_toOption hcheck, hf, hvars, hdiffer⟩

end GameHop
