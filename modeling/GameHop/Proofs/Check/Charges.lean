import GameHop.Proofs.Check.Hybrid

/-!
What hybrid arguments cost. A hybrid argument charges, at each place, the difference of its two
numbers times the cost of a single step (`RewriteStep.HybridFrom`).
-/

namespace GameHop

variable {α : Type}

open CheckM

/-! ## Instances of bounds -/

/-- The instance of a bound where a rule was applied, with the program around that place put first into
    its advantages. -/
def Bound.instanceAt (s : Substitution) (context : Option Expr) (b : Bound) :
    Except InternalFault Bound := do
  let b ← b.substitute s
  return context.elim b fun c => b.inContext c

theorem Bound.instanceAt_binary {s : Substitution} {context : Option Expr} {span : Span}
    {op : BoundOp} {a b d : Bound} (h : (binary span op a b).instanceAt s context = .ok d) :
    ∃ a' b', a.instanceAt s context = .ok a' ∧ b.instanceAt s context = .ok b' ∧
      d = .binary span op a' b' := by
  obtain ⟨_, hsubstitute, h⟩ := except_bind_eq_ok h
  rw [substitute] at hsubstitute
  obtain ⟨a', ha, hsubstitute⟩ := except_bind_eq_ok hsubstitute
  obtain ⟨b', hb, hsubstitute⟩ := except_bind_eq_ok hsubstitute
  obtain rfl := Except.ok.inj hsubstitute
  obtain rfl := Except.ok.inj h
  simp only [instanceAt, ha, hb]
  cases context with
  | none => exact ⟨a', b', rfl, rfl, rfl⟩
  | some c => exact ⟨a'.inContext c, b'.inContext c, rfl, rfl, rfl⟩

/-- What a step charges is the instance of what the rule costs. -/
theorem Rule.Rewrites.instanceAt {rule : Rule} {t t' : Expr} {site : Site}
    (h : rule.Rewrites t site t') : ∃ s : Substitution, (∀ p ∈ s, p.1 ∈ rule.vars) ∧
      rule.distance.instanceAt s site.step.context = .ok site.step.distance := by
  obtain ⟨node, s, d, -, -, hmatch, hd, -, hroot, hinner⟩ := h
  refine ⟨s, Matching.keys_of_solve hmatch, ?_⟩
  rw [Bound.instanceAt, hd]
  by_cases hpath : site.path = []
  · rw [hroot hpath]
    rfl
  · obtain ⟨c, -, hstep⟩ := hinner hpath
    rw [hstep]
    rfl

section
variable {s : Substitution}

mutual

/-- A bound that is an expression has no advantages, so only its names count for its instances. -/
theorem Bound.fixed_of_toExpr : ∀ (b : Bound) {e : Expr}, b.toExpr = .ok e →
    (∀ x ∈ b.free, s.get? x = none) → b.substitute s = .ok b ∧ ∀ context, b.inContext context = b
  | .int _ _, _, _, _ => ⟨rfl, fun _ => rfl⟩
  | .lookup _ x, _, _, hs => by
    have hx : s.get? x.name = none := hs x.name (List.mem_singleton.2 rfl)
    exact ⟨by rw [substitute, hx], fun _ => rfl⟩
  | .paren _ b, _, h, hs => by
    obtain ⟨_, hb, -⟩ := except_bind_eq_ok h
    obtain ⟨hsub, hcontext⟩ := b.fixed_of_toExpr hb hs
    exact ⟨by rw [substitute, hsub]; rfl, fun c => by rw [inContext, hcontext]⟩
  | .call _ f args, _, h, hs => by
    obtain ⟨_, hargs, -⟩ := except_bind_eq_ok h
    obtain ⟨hsub, hcontext⟩ := fixedList_of_toExpr args hargs hs
    exact ⟨by rw [substitute, hsub]; rfl, fun c => by rw [inContext, hcontext]⟩
  | .env _ _, _, h, _ => by cases h
  | .binary _ op a b, _, h, hs => by
    rw [toExpr] at h
    split at h
    · cases h
    · obtain ⟨_, ha, h⟩ := except_bind_eq_ok h
      obtain ⟨_, hb, -⟩ := except_bind_eq_ok h
      rw [free, List.forall_mem_append] at hs
      obtain ⟨hsuba, hcontexta⟩ := a.fixed_of_toExpr ha hs.1
      obtain ⟨hsubb, hcontextb⟩ := b.fixed_of_toExpr hb hs.2
      exact ⟨by rw [substitute, hsuba, hsubb]; rfl,
        fun c => by rw [inContext, hcontexta, hcontextb]⟩

theorem Bound.fixedList_of_toExpr : ∀ (bs : List Bound) {es : List Expr},
    toExprList bs = .ok es → (∀ x ∈ freeList bs, s.get? x = none) →
    substituteList s bs = .ok bs ∧ ∀ context, inContextList context bs = bs
  | [], _, _, _ => ⟨rfl, fun _ => rfl⟩
  | b :: bs, _, h, hs => by
    obtain ⟨_, hb, h⟩ := except_bind_eq_ok h
    obtain ⟨_, hbs, -⟩ := except_bind_eq_ok h
    rw [freeList, List.forall_mem_append] at hs
    obtain ⟨hsub, hcontext⟩ := b.fixed_of_toExpr hb hs.1
    obtain ⟨hsubs, hcontexts⟩ := fixedList_of_toExpr bs hbs hs.2
    exact ⟨by rw [substituteList, hsub, hsubs]; rfl,
      fun c => by rw [inContextList, hcontext, hcontexts]⟩

end

theorem Bound.instanceAt_of_toExpr {b b' : Bound} {e : Expr} {context : Option Expr} {x : String}
    (hb : b.toExpr = .ok e) (hs : ∀ p ∈ s, p.1 = x) (hx : x ∉ b.free)
    (h : b.instanceAt s context = .ok b') : b' = b := by
  have hkeys : ∀ p ∈ s, p.1 ∈ [x] := fun p hp => List.mem_singleton.2 (hs p hp)
  have hnone : ∀ y ∈ b.free, s.get? y = none := fun y hy =>
    Substitution.get?_of_not_mem hkeys fun hyx => hx (List.mem_singleton.1 hyx ▸ hy)
  obtain ⟨hsub, hcontext⟩ := b.fixed_of_toExpr hb hnone
  rw [instanceAt, hsub] at h
  obtain rfl := Except.ok.inj h
  cases context with
  | none => rfl
  | some c => exact hcontext c

end

/-! ## Charges -/

/-- What a hybrid argument with a fact charges at a place: it goes from `a` to `b` there, and each of
    its steps costs `d`. The two numbers are the given ones, unless they speak of the variable of the
    fact. -/
structure RewriteStep.HybridFrom (step : RewriteStep) (f : Fact) (x : String) (start stop : Bound)
    (a b d : Bound) : Prop where
  instances : ∃ s : Substitution, (∀ p ∈ s, p.1 = x) ∧
    start.instanceAt s step.context = .ok a ∧ stop.instanceAt s step.context = .ok b ∧
    f.distance.instanceAt s step.context = .ok d
  start_eq : x ∉ start.free → a = start
  stop_eq : x ∉ stop.free → b = stop
  distance_eq : step.distance = (b.sub a).mul d

theorem abs_mul_le_mul_iff {n d : ℚ} (hd : 0 ≤ d) : |n| * d ≤ n * d ↔ 0 ≤ n ∨ d = 0 := by
  constructor
  · intro h
    rcases hd.eq_or_lt with rfl | hd
    · exact .inr rfl
    · exact .inl ((abs_nonneg n).trans (le_of_mul_le_mul_right h hd))
  · rintro (hn | rfl)
    · rw [abs_of_nonneg hn]
    · simp

section
variable {f : Fact} {x : String} {start stop a b d : Bound} {step : RewriteStep}

theorem RewriteStep.HybridFrom.value (h : step.HybridFrom f x start stop a b d) (v : Valuation) :
    v.value step.distance = (v.value b - v.value a) * v.value d := by
  rw [h.distance_eq]
  rfl

/-- **A hybrid argument charges enough iff it goes up**, or its steps cost nothing. -/
theorem RewriteStep.HybridFrom.charges_iff (h : step.HybridFrom f x start stop a b d)
    {v : Valuation} (hd : 0 ≤ v.value d) :
    |v.value b - v.value a| * v.value d ≤ v.value step.distance ↔
      v.value a ≤ v.value b ∨ v.value d = 0 := by
  rw [h.value, abs_mul_le_mul_iff hd, sub_nonneg]

end

section
variable {location : Location} {c c' : Checker α} {ctx : ProofContext α} {name : Ident}
  {start stop : Bound}

/-- A hybrid argument that is accepted, by its rule. -/
theorem ends_hybrid (h : Ends (Proof.hybrid ctx location name start stop) c () c') :
    ∃ f x p q, c.facts.lookup name.name = some f ∧ f.vars = [x] ∧ start.toExpr = .ok p ∧
      stop.toExpr = .ok q ∧ ∃ place unused, Ends (Proof.applyRule location
        ⟨f.left.substitute [(x, p)], [x], f.left.substitute [(x, q)],
          (stop.sub start).mul f.distance, true⟩ place unused) c () c' := by
  unfold Proof.hybrid at h
  obtain ⟨f, _, hfact, h⟩ := ends_bind h
  obtain ⟨rfl, hlookup⟩ := lookup_of_factNamed hfact
  obtain ⟨x, _, hvariable, h⟩ := ends_bind h
  obtain ⟨rfl, hvars, -⟩ := ends_hybridVariable hvariable
  obtain ⟨p, _, hstart, h⟩ := ends_bind h
  obtain ⟨hp, rfl⟩ := ends_internal hstart
  obtain ⟨q, _, hstop, h⟩ := ends_bind h
  obtain ⟨hq, rfl⟩ := ends_internal hstop
  rw [hvars] at h
  exact ⟨f, x, p, q, hlookup, hvars, hp, hq, _, _, h⟩

/-- At each place, the rule of a hybrid argument charges for the way between its two numbers. -/
theorem hybridFrom_of_derives {f : Fact} {x : String} {p q l r t t' : Expr} {inMethods : Bool}
    {sites : List Site} (hp : start.toExpr = .ok p) (hq : stop.toExpr = .ok q)
    (h : Rule.Derives ⟨l, [x], r, (stop.sub start).mul f.distance, inMethods⟩ t sites t') :
    ∀ site ∈ sites, ∃ a b d, site.step.HybridFrom f x start stop a b d := by
  intro site hsite
  obtain ⟨u, u', hstep⟩ := h.rewrites site hsite
  obtain ⟨s, hs, hinstance⟩ := hstep.instanceAt
  have hs : ∀ p ∈ s, p.1 = x := fun p hp => List.mem_singleton.1 (hs p hp)
  obtain ⟨way, d, hway, hd, hdistance⟩ := Bound.instanceAt_binary hinstance
  obtain ⟨b, a, hb, ha, rfl⟩ := Bound.instanceAt_binary hway
  exact ⟨a, b, d, ⟨s, hs, ha, hb, hd⟩, fun hx => Bound.instanceAt_of_toExpr hp hs hx ha,
    fun hx => Bound.instanceAt_of_toExpr hq hs hx hb, hdistance⟩

/-- **What a hybrid argument charges.** An argument that is accepted rewrites at least one place, and
    the distance of its goal grows by the sum of what it charges at each. There it charges no less than
    the number of steps between its two numbers times the cost of a step iff it goes up or a step costs
    nothing. If it goes up everywhere and steps cost nothing or more, it does not lower the distance. -/
theorem Proof.hybrid_charges (h : Ends (Proof.hybrid ctx location name start stop) c () c') :
    ∃ f x p q g g' rest, ∃ sites : List Site,
      c.facts.lookup name.name = some f ∧ f.vars = [x] ∧
      start.toExpr = .ok p ∧ stop.toExpr = .ok q ∧
      c.obligations.stack = .goal g :: rest ∧ c'.obligations.stack = .goal g' :: rest ∧
      sites ≠ [] ∧ Rule.Derives ⟨f.left.substitute [(x, p)], [x], f.left.substitute [(x, q)],
        (stop.sub start).mul f.distance, true⟩ g.left sites g'.left ∧
      ∀ v : Valuation,
        v.value g'.distance =
          v.value g.distance + (sites.map fun site => v.value site.step.distance).sum ∧
        (∀ site ∈ sites, ∃ a b d, site.step.HybridFrom f x start stop a b d ∧
          (0 ≤ v.value d → (|v.value b - v.value a| * v.value d ≤ v.value site.step.distance ↔
            v.value a ≤ v.value b ∨ v.value d = 0))) ∧
        ((∀ site ∈ sites, ∀ a b d, site.step.HybridFrom f x start stop a b d →
          v.value a ≤ v.value b ∧ 0 ≤ v.value d) → v.value g.distance ≤ v.value g'.distance) := by
  obtain ⟨f, x, p, q, hlookup, hvars, hp, hq, place, unused, happly⟩ := ends_hybrid h
  obtain ⟨g, rest, steps, d, hstack, hsteps, hne, rfl, hvalue⟩ := ends_applyRule happly
  obtain ⟨st, sites, rfl, htraversal⟩ := Rule.traversal_of_rewrite hsteps
  have hcharges := hybridFrom_of_derives hp hq htraversal.derives
  refine ⟨f, x, p, q, g, _, rest, sites, hlookup, hvars, hp, hq, hstack, rfl, by simpa using hne,
    htraversal.derives, fun v => ?_⟩
  have hsum : v.value d =
      v.value g.distance + (sites.map fun site => v.value site.step.distance).sum := by
    rw [hvalue, List.map_map]
    rfl
  refine ⟨hsum, fun site hsite => ?_, fun hup => ?_⟩
  · obtain ⟨a, b, d, hfrom⟩ := hcharges site hsite
    exact ⟨a, b, d, hfrom, fun hd => hfrom.charges_iff hd⟩
  · have hnonneg : ∀ r ∈ sites.map fun site => v.value site.step.distance, 0 ≤ r := by
      refine List.forall_mem_map.2 fun site hsite => ?_
      obtain ⟨a, b, d, hfrom⟩ := hcharges site hsite
      obtain ⟨hle, hd⟩ := hup site hsite a b d hfrom
      rw [hfrom.value]
      exact mul_nonneg (sub_nonneg.2 hle) hd
    show v.value g.distance ≤ v.value d
    rw [hsum]
    exact le_add_of_nonneg_right (List.sum_nonneg hnonneg)

end

/-! ## Up and down -/

/-- Everything is worth one. -/
def Valuation.ones : Valuation :=
  ⟨fun _ => 1, fun _ _ => 1, fun _ _ => 1, fun _ => 1⟩

/-- What the goals of a state cost so far. -/
def Checker.goalValues (v : Valuation) (c : Checker α) : List (Option ℚ) :=
  c.obligations.stack.map fun
    | .goal g => some (v.value g.distance)
    | .builder _ => none

/-- **From `f(0)` to `f(3)`** at a cost of three steps. -/
theorem Proof.hybrid_charges_three :
    ∃ c c' f g g', ∃ sites : List Site, Ends (Checker.checkHybrid "f") .start () c ∧
      Ends (Proof.hybrid ⟨⟨"a.qvl", ""⟩, .record⟩ (.detached "a.qvl") (.plain "Step")
        (.int .nowhere 0) (.int .nowhere 3)) c.atHybrid () c' ∧
      c.facts.lookup "Step" = some f ∧
      c.atHybrid.obligations.stack = [.goal g] ∧ c'.obligations.stack = [.goal g'] ∧ sites ≠ [] ∧
      Valuation.ones.value g'.distance = 3 ∧
      Valuation.ones.value g'.distance = Valuation.ones.value g.distance +
        (sites.map fun site => Valuation.ones.value site.step.distance).sum ∧
      ∀ site ∈ sites, ∃ a b d,
        site.step.HybridFrom f "x" (.int .nowhere 0) (.int .nowhere 3) a b d := by
  let step : CheckM (Location × Question) Unit := Proof.hybrid ⟨⟨"a.qvl", ""⟩, .record⟩
    (.detached "a.qvl") (.plain "Step") (.int .nowhere 0) (.int .nowhere 3)
  have hrun : (fun r : Except CheckError Unit × Checker (Location × Question) =>
      (r.1.toOption, r.2.hybridFact?, (step.run.run r.2.atHybrid).1.toOption,
        (step.run.run r.2.atHybrid).2.goalValues .ones))
        ((Checker.checkHybrid "f").run.run .start) =
          (some (), some (["x"], true), some (), [some 3]) := by
    decide +kernel
  obtain ⟨hcheck, hrest⟩ := Prod.mk.inj hrun
  obtain ⟨hfact, hrest⟩ := Prod.mk.inj hrest
  obtain ⟨hstep, hvalues⟩ := Prod.mk.inj hrest
  -- from here on it does not matter what the state is
  have hends := ends_of_toOption hcheck
  generalize ((Checker.checkHybrid "f").run.run .start).2 = c at hends hfact hstep hvalues
  have hhybrid := ends_of_toOption hstep
  generalize (step.run.run c.atHybrid).2 = c' at hhybrid hvalues
  obtain ⟨f, x, p, q, g, g', rest, sites, hlookup, hvars, -, -, hstack, hstack', hne, -, hcharges⟩ :=
    Proof.hybrid_charges hhybrid
  obtain ⟨hsum, hsites, -⟩ := hcharges .ones
  obtain ⟨f', hf', hpair⟩ := Option.map_eq_some_iff.1 hfact
  obtain rfl : f' = f := Option.some.inj (hf'.symm.trans hlookup)
  obtain rfl : x = "x" := List.head_eq_of_cons_eq (hvars.symm.trans (Prod.mk.inj hpair).1)
  obtain rfl : [] = rest := (List.cons.inj hstack).2
  have hthree : Valuation.ones.value g'.distance = 3 := by
    simpa [Checker.goalValues, hstack'] using hvalues
  refine ⟨c, c', f', g, g', sites, hends, hhybrid, hlookup, hstack, hstack', hne, hthree, hsum, ?_⟩
  intro site hsite
  obtain ⟨a, b, d, hfrom, -⟩ := hsites site hsite
  exact ⟨a, b, d, hfrom⟩

/-- A hybrid argument from one number to another, in a theorem that costs nothing. -/
def Checker.walkSource (start stop : String) : String :=
  "function f(x); assume Step(x): f(x) ~[adv] f(x + 1); theorem T(): f(" ++ start ++ ") ~ f(" ++
  stop ++ ") \x7b hybrid(Step, " ++ start ++ ", " ++ stop ++ "); \x7d"

/-- The check of that source. -/
def Checker.checkWalk (start stop : String) : CheckM (Location × Question) Unit :=
  Checker.checkSource ⟨.record, .empty "/", []⟩ ⟨"a.qvl", walkSource start stop⟩

/-- The values of the two bounds of a question. -/
def Question.boundValues? (v : Valuation) : Question → Option (ℚ × ℚ)
  | .within actual required => some (v.value actual, v.value required)
  | _ => none

/-- **An argument that goes down charges less than nothing.** With the steps from `f(x)` to `f(x + 1)`
    at the cost `adv`, the theorem that `f(1)` and `f(0)` are at distance zero is proved, and it remains
    to be shown that minus `adv` is at most zero. -/
theorem Checker.walk_down_undercharges :
    ∃ c, Ends (checkWalk "1" "0") .start () c ∧ (c.facts.lookup "T").isSome = true ∧
      c.answers.map (fun a => a.2.boundValues? .ones) = [some (-1, 0)] := by
  have hrun : (fun r : Except CheckError Unit × Checker (Location × Question) =>
      (r.1.toOption, (r.2.facts.lookup "T").isSome,
        r.2.answers.map fun a => a.2.boundValues? .ones))
        ((checkWalk "1" "0").run.run .start) = (some (), true, [some (-1, 0)]) := by
    decide +kernel
  obtain ⟨hcheck, hrest⟩ := Prod.mk.inj hrun
  obtain ⟨hfact, hanswers⟩ := Prod.mk.inj hrest
  exact ⟨_, ends_of_toOption hcheck, hfact, hanswers⟩

end GameHop
