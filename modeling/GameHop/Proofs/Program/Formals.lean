import GameHop.Proofs.Program.Sides
import GameHop.Proofs.Reading.Spelling
import GameHop.Proofs.Term.Variables

/-!
What the names of a method stand for in the procedure that calls it on both objects.
-/

namespace GameHop

/-- Whether a name is the parameter at a position, and none of those after it. -/
def Method.LastAt (m : Method) (x : String) (i : Nat) : Prop :=
  ∃ before after, m.paramNames = before ++ x :: after ∧ before.length = i ∧ x ∉ after

theorem Method.exists_lastAt {m : Method} {x : String} (h : x ∈ m.paramNames) :
    ∃ i, m.LastAt x i := by
  obtain ⟨after, before, hsplit, hx⟩ := List.eq_append_cons_of_mem (List.mem_reverse.2 h)
  refine ⟨before.reverse.length, before.reverse, after.reverse, ?_, rfl, by simpa using hx⟩
  rw [← List.reverse_reverse m.paramNames, hsplit]
  simp

theorem Method.LastAt.lt {m : Method} {x : String} {i : Nat} (h : m.LastAt x i) :
    i < m.params.length := by
  obtain ⟨before, after, hsplit, rfl, -⟩ := h
  have hlength := congrArg List.length hsplit
  simp only [paramNames, List.length_map, List.length_append, List.length_cons] at hlength
  omega

theorem Method.LastAt.eq {m : Method} {x y : String} {i : Nat} (hx : m.LastAt x i)
    (hy : m.LastAt y i) : x = y := by
  obtain ⟨before, after, hsplit, hlength, -⟩ := hx
  obtain ⟨before', after', hsplit', hlength', -⟩ := hy
  have h := List.append_inj (hsplit.symm.trans hsplit') (hlength.trans hlength'.symm)
  exact (List.cons.inj h.2).1

namespace Program

/-- The formal at a position. -/
def formal (i : Nat) : String :=
  "a" ++ toString i

theorem mem_sharedArguments {arity : Nat} {x : String} :
    x ∈ sharedArguments arity ↔ ∃ i < arity, x = formal i := by
  simp only [sharedArguments, List.mem_map, List.mem_range, formal, eq_comm]

/-- What the names of a method stand for when it gets shared arguments. -/
def sharedContext (env : Environment) (o : Object) (m : Method) (arity : Nat) : CodeContext :=
  ⟨env, Build.require env, methodVars "objectMemory" o m (sharedArguments arity)⟩

section
variable {env : Environment} {o : Object} {m : Method} {arity i : Nat} {x y : String}

theorem termOf_parameter (harity : m.params.length ≤ arity) (hx : m.LastAt x i) :
    (sharedContext env o m arity).termOf x = .name (formal i) := by
  have hi : i < (sharedArguments arity).length := by
    have hlt := hx.lt
    simp only [sharedArguments, List.length_map, List.length_range]
    omega
  obtain ⟨before, after, hsplit, rfl, hafter⟩ := hx
  -- the arguments are split where the parameters are
  have hargs : sharedArguments arity = (sharedArguments arity).take before.length ++
      formal before.length :: (sharedArguments arity).drop (before.length + 1) := by
    conv_lhs => rw [← List.take_append_drop before.length (sharedArguments arity),
      List.drop_eq_getElem_cons hi]
    simp only [sharedArguments, List.getElem_map, List.getElem_range, formal]
  have hlookup : (m.paramNames.zip ((sharedArguments arity).map Term.name)).reverse.lookup x =
      some (.name (formal before.length)) := by
    rw [hsplit, hargs, List.map_append, List.zip_append, List.map_cons, List.zip_cons_cons,
      List.reverse_append, List.reverse_cons, List.append_assoc, List.singleton_append,
      List.lookup_eq_some_iff]
    · refine ⟨_, _, rfl, ?_⟩
      rintro ⟨y, t⟩ hy
      rw [bne_iff_ne]
      rintro rfl
      exact hafter (List.of_mem_zip (List.mem_reverse.1 hy)).1
    · rw [List.length_map, List.length_take, Nat.min_eq_left (Nat.le_of_lt hi)]
  rw [CodeContext.termOf, sharedContext, methodVars, List.lookup_append, hlookup]
  rfl

theorem lookup_parameters_of_not_mem (hx : x ∉ m.paramNames) (params : List Term) :
    (m.paramNames.zip params).reverse.lookup x = none := by
  rw [List.lookup_eq_none_iff]
  rintro ⟨y, t⟩ hy
  rw [bne_iff_ne]
  rintro rfl
  exact hx (List.of_mem_zip (List.mem_reverse.1 hy)).1

theorem lookup_fieldVars (memory : String) (fields : List String) (x : String) :
    (fieldVars memory fields).lookup x =
      if x ∈ fields then some (.index (.name memory) (.name (fieldAttr x))) else none := by
  induction fields with
  | nil => rfl
  | cons f fs ih =>
    rw [fieldVars, List.map_cons, ← fieldVars, List.lookup_cons, ih]
    by_cases hx : x = f <;> simp [hx, beq_eq_false_iff_ne.2]

theorem termOf_field (hx : x ∉ m.paramNames) (hfield : x ∈ o.fieldNames) :
    (sharedContext env o m arity).termOf x =
      .index (.name "objectMemory") (.name (fieldAttr x)) := by
  rw [CodeContext.termOf, sharedContext, methodVars, List.lookup_append,
    lookup_parameters_of_not_mem hx, lookup_fieldVars, if_pos hfield]
  rfl

theorem termOf_other (hx : x ∉ m.paramNames) (hfield : x ∉ o.fieldNames) :
    (sharedContext env o m arity).termOf x = .name x := by
  rw [CodeContext.termOf, sharedContext, methodVars, List.lookup_append,
    lookup_parameters_of_not_mem hx, lookup_fieldVars, if_neg hfield]
  rfl

/-! ## Clashes -/

/-- Whether `x` is a parameter and `y` a name for itself that is spelled like the formal of `x`. -/
def Clash (o : Object) (m : Method) (x y : String) : Prop :=
  ∃ i, m.LastAt x i ∧ y = formal i ∧ y ∉ m.paramNames ∧ y ∉ o.fieldNames

theorem formal_injective : Function.Injective formal := by
  intro i j h
  rw [formal, formal] at h
  exact append_toString_injective "a" h

theorem fieldAttr_inj {x y : String} : fieldAttr x = fieldAttr y ↔ x = y :=
  String.append_right_inj "internal.attribute.field."

/-- The text of a field in a memory. -/
theorem fieldText (x : String) :
    (Term.index (.name "objectMemory") (.name (fieldAttr x))).text =
      "objectMemory[" ++ (fieldAttr x ++ "]") := by
  rw [Term.text, Term.text, Term.text]
  apply String.toList_injective
  simp only [String.toList_append, List.append_assoc]
  rfl

theorem fieldText_injective {x y : String}
    (h : "objectMemory[" ++ (fieldAttr x ++ "]") = "objectMemory[" ++ (fieldAttr y ++ "]")) :
    x = y := by
  rwa [String.append_right_inj, String.append_left_inj, fieldAttr_inj] at h

theorem fieldText_ne_formal (x : String) (i : Nat) :
    "objectMemory[" ++ (fieldAttr x ++ "]") ≠ formal i := by
  intro h
  have h := congrArg String.toList h
  simp [formal] at h

/-- No name holds a bracket. -/
theorem fieldText_ne_name (x : String) {y : String} (hy : Lexer.isName y = true) :
    "objectMemory[" ++ (fieldAttr x ++ "]") ≠ y := by
  rintro rfl
  have hbracket : Lexer.isIdentRest '[' = false := by decide
  rw [Lexer.isName, String.toList_append] at hy
  simp [hbracket] at hy

theorem Clash.text_eq (harity : m.params.length ≤ arity) (h : Clash o m x y) :
    ((sharedContext env o m arity).termOf x).text = ((sharedContext env o m arity).termOf y).text := by
  obtain ⟨i, hx, rfl, hparam, hfield⟩ := h
  rw [termOf_parameter harity hx, termOf_other hparam hfield]

/-- A name is a parameter, or else a field, or else stands for itself. -/
theorem parameter_or_field (o : Object) (m : Method) (x : String) :
    (∃ i, m.LastAt x i) ∨ (x ∉ m.paramNames ∧ x ∈ o.fieldNames) ∨
      (x ∉ m.paramNames ∧ x ∉ o.fieldNames) := by
  by_cases hparam : x ∈ m.paramNames
  · exact .inl (Method.exists_lastAt hparam)
  · exact .inr ((Classical.em (x ∈ o.fieldNames)).imp (⟨hparam, ·⟩) (⟨hparam, ·⟩))

/-- **Two names stand for the same text only if one is spelled like the formal of the other.** -/
theorem text_eq_iff_clash (harity : m.params.length ≤ arity) (hx : Lexer.isName x = true)
    (hy : Lexer.isName y = true) (hxy : x ≠ y) :
    ((sharedContext env o m arity).termOf x).text = ((sharedContext env o m arity).termOf y).text ↔
      Clash o m x y ∨ Clash o m y x := by
  refine ⟨fun h => ?_, fun h => h.elim (·.text_eq harity) fun h => (h.text_eq harity).symm⟩
  rcases parameter_or_field o m x with ⟨i, hxi⟩ | ⟨hxp, hxf⟩ | ⟨hxp, hxf⟩ <;>
    rcases parameter_or_field o m y with ⟨j, hyj⟩ | ⟨hyp, hyf⟩ | ⟨hyp, hyf⟩
  · rw [termOf_parameter harity hxi, termOf_parameter harity hyj] at h
    obtain rfl := formal_injective h
    exact (hxy (hxi.eq hyj)).elim
  · rw [termOf_parameter harity hxi, termOf_field hyp hyf, fieldText] at h
    exact (fieldText_ne_formal y i h.symm).elim
  · rw [termOf_parameter harity hxi, termOf_other hyp hyf] at h
    exact .inl ⟨i, hxi, h.symm, hyp, hyf⟩
  · rw [termOf_field hxp hxf, termOf_parameter harity hyj, fieldText] at h
    exact (fieldText_ne_formal x j h).elim
  · rw [termOf_field hxp hxf, termOf_field hyp hyf, fieldText, fieldText] at h
    exact (hxy (fieldText_injective h)).elim
  · rw [termOf_field hxp hxf, termOf_other hyp hyf, fieldText] at h
    exact (fieldText_ne_name x hy h).elim
  · rw [termOf_other hxp hxf, termOf_parameter harity hyj] at h
    exact .inr ⟨j, hyj, h, hxp, hxf⟩
  · rw [termOf_other hxp hxf, termOf_field hyp hyf, fieldText] at h
    exact (fieldText_ne_name y hx h.symm).elim
  · rw [termOf_other hxp hxf, termOf_other hyp hyf] at h
    exact (hxy h).elim

end

/-- **Formals stand for parameters, and for names that are spelled like them.** In the procedure of a
    method the code of each side is made with parameters for formals and fields for parts of the
    memory. Two names of a side stand for the same text if and only if one is a parameter and the
    other, neither a parameter nor a field, is spelled like its formal; and a name that is neither
    stands for a formal if and only if it is spelled like one. -/
theorem Bisimulation.formals_stand_for_parameters {env : Environment} {b : Bisimulation}
    {invariants : List Term} {name : String} {d d' : Draft} {p : Procedure}
    (h : (b.methodNamed env invariants name).run d = .ok (p, d')) :
    ∃ left right, b.left.method? name = some left ∧ b.right.method? name = some right ∧
      ∀ o m, (o, m) ∈ [(b.left, left), (b.right, right)] →
        let arity := max left.params.length right.params.length
        let ctx := sharedContext env o m arity
        (∃ c s s', (m.body.code ctx).run s = .ok (c, s') ∧ c.body <:+: p.body) ∧
        (∀ x y, Lexer.isName x = true → Lexer.isName y = true → x ≠ y →
          ((ctx.termOf x).text = (ctx.termOf y).text ↔ Clash o m x y ∨ Clash o m y x)) ∧
        ∀ x, x ∉ m.paramNames → x ∉ o.fieldNames →
          ((ctx.termOf x).text ∈ sharedArguments arity ↔ ∃ i < arity, x = formal i) := by
  obtain ⟨left, right, hleft, hright, hpair⟩ := ok_of_methodNamed h
  obtain ⟨l, r, d₁, d₂, before, handover, after, hl, hr, -, hbody⟩ := ok_of_methodPair hpair
  obtain ⟨sl, sl', hlcode⟩ := ok_of_methodCode hl
  obtain ⟨sr, sr', hrcode⟩ := ok_of_methodCode hr
  refine ⟨left, right, hleft, hright, fun o m hom => ?_⟩
  have hside : m.params.length ≤ max left.params.length right.params.length ∧
      ∃ c s s', (m.body.code (sharedContext env o m
        (max left.params.length right.params.length))).run s = .ok (c, s') ∧ c.body <:+: p.body := by
    rw [hbody]
    simp only [List.mem_cons, Prod.mk.injEq, List.not_mem_nil, or_false] at hom
    rcases hom with ⟨rfl, rfl⟩ | ⟨rfl, rfl⟩
    · refine ⟨Nat.le_max_left _ _, l.code, sl, sl', hlcode, before,
        handover ++ r.locals.defaults ++ r.code.body ++ after, ?_⟩
      simp only [List.append_assoc]
    · exact ⟨Nat.le_max_right _ _, r.code, sr, sr', hrcode,
        before ++ l.code.body ++ (handover ++ r.locals.defaults), after, rfl⟩
  refine ⟨hside.2, fun x y hx hy hxy => text_eq_iff_clash hside.1 hx hy hxy, fun x hparam hfield => ?_⟩
  rw [termOf_other hparam hfield, mem_sharedArguments]
  rfl

/-- The method `m(x, y) { y == a1 }` of an object with the field `k`: the text of `y` is that of
    `a1`, and `x`, `y` and `k` have different texts. -/
theorem Bisimulation.formals_stand_for_parameters_pair :
    let parameter := fun x => Param.mk .nowhere (.plain x) none
    let body := Expr.binary .nowhere (.compare .eq) (.lookup .nowhere (.plain "y"))
      (.lookup .nowhere (.plain "a1"))
    let m : Method := ⟨.nowhere, .plain "m", [parameter "x", parameter "y"], body⟩
    let o : Object := ⟨none, [⟨.nowhere, .plain "k", .int .nowhere 1⟩], [m]⟩
    let env := Environment.ofConstants ["a1"]
    let text := fun x => ((sharedContext env o m 2).termOf x).text
    (∃ p d', ((Bisimulation.mk o o none).methodNamed env [] "m").run (.start env) = .ok (p, d')) ∧
      text "y" = text "a1" ∧ text "x" ≠ text "y" ∧ text "x" ≠ text "k" ∧ text "y" ≠ text "k" := by
  intro parameter body m o env text
  have hrun : ∃ p d', ((Bisimulation.mk o o none).methodNamed env [] "m").run (.start env) =
      .ok (p, d') := ⟨_, _, rfl⟩
  obtain ⟨p, d', h⟩ := hrun
  obtain ⟨left, right, hleft, hright, hsides⟩ := Bisimulation.formals_stand_for_parameters h
  cases hleft
  cases hright
  obtain ⟨-, hclash, -⟩ := hsides o m (.head _)
  have hy : m.LastAt "y" 1 := ⟨["x"], [], rfl, rfl, List.not_mem_nil⟩
  have hparams : ∀ {x y}, x ∈ m.paramNames ∨ x ∈ o.fieldNames → y ∈ m.paramNames ∨ y ∈ o.fieldNames →
      ¬ (Clash o m x y ∨ Clash o m y x) := by
    rintro x y hx hy (⟨_, _, _, hp, hf⟩ | ⟨_, _, _, hp, hf⟩)
    · exact hy.elim hp hf
    · exact hx.elim hp hf
  refine ⟨⟨p, d', h⟩, ?_, ?_, ?_, ?_⟩
  · exact (hclash "y" "a1" (by decide) (by decide) (by decide)).2
      (.inl ⟨1, hy, by decide, by decide, by decide⟩)
  · exact mt (hclash "x" "y" (by decide) (by decide) (by decide)).1
      (hparams (.inl (by decide)) (.inl (by decide)))
  · exact mt (hclash "x" "k" (by decide) (by decide) (by decide)).1
      (hparams (.inl (by decide)) (.inr (by decide)))
  · exact mt (hclash "y" "k" (by decide) (by decide) (by decide)).1
      (hparams (.inl (by decide)) (.inr (by decide)))

/-- For the method `m(x) { x == a0 }`, where `a0` is a constant, the procedure compares the
    formal with itself. -/
theorem Bisimulation.constant_stands_for_formal :
    let parameter := Param.mk .nowhere (.plain "x") none
    let body := Expr.binary .nowhere (.compare .eq) (.lookup .nowhere (.plain "x"))
      (.lookup .nowhere (.plain "a0"))
    let b : Bisimulation := ⟨⟨none, [], [⟨.nowhere, .plain "m", [parameter], body⟩]⟩,
      ⟨none, [], [⟨.nowhere, .plain "m", [parameter], .bool .nowhere true⟩]⟩, none⟩
    let env := Environment.ofConstants ["a0"]
    ∃ p d', (b.methodNamed env [] "m").run (.start env) = .ok (p, d') ∧
      Stmt.keep "internal.r1" (.call "fromBitstring" [.call "fromBool"
        [.binary (.compare .eq) (.call "toBitstring" [.name "a0"])
          (.call "toBitstring" [.name "a0"])]]) ∈ p.body :=
  ⟨_, _, rfl, List.mem_of_getElem? (i := 5) rfl⟩

end Program

end GameHop
