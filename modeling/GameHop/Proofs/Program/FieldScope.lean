import GameHop.Proofs.Check.Scoping
import GameHop.Proofs.Program.NameUses
import GameHop.Proofs.Program.Sides

/-!
The scope of the initial values of an object. In a check of names each field is in scope in the
initial values after its own.
-/

namespace GameHop

open Program

/-! ## Scopes of initial values in a check -/

/-- The scope in which an initial value is checked: the frame of the object has the fields before it,
    and no variable of the initial value hides them. -/
theorem Expr.scope_of_field {functions : Functions} {pre post : List Field} {f : Field}
    {n n' : Naming} {g : ScopeFrame} {base : List ScopeFrame} (hn : n.scope.frames = g :: base)
    (h : (checkFields functions (pre ++ f :: post)).run.run n = (.ok (), n')) :
    ∃ n₁ n₂ top own, (f.value.check functions).run.run n₁ = (.ok (), n₂) ∧
      n₁.scope.frames = top :: own :: base ∧ (∀ x ∈ own.declared, x ∉ top.declared) ∧
      own.declared = g.declared ∪ {x | x ∈ pre.map (·.name.name)} := by
  have hf : (pre ++ f :: post)[pre.length]? = some f := by simp
  obtain ⟨n₁, n₂, hn₁, hcheck⟩ := (check_of_checkFields h).2 pre.length f hf
  rw [List.take_left] at hn₁
  obtain ⟨own, hown, hdeclared⟩ := Scope.frames_declareAll hn (pre.map (·.name.name)) .value
  let inner := (n.scope.declareAll (pre.map (·.name.name))).push .variables
  obtain ⟨top, htop, hlocals⟩ := Scope.frames_declareAll (s := inner) (Scope.frames_push _ _)
    (f.value.locals inner.declares) .value
  refine ⟨n₁, n₂, top, own, hcheck, ?_, fun x hx hx' => ?_, hdeclared⟩
  · rw [hn₁]
    exact htop.trans (congrArg (top :: ·) hown)
  · -- the variables of the initial value are names without a meaning
    rw [hlocals, ScopeFrame.declared_empty, Set.empty_union] at hx'
    have hnew := (List.mem_filter.1 (List.mem_eraseDups.1 hx')).2
    have hknown : inner.declares x = true :=
      Scope.declares_iff.2 ⟨own, List.mem_cons_of_mem _ (hown ▸ List.mem_cons_self), hx⟩
    simp [hknown] at hnew

/-! ## Code of initial values -/

namespace Program

/-- The context in which some names stand for other terms. -/
def CodeContext.extend (ctx : CodeContext) (earlier : List (String × Term)) : CodeContext :=
  { ctx with vars := earlier ++ ctx.vars }

/-- Whether a use of a name is the same outside an object as after the fields that were given the terms
    in `earlier`: a field that is read was given the variable of its own name, and no field is
    assigned. -/
def NameUse.Outer (ctx : CodeContext) (earlier : List (String × Term)) : NameUse → Prop
  | .read x => ∀ t, earlier.lookup x = some t → t = ctx.termOf x
  | .assigned x => earlier.lookup x = none

theorem NameUse.Outer.sameIn {ctx : CodeContext} {earlier : List (String × Term)} {u : NameUse}
    (h : u.Outer ctx earlier) : u.SameIn (ctx.extend earlier).vars ctx.vars := by
  cases u with
  | assigned x => rw [SameIn, CodeContext.extend, List.lookup_append, h, Option.none_or]
  | read x =>
    rw [SameIn, CodeContext.extend, List.lookup_append]
    cases hx : earlier.lookup x with
    | none => rw [Option.none_or]
    | some t => exact h t hx

/-- Whether code of an initial value is made outside its object. The fields before it, which were given
    the terms in `earlier`, are not in scope; it is the code with them in scope if every use of a name
    is the same outside. -/
def Code.MadeOutside (ctx : CodeContext) (earlier : List (String × Term)) (e : Expr) (c : Code) :
    Prop :=
  ∃ s s', (e.code ctx).run s = .ok (c, s') ∧
    ((∀ u ∈ e.nameUses, u.Outer ctx earlier) → (e.code (ctx.extend earlier)).run s = .ok (c, s'))

theorem Code.madeOutside {ctx : CodeContext} {e : Expr} {c : Code} {s s' : BodyState}
    (h : (e.code ctx).run s = .ok (c, s')) (earlier : List (String × Term)) :
    c.MadeOutside ctx earlier e := by
  refine ⟨s, s', h, fun houter => ?_⟩
  rw [← h]
  congr 1
  exact Expr.code_congr ctx _ e fun u hu => (houter u hu).sameIn

/-! ### Objects in expressions -/

section
variable {ctx : CodeContext} {pre post fs : List Field} {f : Field} {s s' : BodyState}

theorem ok_of_fieldCode_cons {body : List Stmt} {ts : List Term}
    (h : (Expr.fieldCode ctx (f :: fs)).run s = .ok ((body, ts), s')) :
    ∃ c t s₁ body' ts', (f.value.code ctx).run s = .ok (c, s₁) ∧ c.value.toValue = .ok t ∧
      (Expr.fieldCode ctx fs).run s₁ = .ok ((body', ts'), s') ∧ body = c.body ++ body' ∧
      ts = t :: ts' := by
  obtain ⟨_, _, value⟩ := f
  obtain ⟨c, s₁, hc, h⟩ := ok_of_bind h
  obtain ⟨t, ht, h⟩ := ok_of_lift_bind h
  obtain ⟨⟨body', ts'⟩, s₂, hfs, h⟩ := ok_of_bind h
  cases h
  exact ⟨c, t, s₁, body', ts', hc, ok_of_orInternal ht, hfs, rfl, rfl⟩

/-- The code and the term of an initial value. -/
theorem ok_of_fieldCode {body : List Stmt} {ts : List Term}
    (h : (Expr.fieldCode ctx (pre ++ f :: post)).run s = .ok ((body, ts), s')) :
    ∃ c t s₁ s₂, (f.value.code ctx).run s₁ = .ok (c, s₂) ∧ c.value.toValue = .ok t ∧
      ts[pre.length]? = some t ∧ c.body <:+: body := by
  induction pre generalizing s body ts with
  | nil =>
    obtain ⟨c, t, s₁, body', ts', hc, ht, -, rfl, rfl⟩ := ok_of_fieldCode_cons h
    exact ⟨c, t, s, s₁, hc, ht, rfl, (List.prefix_append _ _).isInfix⟩
  | cons p pre ih =>
    obtain ⟨c, t, s₁, body', ts', -, -, hpre, rfl, rfl⟩ := ok_of_fieldCode_cons h
    obtain ⟨d, u, s₂, s₃, hd, hu, hget, hbody⟩ := ih hpre
    exact ⟨d, u, s₂, s₃, hd, hu, hget, hbody.trans (List.suffix_append _ _).isInfix⟩

/-- An object is built from the terms of its initial values, after the code of all of them. -/
theorem ok_of_newCode {span : Span} {className : Option Ident} {methods : List Method} {c : Code}
    (h : ((Expr.new span ⟨className, fs, methods⟩).code ctx).run s = .ok (c, s')) :
    ∃ body args s₁ object cls rest, (Expr.fieldCode ctx fs).run s = .ok ((body, args), s₁) ∧
      c.body = body ++ .call object (cls ++ ".new") args :: rest := by
  obtain ⟨⟨body, args⟩, s₁, hfields, h⟩ := ok_of_bind h
  obtain ⟨built, s₂, hbuilt, h⟩ := ok_of_bind h
  cases h
  obtain ⟨_, _, hget, hbuilt⟩ := ok_of_bind hbuilt
  cases hget
  split at hbuilt
  · cases hbuilt
  · rename_i cls hcls
    obtain ⟨object, s₃, hobject, hbuilt⟩ := ok_of_bind hbuilt
    cases hbuilt
    exact ⟨body, args, s₁, object, cls, _, hfields, rfl⟩

end

/-! ### Objects of a bisimulation -/

/-- Gives a field its initial value. -/
def Stmt.fill (x : String) (t : Term) : Stmt :=
  .set (.index (.name "objectMemory") (.name (fieldAttr x))) t

section
variable {env : Environment} {locals locals' : Locals} {pre post fs : List Field} {f : Field}
  {d d' : Draft} {body : List Stmt} {labels : List String}

theorem Bisimulation.ok_of_fieldsCode_cons
    (h : (fieldsCode env locals (f :: fs)).run d = .ok ((body, labels, locals'), d')) :
    ∃ c t s s' body' labels' locals₁ d₁,
      (f.value.code ⟨env, Build.require env, []⟩).run s = .ok (c, s') ∧ c.value.toValue = .ok t ∧
      (fieldsCode env locals₁ fs).run d₁ = .ok ((body', labels', locals'), d') ∧
      body = c.body ++ .fill f.name.name t :: body' := by
  obtain ⟨c, d₁, hc, h⟩ := ok_of_bind h
  obtain ⟨t, ht, h⟩ := ok_of_lift_bind h
  obtain ⟨⟨body', labels', locals''⟩, d₂, hfs, h⟩ := ok_of_bind h
  cases h
  obtain ⟨s', hcode, -⟩ := ok_of_finishCode hc
  exact ⟨c.code, t, _, s', body', labels', _, d₁, hcode, ok_of_orInternal ht, hfs, rfl⟩

/-- The code and the term of an initial value, and the terms of the fields before it. -/
theorem Bisimulation.ok_of_fieldsCode
    (h : (fieldsCode env locals (pre ++ f :: post)).run d = .ok ((body, labels, locals'), d')) :
    ∃ c t s s' before after, ∃ earlier : List (String × Term),
      (f.value.code ⟨env, Build.require env, []⟩).run s = .ok (c, s') ∧ c.value.toValue = .ok t ∧
      body = before ++ (c.body ++ [.fill f.name.name t]) ++ after ∧
      earlier.map Prod.fst = pre.map (·.name.name) ∧
      ∀ p ∈ earlier, Stmt.fill p.1 p.2 ∈ before := by
  induction pre generalizing locals d body labels with
  | nil =>
    obtain ⟨c, t, s, s', body', labels', _, _, hc, ht, -, rfl⟩ := ok_of_fieldsCode_cons h
    exact ⟨c, t, s, s', [], body', [], hc, ht, by simp, rfl, by simp⟩
  | cons p pre ih =>
    obtain ⟨c, t, s, s', body', labels', _, _, -, -, hpre, rfl⟩ := ok_of_fieldsCode_cons h
    obtain ⟨e, u, s₁, s₂, before, after, earlier, he, hu, rfl, hnames, hfill⟩ := ih hpre
    refine ⟨e, u, s₁, s₂, c.body ++ .fill p.name.name t :: before, after, (p.name.name, t) :: earlier,
      he, hu, by simp, by rw [List.map_cons, List.map_cons, hnames], ?_⟩
    rw [List.forall_mem_cons]
    refine ⟨List.mem_append_right _ List.mem_cons_self, fun q hq => ?_⟩
    exact List.mem_append_right _ (List.mem_cons_of_mem _ (hfill q hq))

/-- The code that fills the fields of either object stands in the procedure that builds both. -/
theorem Bisimulation.ok_of_construction_fields {b : Bisimulation} {invariants : List Term}
    {p : Procedure} (h : (b.construction env invariants).run d = .ok (p, d'))
    (hfs : b.left.fields = fs ∨ b.right.fields = fs) :
    ∃ locals locals' d₁ d₂ body labels,
      (fieldsCode env locals fs).run d₁ = .ok ((body, labels, locals'), d₂) ∧ body <:+: p.body := by
  obtain ⟨leftBody, leftLabels, locals₁, d₁, rightBody, rightLabels, locals, d₂, after, hl, hr, -,
    hbody⟩ := ok_of_construction h
  rw [hbody]
  rcases hfs with rfl | rfl
  · refine ⟨_, _, _, _, leftBody, leftLabels, hl, locals.defaults ++ beforeObjects,
      betweenObjects ++ rightBody ++ after, ?_⟩
    simp only [List.append_assoc]
  · exact ⟨_, _, _, _, rightBody, rightLabels, hr, _, after, rfl⟩

end

end Program

/-- **Scopes of initial values.** Take an object literal that a check of names accepts, and a field `f`
    with the fields `pre` before it. The check of the initial value of `f` resolves a name to the object
    iff one of the fields `pre` has the name. But in an expression that builds the object, and in the
    procedure that builds the objects of a bisimulation, the code of the initial value is made
    outside the object. -/
theorem Expr.initial_values_scope {functions : Functions} {n n' : Naming} {span : Span}
    {className : Option Ident} {pre post : List Field} {f : Field} {methods : List Method}
    (h : ((Expr.new span ⟨className, pre ++ f :: post, methods⟩).check functions).run.run n =
      (.ok (), n')) :
    (∃ n₁ n₂ top own, (f.value.check functions).run.run n₁ = (.ok (), n₂) ∧
      n₁.scope.frames = top :: own :: n.scope.frames ∧ (∀ x ∈ own.declared, x ∉ top.declared) ∧
      ∀ x, x ∈ own.declared ↔ x ∈ pre.map (·.name.name)) ∧
    (∀ ctx s built s',
      ((Expr.new span ⟨className, pre ++ f :: post, methods⟩).code ctx).run s = .ok (built, s') →
      ∃ (c : Code) (t : Term) (body : List Stmt) (args : List Term) (object cls : String)
        (rest : List Stmt),
        built.body = body ++ .call object (cls ++ ".new") args :: rest ∧ c.body <:+: body ∧
        c.value.toValue = .ok t ∧ args[pre.length]? = some t ∧
        c.MadeOutside ctx ((pre.map (·.name.name)).zip args) f.value) ∧
    ∀ env (b : Bisimulation) invariants d p d',
      (b.construction env invariants).run d = .ok (p, d') →
      b.left.fields = pre ++ f :: post ∨ b.right.fields = pre ++ f :: post →
      ∃ (c : Code) (t : Term) (before after : List Stmt) (earlier : List (String × Term)),
        before ++ (c.body ++ [.fill f.name.name t]) ++ after <:+: p.body ∧
        c.value.toValue = .ok t ∧ earlier.map Prod.fst = pre.map (·.name.name) ∧
        (∀ q ∈ earlier, Stmt.fill q.1 q.2 ∈ before) ∧
        c.MadeOutside ⟨env, Build.require env, []⟩ earlier f.value := by
  refine ⟨?_, fun ctx s built s' hbuilt => ?_, fun env b invariants d p d' hp hfields => ?_⟩
  · obtain ⟨⟨⟩, _, hobject, -⟩ := ok_of_run_bind (x := NamingM.inFrame .variables _) h
    obtain ⟨-, _, hobject⟩ := NamingM.of_inFrame (Expr.spills_members _ _ _) hobject
    obtain ⟨⟨⟩, _, hcheck, -⟩ := ok_of_run_bind hobject
    obtain ⟨n₁, n₂, top, own, hvalue, hframes, hhidden, hown⟩ :=
      Expr.scope_of_field (n.scope.frames_push _) hcheck
    refine ⟨n₁, n₂, top, own, hvalue, hframes, hhidden, fun x => ?_⟩
    rw [hown]
    exact or_iff_right fun hx => by cases hx
  · obtain ⟨body, args, _, object, cls, rest, hcode, hbody⟩ := ok_of_newCode hbuilt
    obtain ⟨c, t, _, _, hc, ht, harg, hinfix⟩ := ok_of_fieldCode hcode
    exact ⟨c, t, body, args, object, cls, rest, hbody, hinfix, ht, harg, Code.madeOutside hc _⟩
  · obtain ⟨_, _, _, _, body, _, hcode, hinfix⟩ := Bisimulation.ok_of_construction_fields hp hfields
    obtain ⟨c, t, _, _, before, after, earlier, hc, ht, rfl, hnames, hfill⟩ :=
      Bisimulation.ok_of_fieldsCode hcode
    exact ⟨c, t, before, after, earlier, hinfix, ht, hnames, hfill, Code.madeOutside hc _⟩

/-- The object literal `new (k = k, j = k)` where `k` is a constant: the field `k` is given the constant,
    so reading the one or the other is the same. -/
theorem Expr.initial_values_scope_captured :
    let value := Expr.lookup .nowhere (.plain "k")
    let k : Field := ⟨.nowhere, .plain "k", value⟩
    let j : Field := ⟨.nowhere, .plain "j", value⟩
    let o : Object := ⟨none, [k, j], []⟩
    let env := Environment.ofConstants ["k"]
    let ctx : CodeContext := ⟨env, Build.require env, []⟩
    (∃ n', ((Expr.new .nowhere o).check env.functions).run.run ⟨env.scope, []⟩ = (.ok (), n')) ∧
    (∃ n₁ n₂ top own, (value.check env.functions).run.run n₁ = (.ok (), n₂) ∧
      n₁.scope.frames = top :: own :: env.scope.frames ∧ "k" ∈ own.declared ∧ "k" ∉ top.declared) ∧
    (∀ u ∈ value.nameUses, u.Outer ctx [("k", .name "k")]) ∧
    ∃ p d', ((Bisimulation.mk o o none).construction env []).run (.start env) = .ok (p, d') ∧
      ∃ (c : Code) (t : Term) (earlier : List (String × Term)), Stmt.fill "j" t ∈ p.body ∧
        earlier.map Prod.fst = ["k"] ∧ c.MadeOutside ctx earlier value := by
  intro value k j o env ctx
  have hcheck : ∃ n', ((Expr.new .nowhere o).check env.functions).run.run ⟨env.scope, []⟩ =
      (.ok (), n') := ⟨_, rfl⟩
  obtain ⟨n', h⟩ := hcheck
  obtain ⟨⟨n₁, n₂, top, own, hvalue, hframes, hhidden, hown⟩, -, hbisim⟩ :=
    @Expr.initial_values_scope _ _ _ _ _ [k] [] j _ h
  have hk : "k" ∈ own.declared := (hown "k").2 (.head _)
  refine ⟨⟨n', h⟩, ⟨n₁, n₂, top, own, hvalue, hframes, hk, hhidden "k" hk⟩, ?_, ?_⟩
  · rintro u (_ | ⟨_, ⟨⟩⟩) t ht
    exact (Option.some.inj ht).symm
  · obtain ⟨c, t, before, after, earlier, hbody, -, hnames, -, hmade⟩ :=
      hbisim env ⟨o, o, none⟩ [] (.start env) _ _ rfl (.inl rfl)
    have hfill : Stmt.fill "j" t ∈ before ++ (c.body ++ [.fill "j" t]) ++ after := by simp
    exact ⟨_, _, rfl, c, t, earlier, hbody.subset hfill, hnames, hmade⟩

/-- The object literal `new (k = 1, j = k)` is accepted where `k` is a constant. The `k` that is read is
    the field for the check and the constant in both codes. -/
theorem Expr.initial_value_reads_constant :
    let fields : List Field := [⟨.nowhere, .plain "k", .int .nowhere 1⟩,
      ⟨.nowhere, .plain "j", .lookup .nowhere (.plain "k")⟩]
    let e := Expr.new .nowhere ⟨none, fields, []⟩
    let env := Environment.ofConstants ["k"]
    let value := Term.call "fromBitstring" [.call "fromInt" [.int 1]]
    (∃ n', (e.check env.functions).run.run ⟨env.scope, []⟩ = (.ok (), n')) ∧
    (∃ d c s, (Build.declareAll env e).run (.start env) = .ok ((), d) ∧
      (e.code ⟨env, Build.require env, []⟩).run ⟨d, .empty, []⟩ = .ok (c, s) ∧
      ∃ object cls, c.body.head? = some (.call object (cls ++ ".new") [value, .name "k"])) ∧
    ∃ p d', ((Bisimulation.mk ⟨none, fields, []⟩ ⟨none, fields, []⟩ none).construction env []).run
        (.start env) = .ok (p, d') ∧
      [.fill "k" value, .fill "j" (.name "k")] <:+: p.body := by
  exact ⟨⟨_, rfl⟩, ⟨_, _, _, rfl, rfl, _, _, rfl⟩, _, _, rfl, Bisimulation.beforeObjects,
    Bisimulation.betweenObjects ++ [.fill "k" _, .fill "j" (.name "k")] ++ saveSide "2", rfl⟩

end GameHop
