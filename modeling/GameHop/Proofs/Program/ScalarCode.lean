import GameHop.Proofs.Program.Evaluation
import GameHop.Proofs.Program.Runs
import GameHop.Proofs.Reading.Spelling
import GameHop.Proofs.Term.Variables

/-!
The code of scalar expressions. Code is made for every scalar expression over variables that hold
values, and running it does what late evaluation does.
-/

namespace GameHop

open Program

/-! ## Temporary variables -/

theorem Lexer.isName_tmp (n : Nat) : isName ("internal.tmp" ++ toString n) = false := by
  have hdot : isIdentRest '.' = false := by decide
  simp [isName, hdot]

/-- A declaration leaves a name its type or gives it the declared one. -/
theorem Scope.typeOf?_declare_or (s : Scope) (x y : String) (ty : Ty) :
    (s.declare x ty).typeOf? y = s.typeOf? y ∨ (s.declare x ty).typeOf? y = some ty := by
  obtain ⟨frames⟩ := s
  cases frames with
  | nil => exact .inl rfl
  | cons f fs =>
    simp only [declare, typeOf?, ScopeFrame.declare, ScopeFrame.typeOf?,
      List.findSome?_cons, lookup_insertEntry]
    by_cases hy : y = x
    · exact .inr (by rw [if_pos hy])
    · exact .inl (by rw [if_neg hy])

namespace Program

/-- A temporary variable is new and no variable of a source text. -/
theorem Locals.fresh_spec (l : Locals) (sort : String) :
    (l.fresh sort).1 ∉ l.names ∧ Lexer.isName (l.fresh sort).1 = false ∧
      (l.fresh sort).1 ∈ (l.fresh sort).2.names ∧ l.names ⊆ (l.fresh sort).2.names := by
  obtain ⟨hfree, n, hn⟩ := freshName_spec "internal.tmp" l.names
  refine ⟨hfree, ?_, ?_, ?_⟩
  · exact (congrArg Lexer.isName hn).trans (Lexer.isName_tmp n)
  · simp [fresh, names]
  · intro x hx
    simp only [names, fresh, List.map_append, List.mem_append]
    exact .inl hx

/-! ## Steps of a body -/

/-- Whether a variable holds a value, as those without a type do. -/
def BodyState.HoldsValue (s : BodyState) (x : String) : Prop :=
  s.draft.scope.typeOf? x = none ∨ s.draft.scope.typeOf? x = some .value

instance (s : BodyState) (x : String) : Decidable (s.HoldsValue x) :=
  inferInstanceAs (Decidable (_ ∨ _))

/-- Whether one state of a body may come after another. -/
structure BodyState.Leads (s s' : BodyState) : Prop where
  names : s.locals.names ⊆ s'.locals.names
  holds : ∀ x, s.HoldsValue x → s'.HoldsValue x

theorem BodyState.Leads.refl (s : BodyState) : s.Leads s :=
  ⟨fun _ h => h, fun _ h => h⟩

theorem BodyState.Leads.trans {s₁ s₂ s₃ : BodyState} (h : s₁.Leads s₂) (h' : s₂.Leads s₃) :
    s₁.Leads s₃ :=
  ⟨fun _ hx => h'.names (h.names hx), fun x hx => h'.holds x (h.holds x hx)⟩

/-- Whether a state is one that comes after another and has a new temporary variable. -/
structure BodyState.Gains (s s' : BodyState) (tmp : String) : Prop where
  leads : s.Leads s'
  fresh : tmp ∉ s.locals.names
  mem : tmp ∈ s'.locals.names
  isName : Lexer.isName tmp = false

namespace BuildBody

theorem makes_valueTemp (s : BodyState) : Makes valueTemp s fun x s' => s.Gains s' x := by
  obtain ⟨hfree, hname, hmem, hsub⟩ := s.locals.fresh_spec TermSort.value.name
  exact ⟨_, _, rfl, ⟨hsub, fun _ h => h⟩, hfree, hmem, hname⟩

theorem makes_declareLocal (x : String) (s : BodyState) :
    Makes (declareLocal x) s fun _ s' => s.Leads s' := by
  refine ⟨_, _, rfl, fun y hy => ?_, fun _ h => h⟩
  simp only [Locals.declare]
  split
  · exact hy
  · simpa [Locals.names] using .inl (by simpa [Locals.names] using hy)

theorem makes_declareValue (x : String) (s : BodyState) :
    Makes (onDraft (Build.declare x .value)) s fun _ s' => s.Leads s' := by
  refine ⟨_, _, rfl, fun _ h => h, fun y hy => ?_⟩
  rcases s.draft.scope.typeOf?_declare_or x y .value with h | h
  · exact hy.imp (h.trans ·) (h.trans ·)
  · exact .inr h

end BuildBody

/-! ## Stores -/

section
variable {I : Interpretation} {σ τ υ : Store I}

/-- Whether two stores have the same values of all variables of source texts. -/
def Store.SameVars (σ τ : Store I) : Prop :=
  ∀ x, Lexer.isName x = true → σ x = τ x

/-- Whether two stores have the same values of all temporary variables of a body. -/
def Store.SameTemps (s : BodyState) (σ τ : Store I) : Prop :=
  ∀ x ∈ s.locals.names, Lexer.isName x = false → τ x = σ x

theorem Store.SameTemps.refl {s : BodyState} : Store.SameTemps s σ σ :=
  fun _ _ _ => rfl

theorem Store.SameTemps.trans {s : BodyState} (h : Store.SameTemps s σ τ)
    (h' : Store.SameTemps s τ υ) : Store.SameTemps s σ υ :=
  fun x hx hname => (h' x hx hname).trans (h x hx hname)

theorem Store.SameTemps.of_leads {s s' : BodyState} (h : Store.SameTemps s' σ τ)
    (hs : s.Leads s') : Store.SameTemps s σ τ :=
  fun x hx hname => h x (hs.names hx) hname

theorem Store.SameVars.update_temp (h : Store.SameVars σ τ) {x : String}
    (hx : Lexer.isName x = false) (v : I.Val) : Store.SameVars σ (Function.update τ x v) := by
  intro y hy
  rw [h y hy, Function.update_of_ne]
  rintro rfl
  rw [hx] at hy
  cases hy

theorem Store.SameVars.update (h : Store.SameVars σ τ) (x : String) (v : I.Val) :
    Store.SameVars (Function.update σ x v) (Function.update τ x v) := by
  intro y hy
  by_cases hxy : y = x
  · rw [hxy, Function.update_self, Function.update_self]
  · rw [Function.update_of_ne hxy, Function.update_of_ne hxy, h y hy]

theorem Store.SameTemps.update_of_not_mem {s : BodyState} (h : Store.SameTemps s σ τ) {x : String}
    (hx : x ∉ s.locals.names) (v : I.Val) : Store.SameTemps s σ (Function.update τ x v) := by
  intro y hy hname
  rw [Function.update_of_ne, h y hy hname]
  rintro rfl
  exact hx hy

theorem Store.SameTemps.update_of_isName {s : BodyState} (h : Store.SameTemps s σ τ) {x : String}
    (hx : Lexer.isName x = true) (v : I.Val) : Store.SameTemps s σ (Function.update τ x v) := by
  intro y hy hname
  rw [Function.update_of_ne, h y hy hname]
  rintro rfl
  rw [hx] at hname
  cases hname

end

end Program

/-! ## Code -/

/-- Whether running the code from `τ` does what late evaluation does from `σ`: both end with the same
    variables, the code keeps the temporary variables that there were, and its term stands for the
    value that is to be read, in all stores with the temporary variables of the end. -/
structure Program.Code.Runs {I : Interpretation} (c : Code) (e : Expr) (s s' : BodyState)
    (σ τ : Store I) (f : Pending I) (σ' τ' : Store I) : Prop where
  late : e.late I σ = some (f, σ')
  exec : Stmt.execList I c.body τ = some τ'
  vars : Store.SameVars σ' τ'
  temps : Store.SameTemps s τ τ'
  value : ∀ σ'' τ'', Store.SameVars σ'' τ'' → Store.SameTemps s' τ' τ'' → c.value.Denotes τ'' (f σ'')

/-- Whether code that is made from `s` on, up to `s'`, does what late evaluation does. -/
structure Program.Code.Follows (c : Code) (e : Expr) (s s' : BodyState) : Prop where
  leads : s.Leads s'
  scalar : c.value.IsScalar
  runs : ∀ (I : Interpretation) (σ τ : Store I), Store.SameVars σ τ →
    ∃ f σ' τ', c.Runs e s s' σ τ f σ' τ'

/-- Whether the variables of an expression are locals: names of source texts that stand for
    themselves and hold values. -/
def Expr.OverLocals (ctx : CodeContext) (s : BodyState) (e : Expr) : Prop :=
  ∀ x ∈ e.variables, Lexer.isName x = true ∧ ctx.vars.lookup x = none ∧ s.HoldsValue x

instance (ctx : CodeContext) (s : BodyState) (e : Expr) : Decidable (e.OverLocals ctx s) :=
  inferInstanceAs (Decidable (∀ x ∈ e.variables, _ ∧ (ctx.vars.lookup x = none) ∧ _))

section
variable {ctx : CodeContext} {s s' : BodyState} {e a : Expr}

theorem Expr.OverLocals.after (h : e.OverLocals ctx s) (hs : s.Leads s') : e.OverLocals ctx s' :=
  fun x hx => ⟨(h x hx).1, (h x hx).2.1, hs.holds x (h x hx).2.2⟩

theorem Expr.OverLocals.child (h : e.OverLocals ctx s) (ha : a ∈ e.children) : a.OverLocals ctx s :=
  fun x hx => h x (mem_variables_of_child ha hx)

theorem Program.CodeContext.termOf_local {x : String} (h : ctx.vars.lookup x = none) :
    ctx.termOf x = .name x := by
  rw [CodeContext.termOf, h]
  rfl

end

/-! ## One rule for each constructor -/

namespace Program.Code

section
variable {I : Interpretation} {c ca cb : Code} {e a b : Expr} {s s₁ s₂ : BodyState}
  {σ σ₁ σ₂ τ τ₁ τ₂ : Store I} {f g : Pending I}

/-- The value at the end of the run. -/
theorem Runs.value_now (h : c.Runs e s s₁ σ τ f σ₁ τ₁) : c.value.Denotes τ₁ (f σ₁) :=
  h.value σ₁ τ₁ h.vars .refl

theorem Runs.exec_append (ha : ca.Runs a s s₁ σ τ f σ₁ τ₁) (hb : cb.Runs b s₁ s₂ σ₁ τ₁ g σ₂ τ₂) :
    Stmt.execList I (ca.body ++ cb.body) τ = some τ₂ := by
  rw [Stmt.execList_append_of_eq ha.exec, hb.exec]

theorem Runs.temps_append (ha : ca.Runs a s s₁ σ τ f σ₁ τ₁) (hb : cb.Runs b s₁ s₂ σ₁ τ₁ g σ₂ τ₂)
    (hs : s.Leads s₁) : Store.SameTemps s τ τ₂ :=
  ha.temps.trans (hb.temps.of_leads hs)

/-- A run that ends with keeping its value in a temporary variable. -/
theorem Runs.exec_keep (h : c.Runs e s s₁ σ τ f σ₁ τ₁) {t : Term} {tmp : String}
    (ht : t.eval I τ₁ = some (.value (f σ₁))) :
    Stmt.execList I (c.body ++ [.keep tmp t]) τ = some (Function.update τ₁ tmp (f σ₁)) := by
  rw [Stmt.execList_append_of_eq h.exec, Stmt.execList_singleton, Stmt.exec_keep ht]

end

section
variable {c ca cb cc : Code} {e a b q : Expr} {s s₁ s₂ s₃ s₄ : BodyState} {sp : Span}

theorem Follows.paren (he : c.Follows e s s₁) : c.Follows (.paren sp none e) s s₁ := by
  refine ⟨he.leads, he.scalar, fun I σ τ hστ => ?_⟩
  obtain ⟨f, σ', τ', hf⟩ := he.runs I σ τ hστ
  exact ⟨f, σ', τ', hf.late, hf.exec, hf.vars, hf.temps, hf.value⟩

theorem Follows.seq (ha : ca.Follows a s s₁) (hb : cb.Follows b s₁ s₂) :
    (Code.mk (ca.body ++ cb.body) cb.value).Follows (.seq sp a b) s s₂ := by
  refine ⟨ha.leads.trans hb.leads, hb.scalar, fun I σ τ hστ => ?_⟩
  obtain ⟨f, σ₁, τ₁, hf⟩ := ha.runs I σ τ hστ
  obtain ⟨g, σ₂, τ₂, hg⟩ := hb.runs I σ₁ τ₁ hf.vars
  refine ⟨g, σ₂, τ₂, ?_, hf.exec_append hg, hg.vars, hf.temps_append hg ha.leads, hg.value⟩
  simp [Expr.late, hf.late, hg.late]

theorem Follows.assign {x : Ident} (he : c.Follows e s s₁) (hx : Lexer.isName x.name = true)
    {t : Term} (ht : c.value.ReadBy t fun _ v => .value v) (hs : s₁.Leads s₂) :
    (Code.mk (c.body ++ [.assign (.name x.name) t]) c.value).Follows (.assign sp x e) s s₂ := by
  refine ⟨he.leads.trans hs, he.scalar, fun I σ τ hστ => ?_⟩
  obtain ⟨f, σ₁, τ₁, hf⟩ := he.runs I σ τ hστ
  refine ⟨f, Function.update σ₁ x.name (f σ₁), Function.update τ₁ x.name (f σ₁), ?_, ?_,
    hf.vars.update _ _, hf.temps.update_of_isName hx _, fun σ'' τ'' hvars htemps => ?_⟩
  · simp [Expr.late, hf.late]
  · rw [Stmt.execList_append_of_eq hf.exec, Stmt.execList_singleton,
      Stmt.exec_assign (ht I τ₁ _ hf.value_now)]
  · refine hf.value σ'' τ'' hvars (Store.SameTemps.trans ?_ (htemps.of_leads hs))
    exact Store.SameTemps.refl.update_of_isName hx _

/-- What a temporary variable keeps can be read as long as the temporary variables are the same. -/
theorem denotes_kept {I : Interpretation} {τ τ' : Store I} {tmp : String} {v : I.Val}
    (htmp : s₁.Gains s₂ tmp) (hs : s₂.Leads s₃)
    (htemps : Store.SameTemps s₃ (Function.update τ tmp v) τ') :
    (Value.ofName .value tmp).Denotes τ' v := by
  have hv := htemps tmp (hs.names htmp.mem) htmp.isName
  rw [Function.update_self] at hv
  exact ⟨.value (τ' tmp), rfl, rfl, hv⟩

theorem Follows.ternary (hq : cc.Follows q s s₁) {tmp : String} (htmp : s₁.Gains s₂ tmp)
    (ha : ca.Follows a s₂ s₃) (hb : cb.Follows b s₃ s₄) {test ta tb : Term}
    (htest : cc.value.ReadBy test fun I v => .bool (I.truth v))
    (hta : ca.value.ReadBy ta fun _ v => .value v) (htb : cb.value.ReadBy tb fun _ v => .value v) :
    (Code.mk (cc.body ++ [.ifElse test (ca.body ++ [.keep tmp ta]) (cb.body ++ [.keep tmp tb])])
      (.ofName .value tmp)).Follows (.ternary sp q a b) s s₄ := by
  have hleads : s.Leads s₂ := hq.leads.trans htmp.leads
  have hfresh : tmp ∉ s.locals.names := fun h => htmp.fresh (hq.leads.names h)
  refine ⟨hleads.trans (ha.leads.trans hb.leads), .inl rfl, fun I σ τ hστ => ?_⟩
  obtain ⟨f, σ₁, τ₁, hf⟩ := hq.runs I σ τ hστ
  have hexec : ∀ yes no, Stmt.execList I (cc.body ++ [.ifElse test yes no]) τ =
      Stmt.execList I (if I.truth (f σ₁) then yes else no) τ₁ := by
    intro yes no
    rw [Stmt.execList_append_of_eq hf.exec, Stmt.execList_singleton,
      Stmt.exec_ifElse (htest I τ₁ _ hf.value_now)]
  cases hcase : I.truth (f σ₁) with
  | true =>
    obtain ⟨g, σ₂, τ₂, hg⟩ := ha.runs I σ₁ τ₁ hf.vars
    refine ⟨fun _ => g σ₂, σ₂, Function.update τ₂ tmp (g σ₂), ?_, ?_,
      hg.vars.update_temp htmp.isName _, ?_, fun _ _ _ => denotes_kept htmp (ha.leads.trans hb.leads)⟩
    · simp [Expr.late, hf.late, hcase, hg.late]
    · rw [hexec, hcase]
      exact hg.exec_keep (hta I τ₂ _ hg.value_now)
    · exact (hf.temps.trans (hg.temps.of_leads hleads)).update_of_not_mem hfresh _
  | false =>
    obtain ⟨g, σ₂, τ₂, hg⟩ := hb.runs I σ₁ τ₁ hf.vars
    refine ⟨fun _ => g σ₂, σ₂, Function.update τ₂ tmp (g σ₂), ?_, ?_,
      hg.vars.update_temp htmp.isName _, ?_, fun _ _ _ => denotes_kept htmp (ha.leads.trans hb.leads)⟩
    · simp [Expr.late, hf.late, hcase, hg.late]
    · rw [hexec, hcase]
      exact hg.exec_keep (htb I τ₂ _ hg.value_now)
    · exact (hf.temps.trans (hg.temps.of_leads (hleads.trans ha.leads))).update_of_not_mem hfresh _

theorem Follows.logic {op : LogicOp} (ha : ca.Follows a s s₁) {tmp : String}
    (htmp : s₁.Gains s₂ tmp) (hb : cb.Follows b s₂ s₃) {test ta tb : Term}
    (htest : ca.value.ReadBy test fun I v => .bool (I.goesOn op v))
    (hta : ca.value.ReadBy ta fun _ v => .value v) (htb : cb.value.ReadBy tb fun _ v => .value v) :
    (Code.mk (ca.body ++ [.keep tmp ta, .ifThen test (cb.body ++ [.keep tmp tb])])
      (.ofName .value tmp)).Follows (.binary sp (.logic op) a b) s s₃ := by
  have hleads : s.Leads s₂ := ha.leads.trans htmp.leads
  have hfresh : tmp ∉ s.locals.names := fun h => htmp.fresh (ha.leads.names h)
  refine ⟨hleads.trans hb.leads, .inl rfl, fun I σ τ hστ => ?_⟩
  obtain ⟨f, σ₁, τ₁, hf⟩ := ha.runs I σ τ hστ
  -- the test is made with the value of the left operand in the temporary variable
  let τ₁' := Function.update τ₁ tmp (f σ₁)
  have hvars : Store.SameVars σ₁ τ₁' := hf.vars.update_temp htmp.isName _
  have htemps : Store.SameTemps s τ τ₁' := hf.temps.update_of_not_mem hfresh _
  have htest : test.eval I τ₁' = some (.bool (I.goesOn op (f σ₁))) :=
    htest I τ₁' _ (hf.value σ₁ τ₁' hvars (Store.SameTemps.refl.update_of_not_mem htmp.fresh _))
  have hexec : ∀ body, Stmt.execList I (ca.body ++ [.keep tmp ta, .ifThen test body]) τ =
      if I.goesOn op (f σ₁) then Stmt.execList I body τ₁' else some τ₁' := by
    intro body
    rw [Stmt.execList_append_of_eq hf.exec, Stmt.execList,
      Stmt.exec_keep (hta I τ₁ _ hf.value_now), Option.bind_some, Stmt.execList_singleton,
      Stmt.exec_ifThen htest]
  cases hcase : I.goesOn op (f σ₁) with
  | true =>
    obtain ⟨g, σ₂, τ₂, hg⟩ := hb.runs I σ₁ τ₁' hvars
    refine ⟨fun _ => g σ₂, σ₂, Function.update τ₂ tmp (g σ₂), ?_, ?_,
      hg.vars.update_temp htmp.isName _, ?_, fun _ _ _ => denotes_kept htmp hb.leads⟩
    · simp [Expr.late, hf.late, hcase, hg.late]
    · rw [hexec, hcase]
      exact hg.exec_keep (htb I τ₂ _ hg.value_now)
    · exact (htemps.trans (hg.temps.of_leads hleads)).update_of_not_mem hfresh _
  | false =>
    refine ⟨fun _ => f σ₁, σ₁, τ₁', ?_, ?_, hvars, htemps,
      fun _ _ _ => denotes_kept htmp hb.leads⟩
    · simp [Expr.late, hf.late, hcase]
    · rw [hexec, hcase]
      rfl

theorem Follows.not (he : c.Follows e s s₁) {t : Term}
    (ht : c.value.ReadBy t fun I v => .bool (I.truth v)) :
    (Code.mk c.body ⟨.boolean, .not t⟩).Follows (.unary sp .not e) s s₁ := by
  refine ⟨he.leads, .inr (.inr (.inr rfl)), fun I σ τ hστ => ?_⟩
  obtain ⟨f, σ₁, τ₁, hf⟩ := he.runs I σ τ hστ
  refine ⟨fun υ => I.ofTruth !I.truth (f υ), σ₁, τ₁, ?_, hf.exec, hf.vars, hf.temps,
    fun σ'' τ'' hvars htemps => ⟨.bool !I.truth (f σ''), ?_, rfl, rfl⟩⟩
  · simp [Expr.late, hf.late]
  · simp [Term.eval, ht I τ'' _ (hf.value σ'' τ'' hvars htemps)]

/-- The terms of both operands are read together, after the code of both. -/
theorem Follows.operator (ha : ca.Follows a s s₁) (hb : cb.Follows b s₁ s₂) {v : Value}
    (hv : v.IsScalar) (k : ∀ I : Interpretation, I.Val → I.Val → I.Val)
    (hk : ∀ (I : Interpretation) (τ : Store I) x y, ca.value.Denotes τ x → cb.value.Denotes τ y →
      v.Denotes τ (k I x y))
    (hlate : ∀ (I : Interpretation) {σ σ₁ σ₂ : Store I} {f g : Pending I},
      a.late I σ = some (f, σ₁) → b.late I σ₁ = some (g, σ₂) →
        e.late I σ = some (fun τ => k I (f τ) (g τ), σ₂)) :
    (Code.mk (ca.body ++ cb.body) v).Follows e s s₂ := by
  refine ⟨ha.leads.trans hb.leads, hv, fun I σ τ hστ => ?_⟩
  obtain ⟨f, σ₁, τ₁, hf⟩ := ha.runs I σ τ hστ
  obtain ⟨g, σ₂, τ₂, hg⟩ := hb.runs I σ₁ τ₁ hf.vars
  refine ⟨fun υ => k I (f υ) (g υ), σ₂, τ₂, hlate I hf.late hg.late, hf.exec_append hg, hg.vars,
    hf.temps_append hg ha.leads, fun σ'' τ'' hvars htemps => ?_⟩
  refine hk I τ'' _ _ (hf.value σ'' τ'' hvars ?_) (hg.value σ'' τ'' hvars htemps)
  exact hg.temps.trans (htemps.of_leads hb.leads)

end

end Program.Code

/-- **Code for a scalar expression is made, and does what late evaluation does.** -/
theorem Expr.follows_code {ctx : CodeContext} {e : Expr} (he : e.Scalar) (s : BodyState)
    (hvars : e.OverLocals ctx s) : Makes (e.code ctx) s fun c s' => c.Follows e s s' := by
  induction he generalizing s with
  | int _ n =>
    refine .done ⟨.refl s, .inr (.inr (.inl rfl)), fun I σ τ hστ => ?_⟩
    refine ⟨_, σ, τ, rfl, rfl, hστ, .refl, fun _ _ _ _ => ?_⟩
    exact ⟨.int n.toNat, rfl, rfl, rfl⟩
  | bool _ b =>
    refine .done ⟨.refl s, .inr (.inr (.inr rfl)), fun I σ τ hστ => ?_⟩
    refine ⟨_, σ, τ, rfl, rfl, hστ, .refl, fun _ _ _ _ => ?_⟩
    exact ⟨.bool b, rfl, rfl, rfl⟩
  | lookup sp x =>
    obtain ⟨hname, hlookup, hvalue⟩ := hvars x.name (List.mem_singleton_self _)
    have hsort : ((s.draft.scope.typeOf? x.name).map TermSort.ofTy).getD .value = .value := by
      rcases hvalue with h | h <;> rw [h] <;> rfl
    have hrun : ((lookup sp x).code ctx).run s =
        .ok (⟨[], ((s.draft.scope.typeOf? x.name).map TermSort.ofTy).getD .value, ctx.termOf x.name⟩,
          s) := rfl
    rw [hsort, CodeContext.termOf_local hlookup] at hrun
    refine ⟨_, s, hrun, .refl s, .inl rfl, fun I σ τ hστ => ?_⟩
    refine ⟨_, σ, τ, rfl, rfl, hστ, .refl, fun σ'' τ'' hvars _ => ?_⟩
    exact ⟨.value (τ'' x.name), rfl, rfl, (hvars x.name hname).symm⟩
  | paren _ _ ih =>
    obtain ⟨c, s', hc, he⟩ := ih s (hvars.child (.head _))
    exact ⟨c, s', hc, he.paren⟩
  | seq _ _ _ iha ihb =>
    refine (iha s (hvars.child (.head _))).bind fun ca s₁ ha => ?_
    refine (ihb s₁ ((hvars.child (.tail _ (.head _))).after ha.leads)).bind fun cb s₂ hb => ?_
    exact .done (ha.seq hb)
  | assign _ x _ ih =>
    obtain ⟨hname, hlookup, -⟩ := hvars x.name (by simp)
    refine (ih s (hvars.child (.head _))).bind fun c s₁ he => ?_
    rw [CodeContext.termOf_local hlookup, hlookup]
    refine (BuildBody.makes_declareLocal x.name s₁).bind fun _ s₂ hleads₁ => ?_
    refine .coercing (Value.reads_toValue he.scalar) fun t hread => ?_
    refine (BuildBody.makes_declareValue x.name s₂).bind fun _ s₃ hleads₂ => ?_
    exact .done (he.assign hname hread (hleads₁.trans hleads₂))
  | ternary _ _ _ _ ihc iha ihb =>
    refine (ihc s (hvars.child (.head _))).bind fun cc s₁ hc => ?_
    refine (BuildBody.makes_valueTemp s₁).bind fun tmp s₂ hgains => ?_
    have hs₂ : s.Leads s₂ := hc.leads.trans hgains.leads
    refine .coercing (Value.reads_toBoolean hc.scalar) fun test htest => ?_
    refine (iha s₂ ((hvars.child (.tail _ (.head _))).after hs₂)).bind fun ca s₃ ha => ?_
    refine .coercing (Value.reads_toValue ha.scalar) fun ta hta => ?_
    refine (ihb s₃ ((hvars.child (.tail _ (.tail _ (.head _)))).after
      (hs₂.trans ha.leads))).bind fun cb s₄ hb => ?_
    refine .coercing (Value.reads_toValue hb.scalar) fun tb htb => ?_
    exact .done (hc.ternary hgains ha hb htest hta htb)
  | not _ _ ih =>
    refine (ih s (hvars.child (.head _))).bind fun c s₁ he => ?_
    refine .coercing (Value.reads_toBoolean he.scalar) fun t hread => ?_
    exact .done (he.not hread)
  | binary _ op _ _ iha ihb =>
    have iha := iha s (hvars.child (.head _))
    have ihb := fun s₁ hs => ihb s₁ ((hvars.child (.tail _ (.head _))).after hs)
    cases op with
    | logic op =>
      refine iha.bind fun ca s₁ ha => ?_
      refine .coercing (Value.reads_toBoolean ha.scalar) fun truth htruth => ?_
      refine (BuildBody.makes_valueTemp s₁).bind fun tmp s₂ hgains => ?_
      refine .coercing (Value.reads_toValue ha.scalar) fun ta hta => ?_
      refine (ihb s₂ (ha.leads.trans hgains.leads)).bind fun cb s₃ hb => ?_
      refine .coercing (Value.reads_toValue hb.scalar) fun tb htb => ?_
      cases op with
      | and => exact .done (ha.logic hgains hb htruth hta htb)
      | or =>
        have hnot : ca.value.ReadBy (.not truth) fun I v => .bool (I.goesOn .or v) := by
          intro I τ v hv
          simp [Term.eval, htruth I τ v hv, Interpretation.goesOn]
        exact .done (ha.logic hgains hb hnot hta htb)
    | compare op =>
      refine iha.bind fun ca s₁ ha => ?_
      refine (ihb s₁ ha.leads).bind fun cb s₂ hb => ?_
      obtain ⟨l, r, hl, hr, hread⟩ := Value.compares_comparisonSort op ha.scalar hb.scalar
      refine .coerced hl (.coerced hr ?_)
      refine .done (ha.operator hb (.inr (.inr (.inr rfl)))
        (fun I v w => I.ofTruth (I.compare op v w)) ?_ ?_)
      · intro I τ x y hx hy
        exact ⟨_, hread I τ x y hx hy, rfl, rfl⟩
      · intro I σ σ₁ σ₂ f g hf hg
        simp [late, hf, hg]
    | arith op =>
      refine iha.bind fun ca s₁ ha => ?_
      refine (ihb s₁ ha.leads).bind fun cb s₂ hb => ?_
      refine .coercing (Value.reads_toInteger ha.scalar) fun l hl => ?_
      refine .coercing (Value.reads_toInteger hb.scalar) fun r hr => ?_
      refine .done (ha.operator hb (.inr (.inr (.inl rfl)))
        (fun I v w => I.ofInteger (I.arith op (I.int v) (I.int w))) ?_ ?_)
      · intro I τ x y hx hy
        refine ⟨.int (I.arith op (I.int x) (I.int y)), ?_, rfl, rfl⟩
        simp [Term.eval, hl I τ x hx, hr I τ y hy]
      · intro I σ σ₁ σ₂ f g hf hg
        simp [late, hf, hg]

/-! ## Order of evaluation -/

/-- **Code evaluates what is in order from left to right.** Code for a scalar expression over locals
    is made. From every store it ends as late evaluation does, whatever the prelude means; and if the
    expression is in order, its value and the variables at its end are those of evaluation from left
    to right. -/
theorem Expr.code_evaluates_in_order {ctx : CodeContext} {e : Expr} (he : e.Scalar) (s : BodyState)
    (hvars : e.OverLocals ctx s) :
    ∃ c s' t, (e.code ctx).run s = .ok (c, s') ∧ c.value.toValue = .ok t ∧
      ∀ (I : Interpretation) (σ : Store I), ∃ τ, Stmt.execList I c.body σ = some τ ∧
        (∃ f σ', e.late I σ = some (f, σ') ∧ t.eval I τ = some (.value (f σ')) ∧
          Store.SameVars σ' τ) ∧
        (e.InOrder true → ∃ v σ', e.eval I σ = some (v, σ') ∧ t.eval I τ = some (.value v) ∧
          Store.SameVars σ' τ) := by
  obtain ⟨c, s', hc, hfollows⟩ := Expr.follows_code he s hvars
  obtain ⟨t, ht, hread⟩ := Value.reads_toValue hfollows.scalar
  refine ⟨c, s', t, hc, ht, fun I σ => ?_⟩
  obtain ⟨f, σ', τ, hrun⟩ := hfollows.runs I σ σ fun _ _ => rfl
  have hvalue := hread I τ _ hrun.value_now
  refine ⟨τ, hrun.exec, ⟨f, σ', hrun.late, hvalue, hrun.vars⟩, fun horder => ?_⟩
  obtain ⟨v, f', σ₁, halike⟩ := Expr.late_eq_eval he horder σ
  obtain ⟨rfl, rfl⟩ : f' = f ∧ σ₁ = σ' := by
    have hlate := halike.late.symm.trans hrun.late
    rwa [Option.some.injEq, Prod.mk.injEq] at hlate
  rw [halike.read rfl] at hvalue
  exact ⟨v, σ₁, halike.eval, hvalue, hrun.vars⟩

/-- `x = x + 1; (x & (y = x * 2)) + x`, from a store where all variables are `1`. -/
theorem Expr.code_evaluates_in_order_sum :
    let x := Expr.lookup .nowhere (.plain "x")
    let step := Expr.assign .nowhere (.plain "x")
      (.binary .nowhere (.arith .add) x (.int .nowhere 1))
    let double := Expr.assign .nowhere (.plain "y")
      (.binary .nowhere (.arith .mul) x (.int .nowhere 2))
    let e := Expr.seq .nowhere step
      (.binary .nowhere (.arith .add) (.binary .nowhere (.logic .and) x double) x)
    ∃ c s' t, (e.code ⟨.ofConstants [], fun _ => pure (), []⟩).run
        ⟨.start (.ofConstants []), .empty, []⟩ = .ok (c, s') ∧ c.value.toValue = .ok t ∧
      ∃ τ : Store .integers, Stmt.execList .integers c.body (fun _ => 1) = some τ ∧
        t.eval .integers τ = some (.value (6 : Int)) ∧ τ "x" = (2 : Int) ∧ τ "y" = (4 : Int) := by
  intro x step double e
  have hscalar : e.Scalar :=
    .seq _ (.assign _ _ (.binary _ _ (.lookup _ _) (.int _ _)))
      (.binary _ _ (.binary _ _ (.lookup _ _)
        (.assign _ _ (.binary _ _ (.lookup _ _) (.int _ _)))) (.lookup _ _))
  have hvars : e.OverLocals ⟨.ofConstants [], fun _ => pure (), []⟩
      ⟨.start (.ofConstants []), .empty, []⟩ := by decide
  obtain ⟨c, s', t, hc, ht, hrun⟩ := Expr.code_evaluates_in_order hscalar _ hvars
  obtain ⟨τ, hτ, -, heval⟩ := hrun .integers fun _ => (1 : Int)
  obtain ⟨v, σ', hv, hvalue, hsame⟩ :=
    heval (by simp [e, x, step, double, Expr.InOrder, Expr.pending, Expr.assigned, Ident.plain])
  cases hv
  exact ⟨c, s', t, hc, ht, τ, hτ, hvalue, (hsame "x" (by decide)).symm, (hsame "y" (by decide)).symm⟩

/-- In `x + (x = 2)` the operand on the left is read after the assignment: from a store where `x` is
    `1` the code gives `4`, and evaluation from left to right gives `3`. -/
theorem Expr.code_reads_operand_late :
    let e := Expr.binary .nowhere (.arith .add) (.lookup .nowhere (.plain "x"))
      (.paren .nowhere none (.assign .nowhere (.plain "x") (.int .nowhere 2)))
    (∃ c s' t, (e.code ⟨.ofConstants [], fun _ => pure (), []⟩).run
        ⟨.start (.ofConstants []), .empty, []⟩ = .ok (c, s') ∧ c.value.toValue = .ok t ∧
      ∃ τ : Store .integers, Stmt.execList .integers c.body (fun _ => 1) = some τ ∧
        t.eval .integers τ = some (.value (4 : Int))) ∧
      ∃ σ', e.eval .integers (fun _ => 1) = some ((3 : Int), σ') :=
  ⟨⟨_, _, _, rfl, rfl, _, rfl, rfl⟩, _, rfl⟩

end GameHop
