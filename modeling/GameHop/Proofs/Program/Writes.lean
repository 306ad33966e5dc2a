import GameHop.Proofs.Program.Runs

/-!
Which variables code may change. Outside methods, the code of an expression changes only variables
that it declares, the heap and the checkpoints (`Expr.emits_code`).
-/

namespace GameHop.Program

/-- The variable that an assignment to a term changes. -/
def Term.root? : Term → Option String
  | .name x => some x
  | .index m _ => m.root?
  | _ => none

mutual

/-- The variables of the procedure that a statement may change. -/
def Stmt.writes : Stmt → List String
  | .assign t _ | .set t _ => t.root?.toList
  | .ifThen _ body => Stmt.writesList body
  | .ifElse _ yes no => Stmt.writesList yes ++ Stmt.writesList no
  | .call r _ _ | .apply r _ _ => [r]
  | .invoke i => [i.result, i.memory, i.split]
  | .assert _ | .assume _ | .allocate _ | .comment _ => []

def Stmt.writesList : List Stmt → List String
  | [] => []
  | s :: ss => s.writes ++ Stmt.writesList ss

end

theorem Stmt.writesList_append (ss ts : List Stmt) :
    writesList (ss ++ ts) = writesList ss ++ writesList ts := by
  induction ss with
  | nil => rfl
  | cons s ss ih => rw [List.cons_append, writesList, ih, writesList, List.append_assoc]

/-- Whether statements change only variables of the body, the heap and the checkpoints. -/
def BodyState.Allows (s : BodyState) (body : List Stmt) : Prop :=
  ∀ x ∈ Stmt.writesList body, x ∈ s.locals.names ∨ x ∈ ["heap", "checkpoints"]

section
variable {s : BodyState} {body body' : List Stmt}

@[simp] theorem BodyState.allows_nil : s.Allows [] :=
  fun _ h => (List.not_mem_nil h).elim

@[simp] theorem BodyState.allows_append :
    s.Allows (body ++ body') ↔ s.Allows body ∧ s.Allows body' := by
  rw [Allows, Stmt.writesList_append, List.forall_mem_append]
  rfl

theorem BodyState.allows_cons {st : Stmt} :
    s.Allows (st :: body) ↔ (∀ x ∈ st.writes, x ∈ s.locals.names ∨ x ∈ ["heap", "checkpoints"]) ∧
      s.Allows body := by
  rw [Allows, Stmt.writesList, List.forall_mem_append]
  rfl

@[simp] theorem BodyState.allows_keep {tmp : String} {v : Term} :
    s.Allows (.keep tmp v :: body) ↔
      (tmp ∈ s.locals.names ∨ tmp ∈ ["heap", "checkpoints"]) ∧ s.Allows body := by
  rw [allows_cons]
  simp [Stmt.keep, Stmt.writes, Term.root?]

@[simp] theorem BodyState.allows_assign {x : String} {v : Term} :
    s.Allows (.assign (.name x) v :: body) ↔
      (x ∈ s.locals.names ∨ x ∈ ["heap", "checkpoints"]) ∧ s.Allows body := by
  rw [allows_cons]
  simp [Stmt.writes, Term.root?]

@[simp] theorem BodyState.allows_ifThen {c : Term} {yes : List Stmt} :
    s.Allows (.ifThen c yes :: body) ↔ s.Allows yes ∧ s.Allows body := by
  rw [allows_cons, Stmt.writes]
  rfl

@[simp] theorem BodyState.allows_ifElse {c : Term} {yes no : List Stmt} :
    s.Allows (.ifElse c yes no :: body) ↔ s.Allows yes ∧ s.Allows no ∧ s.Allows body := by
  rw [allows_cons, Stmt.writes, List.forall_mem_append, and_assoc]
  rfl

end

/-! ## Steps -/

namespace BuildBody

variable {α β : Type}

/-- Whether a step keeps the variables of the body, and has a result that is right in every state with
    the variables there are after it. -/
def Emits (x : BuildBody α) (Q : α → BodyState → Prop) : Prop :=
  ∀ s a s', x.run s = .ok (a, s') → s.locals.names ⊆ s'.locals.names ∧
    ∀ t : BodyState, s'.locals.names ⊆ t.locals.names → Q a t

namespace Emits

variable {x : BuildBody α} {Q : α → BodyState → Prop} {f : α → BuildBody β}
  {R : β → BodyState → Prop}

theorem done {a : α} (h : ∀ t, Q a t) : Emits (pure a) Q := by
  intro s b s' hrun
  cases hrun
  exact ⟨fun _ hy => hy, fun t _ => h t⟩

/-- What is right after the first step is still so after the second. -/
theorem bind (hx : Emits x Q) (hf : ∀ a, Emits (f a) fun b t => Q a t → R b t) :
    Emits (x >>= f) R := by
  intro s b s' h
  obtain ⟨a, s₁, ha, h⟩ := ok_of_bind h
  obtain ⟨hnames, hQ⟩ := hx _ _ _ ha
  obtain ⟨hnames', hR⟩ := hf a _ _ _ h
  exact ⟨fun _ hy => hnames' (hnames hy), fun t ht => hR t ht (hQ t fun _ hy => ht (hnames' hy))⟩

theorem lift {c : Except CheckError α} (h : ∀ a, Emits (f a) R) : Emits (liftM c >>= f) R := by
  intro s b s' hrun
  obtain ⟨a, -, hrun⟩ := ok_of_lift_bind hrun
  exact h a _ _ _ hrun

theorem of_locals (h : ∀ s a s', x.run s = .ok (a, s') → s'.locals = s.locals) :
    Emits x fun _ _ => True :=
  fun s a s' hrun => ⟨by rw [h s a s' hrun]; exact fun _ hy => hy, fun _ _ => trivial⟩

end Emits

theorem emits_onDraft (x : Build α) : Emits (onDraft x) fun _ _ => True := by
  refine .of_locals fun s a s' h => ?_
  obtain ⟨s₁, _, hget, h⟩ := ok_of_bind h
  cases hget
  obtain ⟨⟨b, d⟩, -, h⟩ := ok_of_lift_bind h
  cases h
  rfl

theorem emits_addLabel (label : String) : Emits (addLabel label) fun _ _ => True := by
  refine .of_locals fun s a s' h => ?_
  cases h
  rfl

theorem emits_temp (sort : String) : Emits (temp sort) fun x t => x ∈ t.locals.names := by
  intro s x s' h
  cases h
  constructor
  · intro y hy
    simpa [Locals.names, Locals.fresh] using .inl (by simpa [Locals.names] using hy)
  · exact fun t ht => ht (by simp [Locals.names])

theorem emits_declareLocal (x : String) : Emits (declareLocal x) fun _ t => x ∈ t.locals.names := by
  intro s u s' h
  cases h
  by_cases hx : x ∈ s.locals.names
  · simp only [Locals.declare, Locals.contains, List.contains_eq_mem, hx, decide_true, if_true]
    exact ⟨fun _ hy => hy, fun t ht => ht hx⟩
  · simp only [Locals.declare, Locals.contains, List.contains_eq_mem, hx, decide_false,
      Bool.false_eq_true, if_false]
    constructor
    · intro y hy
      simpa [Locals.names] using .inl (by simpa [Locals.names] using hy)
    · exact fun t ht => ht (by simp [Locals.names])

end BuildBody

open BuildBody

theorem emits_keepAll : ∀ vs : List Value,
    Emits (keepAll vs) fun r t => t.Allows r.1
  | [] => .done fun _ => BodyState.allows_nil
  | _ :: vs =>
    (emits_temp _).bind fun _ => .lift fun _ => (emits_keepAll vs).bind fun _ =>
      .done fun _ hvs htmp => BodyState.allows_keep.2 ⟨.inl htmp, hvs⟩

theorem emits_claimCode (ctx : CodeContext) {stmt : Term → Stmt} (hstmt : ∀ t, (stmt t).writes = [])
    (p : Formula) : Emits (claimCode ctx stmt p) fun c t => t.Allows c.body :=
  (emits_onDraft _).bind fun _ => .done fun _ _ => by simp [BodyState.allows_cons, hstmt]

theorem emits_constructCode (o : Object) (args : List Term) :
    Emits (constructCode o args) fun c t => t.Allows c.body := by
  refine .bind (.of_locals fun s a s' h => by cases h; rfl) fun s => ?_
  split
  · exact fun _ _ _ h => by cases h
  · refine (emits_temp _).bind fun x => .done fun t hx _ => ?_
    simp [BodyState.allows_cons, Stmt.writes, Term.root?, Stmt.keep, hx]

theorem emits_applyCode (f : Function) (args : List Term) :
    Emits (applyCode f args) fun c t => t.Allows c.body := by
  rw [applyCode]
  split
  · exact .done fun _ => BodyState.allows_nil
  · refine (emits_temp _).bind fun x => .done fun t hx => ?_
    simp [BodyState.allows_cons, Stmt.writes, hx]

theorem emits_invokeCode (ctx : CodeContext) (target : Value) (method : String)
    (classes : List String) (args : List Value) :
    Emits (invokeCode ctx target method classes args) fun c t => t.Allows c.body := by
  refine (emits_keepAll args).bind fun kept => (emits_temp _).bind fun oid => .lift fun id =>
    (emits_temp _).bind fun result => (emits_onDraft _).bind fun fallback =>
    (emits_onDraft _).bind fun _ => (emits_temp _).bind fun memory => (emits_temp _).bind fun split =>
    .done fun t hsplit hmemory _ _ hresult hoid hkept => ?_
  simp [BodyState.allows_cons, Stmt.writes, Stmt.keep, Term.root?, hkept, hoid, hresult, hmemory,
    hsplit]

theorem allows_saveCheckpoint (s : BodyState) (label : String) :
    s.Allows (Stmt.saveCheckpoint label) := by
  simp [Stmt.saveCheckpoint, BodyState.allows_cons, Stmt.writes, Term.root?]

end GameHop.Program

namespace GameHop

open Program BuildBody

/-! ## Expressions -/

section
variable {ctx : CodeContext} (hctx : ctx.vars = [])
include hctx

set_option linter.unusedSectionVars false

mutual

/-- **Outside methods, code changes only variables that it declares, the heap and the checkpoints.** -/
theorem Expr.emits_code : ∀ e : Expr, Emits (e.code ctx) fun c t => t.Allows c.body
  | .int _ _ | .bool _ _ => .done fun _ => BodyState.allows_nil
  | .lookup _ _ => (emits_onDraft _).bind fun _ => .done fun _ _ => BodyState.allows_nil
  | .paren _ none e => emits_code e
  | .paren _ (some label) e =>
    (emits_code e).bind fun _ => (emits_onDraft _).bind fun _ => (emits_addLabel _).bind fun _ =>
      .done fun t _ _ he => BodyState.allows_append.2 ⟨he, allows_saveCheckpoint t label.name⟩
  | .seq _ a b =>
    (emits_code a).bind fun _ => (emits_code b).bind fun _ => .done fun _ hb ha => by simp [ha, hb]
  | .assign _ x e => by
    refine (emits_code e).bind fun c => ?_
    simp only [hctx, List.lookup_nil, Option.isNone_none, if_true]
    refine (emits_declareLocal _).bind fun _ => .lift fun _ => (emits_onDraft _).bind fun _ =>
      .done fun t _ hx he => ?_
    simp [CodeContext.termOf, hctx, hx, he]
  | .ternary _ q a b =>
    (emits_code q).bind fun _ => (emits_temp _).bind fun _ => .lift fun _ =>
      (emits_code a).bind fun _ => .lift fun _ => (emits_code b).bind fun _ => .lift fun _ =>
        .done fun _ hb ha htmp hq => by simp [hq, htmp, ha, hb]
  | .unary _ .not e | .unary _ .tobits e =>
    (emits_code e).bind fun _ => .lift fun _ => .done fun _ he => he
  | .unary _ .ref e =>
    (emits_code e).bind fun _ => .lift fun _ =>
      .done fun _ he => by simp [BodyState.allows_cons, Stmt.writes, he]
  | .binary _ (.logic _) a b =>
    (emits_code a).bind fun _ => .lift fun _ => (emits_temp _).bind fun _ => .lift fun _ =>
      (emits_code b).bind fun _ => .lift fun _ => .done fun _ hb htmp ha => by simp [ha, htmp, hb]
  | .binary _ (.compare _) a b | .binary _ (.arith _) a b | .index _ a b =>
    (emits_code a).bind fun _ => (emits_code b).bind fun _ => .lift fun _ => .lift fun _ =>
      .done fun _ hb ha => by simp [ha, hb]
  | .update _ m k v =>
    (emits_code m).bind fun _ => (emits_code k).bind fun _ => (emits_code v).bind fun _ =>
      .lift fun _ => .lift fun _ => .lift fun _ => .done fun _ hv hk hm => by simp [hm, hk, hv]
  | .call _ f args => by
    rw [code]
    split
    · exact fun _ _ _ h => by cases h
    · exact (emits_argumentCode args _ _).bind fun _ => (emits_applyCode _ _).bind fun _ =>
        .done fun _ hf hargs => by simp [hargs, hf]
  | .invoke _ target _ _ args =>
    (emits_code target).bind fun _ => (emits_codeList args).bind fun _ =>
      (emits_invokeCode _ _ _ _ _).bind fun _ =>
        .done fun _ hi hargs ht => by simp [ht, hargs, hi]
  | .new _ ⟨_, fields, _⟩ =>
    (emits_fieldCode fields).bind fun _ => (emits_constructCode _ _).bind fun _ =>
      .done fun _ ho hfields => by simp [hfields, ho]
  | .assert _ p => emits_claimCode ctx (fun _ => rfl) p
  | .assume _ p => emits_claimCode ctx (fun _ => rfl) p
  | .ellipsis _ | .hole _ => fun _ _ _ h => by cases h

theorem Expr.emits_codeList : ∀ es : List Expr, Emits (codeList ctx es) fun r t => t.Allows r.1
  | [] => .done fun _ => BodyState.allows_nil
  | e :: es =>
    (emits_code e).bind fun _ => (emits_codeList es).bind fun _ =>
      .done fun _ hes he => by simp [he, hes]

theorem Expr.emits_argumentCode : ∀ (es : List Expr) (f : Function) (i : Nat),
    Emits (argumentCode ctx f i es) fun r t => t.Allows r.1
  | [], _, _ => .done fun _ => BodyState.allows_nil
  | e :: es, f, i =>
    (emits_code e).bind fun _ => .lift fun _ => (emits_argumentCode es f (i + 1)).bind fun _ =>
      .done fun _ hes he => by simp [he, hes]

theorem Expr.emits_fieldCode : ∀ fs : List Field, Emits (fieldCode ctx fs) fun r t => t.Allows r.1
  | [] => .done fun _ => BodyState.allows_nil
  | ⟨_, _, e⟩ :: fs =>
    (emits_code e).bind fun _ => .lift fun _ => (emits_fieldCode fs).bind fun _ =>
      .done fun _ hfs he => by simp [he, hfs]

end

end

end GameHop
