import GameHop.Proofs.Check.Names
import Mathlib

/-!
The scope in force at each place of an expression (`Expr.scopeAt`), said by the shape of the
expression alone.
-/

namespace GameHop

variable {β γ : Type}

open NamingM

/-! ## Scopes -/

namespace Scope

/-- The innermost frame that declares a name. -/
def frameOf? (s : Scope) (x : String) : Option ScopeFrame :=
  s.frames.find? fun f => (f.typeOf? x).isSome

/-- The scope with names declared in its innermost frame. -/
def declareAll (s : Scope) (xs : List String) : Scope :=
  xs.foldl (·.declare · .value) s

/-- The scope with parameters declared in its innermost frame. -/
def declareParams (s : Scope) (default : Ty) (ps : List Param) : Scope :=
  ps.foldl (fun s p => s.declare p.name.name (p.ty.getD default)) s

/-- The scope with the variables declared that a body assigns and that are not known. -/
def declareLocals (s : Scope) (body : Expr) : Scope :=
  s.declareAll (body.locals s.declares)

/-- The scope after assignments. Each declares its variable unless it is known. -/
def assignAll (s : Scope) (xs : List String) : Scope :=
  xs.foldl (fun s x => if s.declares x then s else s.declare x .value) s

theorem assignAll_append (s : Scope) (xs ys : List String) :
    s.assignAll (xs ++ ys) = (s.assignAll xs).assignAll ys :=
  List.foldl_append

section
variable {s : Scope} {y : String}

theorem declares_push (kind : FrameKind) : (s.push kind).declares y = s.declares y := by
  rw [Bool.eq_iff_iff, declares_iff, declares_iff, frames_push, List.exists_mem_cons_iff,
    ScopeFrame.declared_empty]
  simp

theorem declares_of_declare {x : String} {ty : Ty} (h : (s.declare x ty).declares y = true) :
    s.declares y = true ∨ y = x := by
  obtain ⟨frames⟩ := s
  cases frames with
  | nil => exact .inl h
  | cons f base =>
    rw [declares_iff, frames_declare rfl, List.exists_mem_cons_iff,
      ScopeFrame.declared_declare] at h
    rw [declares_iff, List.exists_mem_cons_iff]
    rcases h with (h | h) | h
    · exact .inl (.inl h)
    · exact .inr h
    · exact .inl (.inr h)

theorem declares_of_declareAll {xs : List String} (h : (s.declareAll xs).declares y = true) :
    s.declares y = true ∨ y ∈ xs := by
  induction xs generalizing s with
  | nil => exact .inl h
  | cons x xs ih =>
    rcases ih h with h | h
    · exact (declares_of_declare h).imp id fun h => List.mem_cons.2 (.inl h)
    · exact .inr (.tail _ h)

theorem declares_of_declareParams {default : Ty} {ps : List Param}
    (h : (s.declareParams default ps).declares y = true) :
    s.declares y = true ∨ y ∈ ps.map (·.name.name) := by
  induction ps generalizing s with
  | nil => exact .inl h
  | cons p ps ih =>
    rcases ih h with h | h
    · exact (declares_of_declare h).imp id fun h => List.mem_cons.2 (.inl h)
    · exact .inr (.tail _ h)

theorem declares_of_declareLocals {body : Expr} (h : (s.declareLocals body).declares y = true) :
    s.declares y = true ∨ y ∈ body.assigned :=
  (declares_of_declareAll h).imp id fun h => (List.mem_filter.1 (List.mem_eraseDups.1 h)).1

theorem declares_of_assignAll {xs : List String} (h : (s.assignAll xs).declares y = true) :
    s.declares y = true ∨ y ∈ xs := by
  induction xs generalizing s with
  | nil => exact .inl h
  | cons x xs ih =>
    rcases ih h with h | h
    · dsimp only at h
      split at h
      · exact .inl h
      · exact (declares_of_declare h).imp id fun h => List.mem_cons.2 (.inl h)
    · exact .inr (.tail _ h)

end

end Scope

/-! ## Places -/

/-- The parameters in scope in the child of an object literal at a position. -/
def Object.paramsIn (o : Object) (i : Nat) : List Param :=
  if i < o.fields.length then [] else (o.methods[i - o.fields.length]?.map (·.params)).getD []

/-- The frames of an object literal around its child at a position, with the fields before it, and with
    the parameters of its method. -/
def Object.scopeIn (s : Scope) (o : Object) (i : Nat) : Scope :=
  (((s.push .variables).declareAll ((o.fields.take i).map (·.name.name))).push
    .variables).declareParams .bits (o.paramsIn i)

/-- The scope in which the child of a node at a position is evaluated, if the node is evaluated in `s`. -/
def Expr.scopeIn (s : Scope) : Expr → Nat → Scope
  | .new span o, i =>
    (((Expr.new span o).children[i]?.map (o.scopeIn s i).declareLocals).getD (o.scopeIn s i))
  | e, i => s.assignAll ((e.children.take i).flatMap Expr.assigned)

/-- The scope in which the node at a path is evaluated, if the expression is evaluated in `s`. -/
def Expr.scopeAt (s : Scope) (e : Expr) : List Nat → Scope
  | [] => s
  | i :: path => (e.children[i]?.map fun c => c.scopeAt (e.scopeIn s i) path).getD s

theorem Expr.scopeIn_eq {e : Expr} (he : e.object? = none) (s : Scope) (i : Nat) :
    e.scopeIn s i = s.assignAll ((e.children.take i).flatMap assigned) := by
  cases e with
  | new => cases he
  | _ => rfl

theorem Expr.scopeIn_new {span : Span} {o : Object} {s : Scope} {i : Nat} {c : Expr}
    (hc : (new span o).children[i]? = some c) :
    (new span o).scopeIn s i = (o.scopeIn s i).declareLocals c := by
  rw [scopeIn, hc]
  rfl

theorem Expr.scopeAt_cons {e c : Expr} {i : Nat} (hc : e.children[i]? = some c) (s : Scope)
    (path : List Nat) : e.scopeAt s (i :: path) = c.scopeAt (e.scopeIn s i) path := by
  rw [scopeAt, hc]
  rfl

/-! ## Free names -/

theorem Object.mem_paramsIn (o : Object) (i : Nat) (x : String) :
    x ∈ (o.fields.take i).map (·.name.name) ∨ x ∈ (o.paramsIn i).map (·.name.name) ↔
      x ∈ o.declaredIn i := by
  rw [declaredIn, List.mem_append, paramsIn]
  split
  · rfl
  · cases o.methods[i - o.fields.length]? <;> rfl

/-- What is declared around a child of a node is declared around the node, or the node binds it in the
    child, or an earlier child assigns it. -/
theorem Expr.declares_scopeIn {e c : Expr} {i : Nat} (hc : e.children[i]? = some c) {s : Scope}
    {x : String} (h : (e.scopeIn s i).declares x = true) :
    s.declares x = true ∨ x ∈ e.bindsIn i ∨
      (e.object? = none ∧ x ∈ (e.children.take i).flatMap assigned) := by
  cases ho : e.object? with
  | none =>
    rw [scopeIn_eq ho] at h
    exact (Scope.declares_of_assignAll h).imp id fun h => .inr ⟨rfl, h⟩
  | some o =>
    obtain ⟨span, rfl⟩ : ∃ span, e = .new span o := by
      cases e with
      | new span o' => exact ⟨span, by rw [Option.some.inj ho]⟩
      | _ => cases ho
    rw [scopeIn_new hc, Object.scopeIn] at h
    rw [mem_bindsIn hc]
    have hdeclared := o.mem_paramsIn i x
    rcases Scope.declares_of_declareLocals h with h | h
    · rcases Scope.declares_of_declareParams h with h | h
      · rw [Scope.declares_push] at h
        rcases Scope.declares_of_declareAll h with h | h
        · rw [Scope.declares_push] at h
          exact .inl h
        · exact .inr (.inl ⟨o, rfl, .inl (hdeclared.1 (.inl h))⟩)
      · exact .inr (.inl ⟨o, rfl, .inl (hdeclared.1 (.inr h))⟩)
    · exact .inr (.inl ⟨o, rfl, .inr h⟩)

/-- A name that is free in an expression is read at one of its places. What is declared there under that
    name is declared around the expression, or the expression assigns it. -/
theorem Expr.exists_place_of_mem_free {e : Expr} {x : String} (hx : x ∈ e.free) (s : Scope) :
    ∃ path c, e.at? path = some c ∧ c.varName? = some x ∧
      ((e.scopeAt s path).declares x = true → s.declares x = true ∨ x ∈ e.assigned) := by
  induction e using inductNode generalizing s with
  | step e ih =>
    rcases mem_free.1 hx with hx | ⟨i, c, hc, hx, hbinds⟩
    · exact ⟨[], e, rfl, hx, .inl⟩
    · obtain ⟨path, d, hd, hread, hdeclares⟩ := ih c (List.mem_of_getElem? hc) hx (e.scopeIn s i)
      refine ⟨i :: path, d, by rw [at?, hc]; exact hd, hread, fun h => ?_⟩
      rw [scopeAt_cons hc] at h
      -- in an object literal the names that a child assigns are bound there
      have hassigned : ∀ y, e.object? = none → y ∈ e.children.flatMap assigned →
          y ∈ e.assigned := fun y ho hy => by
        rw [assigned_eq ho]
        exact List.mem_append_left _ hy
      rcases hdeclares h with h | h
      · rcases declares_scopeIn hc h with h | h | ⟨ho, h⟩
        · exact .inl h
        · exact (hbinds h).elim
        · obtain ⟨d, hd, h⟩ := List.mem_flatMap.1 h
          exact .inr (hassigned x ho (List.mem_flatMap.2 ⟨d, List.mem_of_mem_take hd, h⟩))
      · cases ho : e.object? with
        | none => exact .inr (hassigned x ho (List.mem_flatMap.2 ⟨c, List.mem_of_getElem? hc, h⟩))
        | some o => exact (hbinds ((mem_bindsIn hc).2 ⟨o, ho, .inr h⟩)).elim

/-! ## Checks that end well -/

namespace NamingM

section
variable {n n' : Naming}

theorem of_ensure {ok : Bool} {span : Span} {fault : Fault}
    (h : (ensure ok span fault).run.run n = (.ok (), n')) : ok = true ∧ n' = n := by
  cases ok with
  | false => cases h
  | true => exact ⟨rfl, (Prod.mk.inj h).2.symm⟩

theorem of_checkLookup {x : Ident} (h : (checkLookup x).run.run n = (.ok (), n')) :
    n.scope.declares x.name = true ∧ n' = n := by
  change (ensure (n.scope.declares x.name) x.span (.notDeclared x.name)).run.run n = _ at h
  exact of_ensure h

theorem of_checkAssign {x : Ident} (h : (checkAssign x).run.run n = (.ok (), n')) :
    (n.scope.declares x.name = true → n.scope.mayAssign x.name = true) ∧
      n'.scope = n.scope.assignAll [x.name] := by
  have hrun : (checkAssign x).run.run n =
      (if n.scope.declares x.name then
        ensure (n.scope.mayAssign x.name) x.span (.isConstant x.name)
      else modifyScope (·.declare x.name .value)).run.run n := rfl
  rw [hrun] at h
  cases hx : n.scope.declares x.name with
  | true =>
    rw [hx, if_pos rfl] at h
    obtain ⟨hassign, rfl⟩ := of_ensure h
    exact ⟨fun _ => hassign, by simp [Scope.assignAll, hx]⟩
  | false =>
    rw [hx, if_neg Bool.false_ne_true] at h
    obtain rfl := (Prod.mk.inj h).2
    exact ⟨by rintro ⟨⟩, by simp [Scope.assignAll, hx]⟩

theorem of_declareField {x : Ident} (h : (declareField x).run.run n = (.ok (), n')) :
    n'.scope = n.scope.declareAll [x.name] := by
  change (ensure (n.scope.mayDeclare x.name) x.span (.alreadyDefined x.name) >>=
    fun _ => modifyScope (·.declare x.name .value)).run.run n = _ at h
  obtain ⟨⟨⟩, n₁, hensure, hdeclare⟩ := ok_of_run_bind h
  obtain ⟨-, rfl⟩ := of_ensure hensure
  obtain rfl := (Prod.mk.inj hdeclare).2
  rfl

theorem of_declareParams {default : Ty} {ps : List Param}
    (h : (NamingM.declareParams default ps).run.run n = (.ok (), n')) :
    n'.scope = n.scope.declareParams default ps := by
  induction ps generalizing n with
  | nil => rw [← (Prod.mk.inj h).2]; rfl
  | cons p ps ih =>
    obtain ⟨⟨⟩, n₁, hp, h⟩ := ok_of_run_bind (x := declareParam default p) h
    obtain ⟨-, rfl⟩ := of_declareParam hp
    exact ih h

theorem of_declareLocals {body : Expr} (h : (NamingM.declareLocals body).run.run n = (.ok (), n')) :
    n'.scope = n.scope.declareLocals body := by
  rw [← (Prod.mk.inj h).2]
  rfl

/-- A check in a frame of its own leaves the scope as it is. -/
theorem of_inFrame {kind : FrameKind} {x : NamingM Unit} (hx : Spills .all x)
    (h : (inFrame kind x).run.run n = (.ok (), n')) :
    n'.scope = n.scope ∧
      ∃ n₁, x.run.run { n with scope := n.scope.push kind } = (.ok (), n₁) := by
  refine ⟨(hx.inFrame kind n.scope).ok rfl h, ?_⟩
  obtain ⟨⟨⟩, n₁, hrun, -⟩ := ok_of_run_bind
    (x := x) (f := fun _ => modifyScope (·.pop)) (s := { n with scope := n.scope.push kind }) h
  exact ⟨n₁, hrun⟩

end

end NamingM

/-- The check of the root of a node that is no object literal, after the checks of its children. -/
def Expr.checkRoot (functions : Functions) : Expr → NamingM Unit
  | .lookup _ x => checkLookup x
  | .assign _ x _ => checkAssign x
  | .call _ f _ => ensure (functions.contains f.name) f.span (.functionNotDeclared f.name)
  | .assert _ p | .assume _ p => p.check
  | _ => return ()

section
variable (functions : Functions)

/-- A node that is no object literal is checked after its children, in their order. -/
theorem Expr.check_eq {e : Expr} (he : e.object? = none) :
    e.check functions = (do
      checkList functions e.children
      e.checkRoot functions) := by
  cases e with
  | new => cases he
  | _ => simp [check, checkRoot, checkList, children]

theorem Formula.scope_of_check {p : Formula} {n n' : Naming} (h : p.check.run.run n = (.ok (), n')) :
    n'.scope = n.scope :=
  (p.encloses_check (A := .all) (fun _ _ => ⟨trivial, trivial⟩) n.scope).ok rfl h

theorem Expr.spills_members (fields : List Field) (methods : List Method) :
    Spills .all (do
      checkFields functions fields
      checkMethods functions methods) :=
  Spills.bind (spills_checkFields functions (fun _ _ => ⟨⟨trivial, trivial⟩, fun _ _ => trivial⟩)
    fun f _ => spills_check functions f.value.admitted_all) fun _ => Encloses.spills <|
      encloses_checkMethods functions (fun _ _ => ⟨fun _ _ => ⟨trivial, trivial⟩, fun _ _ => trivial⟩)
        fun m _ => spills_check functions m.body.admitted_all

variable {functions} {n n' : Naming}

theorem NamingM.of_keepClass {o : Object} (h : (keepClass o).run.run n = (.ok (), n')) :
    n'.scope = n.scope := by
  obtain ⟨className, fields, methods⟩ := o
  cases className <;> rw [← (Prod.mk.inj h).2]

theorem Expr.scope_of_checkRoot {e : Expr} (h : (e.checkRoot functions).run.run n = (.ok (), n')) :
    n'.scope = n.scope.assignAll e.declares := by
  cases e with
  | lookup _ x => rw [(of_checkLookup h).2]; rfl
  | assign _ x _ => exact (of_checkAssign h).2
  | call _ f _ => rw [(of_ensure h).2]; rfl
  | assert _ p | assume _ p => rw [Formula.scope_of_check h]; rfl
  | _ => rw [← (Prod.mk.inj h).2]; rfl

/-- Expressions are checked one after the other, each in the scope that those before it leave. -/
theorem Expr.check_of_checkList {es : List Expr}
    (hscope : ∀ e ∈ es, ∀ n n', (e.check functions).run.run n = (.ok (), n') →
      n'.scope = n.scope.assignAll e.assigned)
    (h : (checkList functions es).run.run n = (.ok (), n')) :
    n'.scope = n.scope.assignAll (es.flatMap assigned) ∧
      ∀ i c, es[i]? = some c → ∃ m m',
        m.scope = n.scope.assignAll ((es.take i).flatMap assigned) ∧
          (c.check functions).run.run m = (.ok (), m') := by
  induction es generalizing n with
  | nil => exact ⟨by rw [← (Prod.mk.inj h).2]; rfl, by simp⟩
  | cons e es ih =>
    rw [List.forall_mem_cons] at hscope
    obtain ⟨⟨⟩, n₁, he, h⟩ := ok_of_run_bind (x := e.check functions) h
    obtain ⟨hn', hes⟩ := ih hscope.2 h
    rw [hscope.1 n n₁ he] at hn' hes
    refine ⟨by rw [hn', List.flatMap_cons, Scope.assignAll_append], fun i c hc => ?_⟩
    cases i with
    | zero =>
      obtain rfl := Option.some.inj hc
      exact ⟨n, n₁, rfl, he⟩
    | succ i =>
      obtain ⟨m, m', hm, hcheck⟩ := hes i c hc
      exact ⟨m, m', by rw [hm, List.take_succ_cons, List.flatMap_cons, Scope.assignAll_append],
        hcheck⟩

/-- **The check of an expression declares what the expression assigns** and is not known yet. -/
theorem Expr.scope_of_check {e : Expr} (h : (e.check functions).run.run n = (.ok (), n')) :
    n'.scope = n.scope.assignAll e.assigned := by
  induction e using inductNode generalizing n n' with
  | step e ih =>
    cases ho : e.object? with
    | none =>
      rw [check_eq functions ho] at h
      obtain ⟨⟨⟩, n₁, hlist, hroot⟩ := ok_of_run_bind h
      rw [scope_of_checkRoot hroot,
        (check_of_checkList (fun c hc _ _ => ih c hc) hlist).1, assigned_eq ho,
        Scope.assignAll_append]
    | some o =>
      cases e with
      | new _ o =>
        obtain ⟨className, fields, methods⟩ := o
        obtain ⟨⟨⟩, n₁, hframe, hkeep⟩ := ok_of_run_bind h
        rw [of_keepClass hkeep, (of_inFrame (spills_members functions fields methods) hframe).1]
        rfl
      | _ => cases ho

/-- The initial values of fields are checked in order, each in a frame above those of the fields before. -/
theorem Expr.check_of_checkFields {fs : List Field}
    (h : (checkFields functions fs).run.run n = (.ok (), n')) :
    n'.scope = n.scope.declareAll (fs.map (·.name.name)) ∧
      ∀ (i : Nat) (f : Field), fs[i]? = some f → ∃ m m' : Naming,
        m.scope = ((n.scope.declareAll ((fs.take i).map (·.name.name))).push
          .variables).declareLocals f.value ∧
          (f.value.check functions).run.run m = (.ok (), m') := by
  induction fs generalizing n with
  | nil => exact ⟨by rw [← (Prod.mk.inj h).2]; rfl, by simp⟩
  | cons f fs ih =>
    obtain ⟨span, x, value⟩ := f
    obtain ⟨⟨⟩, n₁, hvalue, h⟩ := ok_of_run_bind (x := inFrame .variables do
      NamingM.declareLocals value
      value.check functions) h
    obtain ⟨⟨⟩, n₂, hfield, h⟩ := ok_of_run_bind (x := declareField x) h
    have hspills : Spills .all (do NamingM.declareLocals value; value.check functions) :=
      (spills_declareLocals (A := .all) fun _ _ => trivial).bind fun _ =>
        spills_check functions value.admitted_all
    obtain ⟨hn₁, n₃, hinner⟩ := of_inFrame hspills hvalue
    obtain ⟨⟨⟩, m, hlocals, hcheck⟩ := ok_of_run_bind hinner
    obtain ⟨hn', hfs⟩ := ih h
    rw [of_declareField hfield, hn₁] at hn' hfs
    refine ⟨hn', fun i g hg => ?_⟩
    cases i with
    | zero =>
      obtain rfl := Option.some.inj hg
      exact ⟨m, n₃, of_declareLocals hlocals, hcheck⟩
    | succ i => exact hfs i g hg

/-- Methods are checked each in a frame with its parameters, and leave the scope as it is. -/
theorem Expr.check_of_checkMethods {ms : List Method}
    (h : (checkMethods functions ms).run.run n = (.ok (), n')) :
    ∀ (i : Nat) (m : Method), ms[i]? = some m → ∃ k k' : Naming,
      k.scope = ((n.scope.push .variables).declareParams .bits m.params).declareLocals m.body ∧
        (m.body.check functions).run.run k = (.ok (), k') := by
  induction ms generalizing n with
  | nil => simp
  | cons m ms ih =>
    obtain ⟨span, x, params, body⟩ := m
    obtain ⟨⟨⟩, n₁, hbody, h⟩ := ok_of_run_bind (x := inFrame .variables do
      NamingM.declareParams .bits params
      NamingM.declareLocals body
      body.check functions) h
    have hspills : Spills .all (do
        NamingM.declareParams .bits params
        NamingM.declareLocals body
        body.check functions) :=
      (spills_declareParams (A := .all) (fun _ _ => ⟨trivial, trivial⟩) _).bind fun _ =>
        (spills_declareLocals (A := .all) fun _ _ => trivial).bind fun _ =>
          spills_check functions body.admitted_all
    obtain ⟨hn₁, n₃, hinner⟩ := of_inFrame hspills hbody
    obtain ⟨⟨⟩, k₁, hparams, hinner⟩ := ok_of_run_bind hinner
    obtain ⟨⟨⟩, k, hlocals, hcheck⟩ := ok_of_run_bind hinner
    have hms := ih h
    rw [hn₁] at hms
    intro i m' hm'
    cases i with
    | zero =>
      obtain rfl := Option.some.inj hm'
      refine ⟨k, n₃, ?_, hcheck⟩
      rw [of_declareLocals hlocals, of_declareParams hparams]
    | succ i => exact hms i m' hm'

/-- **One step down.** The children of an expression that passes the check pass it, in the scopes in which
    they are evaluated. -/
theorem Expr.check_child {e c : Expr} {i : Nat} (hc : e.children[i]? = some c)
    (h : (e.check functions).run.run n = (.ok (), n')) :
    ∃ m m', m.scope = e.scopeIn n.scope i ∧ (c.check functions).run.run m = (.ok (), m') := by
  cases ho : e.object? with
  | none =>
    rw [check_eq functions ho] at h
    obtain ⟨⟨⟩, n₁, hlist, -⟩ := ok_of_run_bind h
    rw [scopeIn_eq ho]
    exact (check_of_checkList (fun _ _ _ _ => scope_of_check) hlist).2 i c hc
  | some o =>
    cases e with
    | new span o =>
      obtain ⟨className, fields, methods⟩ := o
      obtain ⟨⟨⟩, n₁, hframe, -⟩ := ok_of_run_bind h
      obtain ⟨-, n₂, hmembers⟩ := of_inFrame (spills_members functions fields methods) hframe
      obtain ⟨⟨⟩, n₃, hfields, hmethods⟩ := ok_of_run_bind hmembers
      obtain ⟨hn₃, hfields⟩ := check_of_checkFields hfields
      rw [scopeIn_new hc, Object.scopeIn]
      rcases (exists_child_new (P := fun j d => j = i ∧ d = c)).1 ⟨i, c, hc, rfl, rfl⟩ with
        ⟨_, f, hf, rfl, rfl⟩ | ⟨j, m, hm, rfl, rfl⟩
      · obtain ⟨m, m', hm, hcheck⟩ := hfields _ f hf
        refine ⟨m, m', ?_, hcheck⟩
        have hi := (List.getElem?_eq_some_iff.1 hf).1
        rw [hm, Object.paramsIn, if_pos hi]
        rfl
      · obtain ⟨k, k', hk, hcheck⟩ := check_of_checkMethods hmethods j m hm
        refine ⟨k, k', ?_, hcheck⟩
        have hj : ¬ fields.length + j < fields.length := by omega
        rw [hk, hn₃, Object.paramsIn, if_neg hj, Nat.add_sub_cancel_left, hm,
          List.take_of_length_le (Nat.le_add_right _ _)]
        rfl
    | _ => cases ho

/-- **The check at a place.** Each node of an expression that passes the check passes it, in the scope in
    force there. -/
theorem Expr.check_at {e c : Expr} {path : List Nat} (hc : e.at? path = some c)
    (h : (e.check functions).run.run n = (.ok (), n')) :
    ∃ m m', m.scope = e.scopeAt n.scope path ∧ (c.check functions).run.run m = (.ok (), m') := by
  induction path generalizing e n n' with
  | nil =>
    obtain rfl := Option.some.inj hc
    exact ⟨n, n', rfl, h⟩
  | cons i path ih =>
    rw [at?] at hc
    obtain ⟨d, hd, hc⟩ := Option.bind_eq_some_iff.1 hc
    obtain ⟨m, m', hm, hcheck⟩ := check_child hd h
    rw [scopeAt_cons hd, ← hm]
    exact ih hc hcheck

/-- The free names of an expression that passes the check are declared, or it assigns them. -/
theorem Expr.declares_of_check {e : Expr} (h : (e.check functions).run.run n = (.ok (), n')) :
    ∀ x ∈ e.free, n.scope.declares x = true ∨ x ∈ e.assigned := by
  intro x hx
  obtain ⟨path, c, hc, hread, hdeclares⟩ := exists_place_of_mem_free hx n.scope
  obtain ⟨m, m', hm, hcheck⟩ := check_at hc h
  obtain ⟨span, y, rfl, rfl⟩ := eq_lookup_of_varName? hread
  rw [← hm] at hdeclares
  exact hdeclares (of_checkLookup hcheck).1

/-! ## Well-scoped expressions -/

theorem Scope.kind_of_mayAssign {s : Scope} {x : String} {f : ScopeFrame}
    (h : s.declares x = true → s.mayAssign x = true) (hf : s.frameOf? x = some f) :
    f.kind ≠ .constant := by
  rw [frameOf?] at hf
  have hdeclares : s.declares x = true :=
    declares_iff.2 ⟨f, List.mem_of_find?_eq_some hf, (List.find?_eq_some_iff_append.1 hf).1⟩
  have hassign := h hdeclares
  rw [mayAssign, hf] at hassign
  exact bne_iff_ne.1 hassign

/-- **The check accepts well-scoped expressions only.** Whatever the scope and the functions are, each
    name that is free in an accepted expression is declared or is assigned by it outside of its object
    literals, each function that it calls is declared, and no assignment in it, at any depth, is to a name
    whose innermost declaration where the assignment takes place is that of a constant. Also each part of
    the expression is accepted in the scope in force there. Propositions are not evaluated, and are no
    parts. -/
theorem Expr.well_scoped_of_check {e : Expr} (h : (e.check functions).run.run n = (.ok (), n')) :
    (∀ x ∈ e.free, n.scope.declares x = true ∨ x ∈ e.assigned) ∧
    (∀ path span f args, e.at? path = some (.call span f args) → functions.contains f.name = true) ∧
    (∀ path span x v, e.at? path = some (.assign span x v) → ∀ frame,
      ((e.scopeAt n.scope path).assignAll v.assigned).frameOf? x.name = some frame →
        frame.kind ≠ .constant) ∧
    ∀ path c, e.at? path = some c → ∃ m m', m.scope = e.scopeAt n.scope path ∧
      (c.check functions).run.run m = (.ok (), m') := by
  refine ⟨Expr.declares_of_check h, fun path span f args hc => ?_,
    fun path span x v hc frame hframe => ?_, fun path c hc => Expr.check_at hc h⟩
  · obtain ⟨m, m', hm, hcheck⟩ := Expr.check_at hc h
    obtain ⟨⟨⟩, m₁, -, hensure⟩ := ok_of_run_bind hcheck
    exact (of_ensure hensure).1
  · obtain ⟨m, m', hm, hcheck⟩ := Expr.check_at hc h
    obtain ⟨⟨⟩, m₁, hvalue, hassign⟩ := ok_of_run_bind hcheck
    rw [← hm, ← Expr.scope_of_check hvalue] at hframe
    exact Scope.kind_of_mayAssign (of_checkAssign hassign).1 hframe

/-- `t = k; new (k = f(t)) { method m(x) { k = x; new (a = (y = k)) { method n() { a = k } } } }` -/
def Expr.shadowing : Expr :=
  let assign (x : String) (v : Expr) : Expr := .assign .nowhere (.plain x) v
  let literal (x : String) (v : Expr) (m : String) (params : List Param) (body : Expr) : Expr :=
    .new .nowhere ⟨none, [⟨.nowhere, .plain x, v⟩], [⟨.nowhere, .plain m, params, body⟩]⟩
  .seq .nowhere (assign "t" (.var "k"))
    (literal "k" (.call .nowhere (.plain "f") [.var "t"]) "m" [⟨.nowhere, .plain "x", none⟩]
      (.seq .nowhere (assign "k" (.var "x"))
        (literal "a" (assign "y" (.var "k")) "n" [] (assign "a" (.var "k")))))

/-- A field that shadows the constant `k` may be assigned. -/
theorem Expr.well_scoped_shadowing :
    let e := Expr.shadowing
    let functions : Functions := ⟨[⟨.nowhere, .plain "f", true, true, [], none, none⟩]⟩
    let n : Naming := ⟨⟨[⟨.constant, [("k", .value)]⟩]⟩, []⟩
    let n' : Naming := ⟨⟨[⟨.constant, [("k", .value), ("t", .value)]⟩]⟩, []⟩
    let field : ScopeFrame := ⟨.variables, [("k", .value)]⟩
    (e.check functions).run.run n = (.ok (), n') ∧
      "t" ∈ e.free ∧ (n.scope.declares "t" = true ∨ "t" ∈ e.assigned) ∧
      e.at? [1, 0] = some (.call .nowhere (.plain "f") [.var "t"]) ∧ functions.contains "f" = true ∧
      e.at? [1, 1, 0] = some (.assign .nowhere (.plain "k") (.var "x")) ∧
      (e.scopeAt n.scope [1, 1, 0]).frameOf? "k" = some field ∧ field.kind ≠ .constant := by
  intro e functions n n' field
  have h : (e.check functions).run.run n = (.ok (), n') := by cbv
  obtain ⟨hfree, hcalls, hassigns, -⟩ := Expr.well_scoped_of_check h
  have ht : "t" ∈ e.free := by decide
  have hcall : e.at? [1, 0] = some (.call .nowhere (.plain "f") [.var "t"]) := rfl
  have hassign : e.at? [1, 1, 0] = some (.assign .nowhere (.plain "k") (.var "x")) := rfl
  have hk : (e.scopeAt n.scope [1, 1, 0]).frameOf? "k" = some field := by decide
  exact ⟨h, ht, hfree "t" ht, hcall, hcalls _ _ _ _ hcall, hassign, hk, hassigns _ _ _ _ hassign _ hk⟩

end

end GameHop
