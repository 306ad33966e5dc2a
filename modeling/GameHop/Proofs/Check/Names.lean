import GameHop.Proofs.Check.Runs
import GameHop.Proofs.Term.Free
import Mathlib.Order.BooleanAlgebra.Set

/-!
What a check of names declares and objects to, whether it ends well or not (`NamingM.Spills`).
-/

namespace GameHop

variable {β γ : Type}

/-! ## Frames -/

/-- The names that a frame declares. -/
def ScopeFrame.declared (f : ScopeFrame) : Set String :=
  {y | (f.typeOf? y).isSome}

theorem ScopeFrame.declared_empty (kind : FrameKind) : (mk kind []).declared = ∅ := by
  ext y
  simp [declared, typeOf?]

theorem ScopeFrame.declared_declare (f : ScopeFrame) (x : String) (ty : Ty) :
    (f.declare x ty).declared = f.declared ∪ {x} := by
  ext y
  by_cases hy : y = x <;>
    simp [declared, declare, typeOf?, lookup_insertEntry, hy]

theorem Scope.declares_iff {s : Scope} {y : String} :
    s.declares y = true ↔ ∃ f ∈ s.frames, y ∈ f.declared := by
  simp [declares, typeOf?, ScopeFrame.declared, List.findSome?_isSome_iff]

theorem Scope.frames_push (s : Scope) (kind : FrameKind) :
    (s.push kind).frames = ⟨kind, []⟩ :: s.frames := rfl

theorem Scope.frames_declare {s : Scope} {f : ScopeFrame} {base : List ScopeFrame}
    (h : s.frames = f :: base) (x : String) (ty : Ty) :
    (s.declare x ty).frames = f.declare x ty :: base := by
  rw [declare, h]

theorem Scope.frames_declareAll {s : Scope} {f : ScopeFrame} {base : List ScopeFrame}
    (h : s.frames = f :: base) (xs : List String) (ty : Ty) :
    ∃ f', (xs.foldl (·.declare · ty) s).frames = f' :: base ∧
      f'.declared = f.declared ∪ {y | y ∈ xs} := by
  induction xs generalizing s f with
  | nil => exact ⟨f, h, by simp⟩
  | cons x xs ih =>
    obtain ⟨f', hf', hdeclared⟩ := ih (s.frames_declare h x ty)
    refine ⟨f', hf', ?_⟩
    rw [hdeclared, ScopeFrame.declared_declare, Set.union_assoc]
    congr 1
    ext y
    simp

/-! ## Names of expressions -/

mutual

/-- The variables that a formula quantifies, those within other quantifiers included. -/
def Formula.quantified : Formula → List String
  | .quant _ _ params p => params.map (·.name.name) ++ p.quantified
  | .paren _ p | .unary _ _ p => p.quantified
  | .binary _ _ a b | .index _ a b | .independence _ _ a b | .frame _ a b
  | .frameHeap _ _ _ a b => a.quantified ++ b.quantified
  | .update _ a b c => a.quantified ++ b.quantified ++ c.quantified
  | .call _ _ args => Formula.quantifiedList args
  | .int _ _ | .bool _ _ | .lookup _ _ | .env _ _ | .sameObject _ _ _ | .objectIs _ _ _
  | .field _ _ _ | .frameAll _ | .fieldsEqual _ | .fieldsEqualExcept _ _ => []

def Formula.quantifiedList : List Formula → List String
  | [] => []
  | p :: ps => p.quantified ++ Formula.quantifiedList ps

end

/-- The names that the root of an expression introduces: an assigned variable, the fields of an object
    and the parameters of its methods, or the variables that a formula quantifies. -/
def Expr.rootIntroduces : Expr → List String
  | .assign _ x _ => [x.name]
  | .new _ o => o.fieldNames ++ o.methods.flatMap Method.paramNames
  | .assert _ p | .assume _ p => p.quantified
  | _ => []

/-- The names that an expression introduces, in its objects and methods too. -/
def Expr.introduced (e : Expr) : List String :=
  e.postorder.flatMap Expr.rootIntroduces

mutual

/-- The variables that a formula quantifies, with the places where it declares them. -/
def Formula.binders : Formula → List Ident
  | .quant _ _ params p => params.map (·.name) ++ p.binders
  | .paren _ p | .unary _ _ p => p.binders
  | .binary _ _ a b | .index _ a b | .independence _ _ a b | .frame _ a b
  | .frameHeap _ _ _ a b => a.binders ++ b.binders
  | .update _ a b c => a.binders ++ b.binders ++ c.binders
  | .call _ _ args => Formula.bindersList args
  | .int _ _ | .bool _ _ | .lookup _ _ | .env _ _ | .sameObject _ _ _ | .objectIs _ _ _
  | .field _ _ _ | .frameAll _ | .fieldsEqual _ | .fieldsEqualExcept _ _ => []

def Formula.bindersList : List Formula → List Ident
  | [] => []
  | p :: ps => p.binders ++ Formula.bindersList ps

end

mutual

theorem Formula.quantified_eq (p : Formula) : p.quantified = p.binders.map (·.name) := by
  cases p <;> simp [quantified, binders, quantified_eq, quantifiedList_eq]

theorem Formula.quantifiedList_eq (ps : List Formula) :
    quantifiedList ps = (bindersList ps).map (·.name) := by
  cases ps <;> simp [quantifiedList, bindersList, quantified_eq, quantifiedList_eq]

end

/-- What a check of names may declare, and where it may object. -/
structure Allowance where
  names : Set String
  spans : Set Span

/-- Whether a name may be declared where it stands. -/
structure Allowance.Admits (A : Allowance) (x : Ident) : Prop where
  name : x.name ∈ A.names
  span : x.span ∈ A.spans

/-- Whether the root of an expression declares only what is admitted and looks up names only where a
    check may object. -/
def Expr.RootAdmitted (A : Allowance) : Expr → Prop
  | .lookup _ x | .call _ x _ => x.span ∈ A.spans
  | .assign _ x _ => A.Admits x
  | .new _ o => (∀ f ∈ o.fields, A.Admits f.name) ∧ ∀ m ∈ o.methods, ∀ p ∈ m.params, A.Admits p.name
  | .assert _ p | .assume _ p => ∀ x ∈ p.binders, A.Admits x
  | _ => True

def Expr.Admitted (A : Allowance) (e : Expr) : Prop :=
  ∀ n ∈ e.postorder, n.RootAdmitted A

section
variable {A : Allowance} {e : Expr}

theorem Expr.Admitted.root (h : e.Admitted A) : e.RootAdmitted A :=
  h e e.mem_postorder_self

theorem Expr.Admitted.child (h : e.Admitted A) {c : Expr} (hc : c ∈ e.children) : c.Admitted A :=
  fun n hn => h n (mem_postorder_of_child hc hn)

theorem Expr.Admitted.assigned (h : e.Admitted A) : ∀ y ∈ e.assigned, y ∈ A.names := by
  induction e using inductNode with
  | step e ih =>
    intro y hy
    cases ho : e.object? with
    | some o =>
      cases e with
      | new => cases hy
      | _ => cases ho
    | none =>
      rw [assigned_eq ho, List.mem_append, List.mem_flatMap] at hy
      rcases hy with ⟨c, hc, hy⟩ | hy
      · exact ih c hc (h.child hc) y hy
      · cases e with
        | assign s x a =>
          obtain rfl := List.mem_singleton.1 hy
          exact h.root.name
        | _ => cases hy

/-- An expression declares what it introduces. -/
theorem Expr.admitted_of_introduced {names : Set String} (h : ∀ y ∈ e.introduced, y ∈ names) :
    e.Admitted ⟨names, Set.univ⟩ := by
  intro n hn
  have hroot : ∀ y ∈ n.rootIntroduces, y ∈ names := fun y hy => h y (List.mem_flatMap.2 ⟨n, hn, hy⟩)
  have hadmits : ∀ x : Ident, x.name ∈ names → Allowance.Admits ⟨names, Set.univ⟩ x :=
    fun x hx => ⟨hx, trivial⟩
  cases n with
  | lookup | call => trivial
  | assign _ x _ => exact hadmits x (hroot _ (List.mem_singleton_self _))
  | assert _ p | assume _ p =>
    rw [rootIntroduces, Formula.quantified_eq, List.forall_mem_map] at hroot
    exact fun x hx => hadmits x (hroot x hx)
  | new _ o =>
    simp only [rootIntroduces, Object.fieldNames, List.forall_mem_append, List.forall_mem_map,
      List.forall_mem_flatMap, Method.paramNames] at hroot
    exact ⟨fun f hf => hadmits _ (hroot.1 f hf), fun m hm p hp => hadmits _ (hroot.2 m hm p hp)⟩
  | _ => trivial

/-- Any name may be declared, and any place is one where a check may object. -/
abbrev Allowance.all : Allowance :=
  ⟨Set.univ, Set.univ⟩

theorem Expr.admitted_all (e : Expr) : e.Admitted .all :=
  admitted_of_introduced fun _ _ => trivial

end

/-! ## Checks of names -/

/-- Whether an objection is to the obligations of a proof. -/
def Fault.concernsGoals : Fault → Bool
  | .noGoal | .noBuilder | .obligationsRemain => true
  | _ => false

example : [Fault.noGoal, .noBuilder, .obligationsRemain].map Fault.message =
    ["Not an equivalence obligation", "Not an equivalence builder obligation",
      "Proof obligations remain."] := rfl

/-- Whether an objection is where it may be, and is to names. -/
structure Allowance.Objects (A : Allowance) (o : Objection) : Prop where
  span : o.span ∈ A.spans
  names : o.fault.concernsGoals = false

/-- Whether the frames of a scope are others below one that declares what another does and what may be
    declared. -/
def Allowance.Grown (A : Allowance) (f : ScopeFrame) (base : List ScopeFrame) (s : Scope) : Prop :=
  ∃ f', s.frames = f' :: base ∧ f.declared ⊆ f'.declared ∧ f'.declared ⊆ f.declared ∪ A.names

/-- The same, with more frames open that declare what may be declared. -/
def Allowance.Left (A : Allowance) (f : ScopeFrame) (base : List ScopeFrame) (s : Scope) : Prop :=
  ∃ f' opened, s.frames = opened ++ f' :: base ∧ f.declared ⊆ f'.declared ∧
    ∀ g ∈ f' :: opened, g.declared ⊆ f.declared ∪ A.names

theorem Allowance.Grown.left {A : Allowance} {f : ScopeFrame} {base : List ScopeFrame} {s : Scope}
    (h : A.Grown f base s) : A.Left f base s := by
  obtain ⟨f', hframes, hf, hnames⟩ := h
  exact ⟨f', [], hframes, hf, List.forall_mem_singleton.2 hnames⟩

theorem Allowance.Left.declares {A : Allowance} {f : ScopeFrame} {base : List ScopeFrame} {s : Scope}
    (h : A.Left f base s) {y : String} (hy : y ∈ f.declared) : s.declares y = true := by
  obtain ⟨f', opened, hframes, hf, -⟩ := h
  exact Scope.declares_iff.2 ⟨f', by simp [hframes], hf hy⟩

theorem Allowance.grown_self (A : Allowance) {f : ScopeFrame} {base : List ScopeFrame} {s : Scope}
    (h : s.frames = f :: base) : A.Grown f base s :=
  ⟨f, h, subset_rfl, Set.subset_union_left⟩

namespace NamingM

/-- Whether a check of names leaves the frames below the innermost one as they are, and declares what may
    be declared, in the innermost frame and in frames above it. It takes no declaration back, and leaves
    no frame open if it ends well. -/
def Spills (A : Allowance) (x : NamingM β) : Prop :=
  ∀ f base, Leads (fun n => A.Grown f base n.scope) x (fun _ n => A.Grown f base n.scope)
    fun o n => A.Objects o ∧ A.Left f base n.scope

/-- Whether a check of names leaves the scope as it is if it ends well, and leaves frames open above it if
    it fails. These declare what may be declared. -/
def Encloses (A : Allowance) (x : NamingM β) : Prop :=
  ∀ s, Leads (fun n => n.scope = s) x (fun _ n => n.scope = s) fun o n => A.Objects o ∧
    ∃ g opened, n.scope.frames = opened ++ g :: s.frames ∧ ∀ g' ∈ g :: opened, g'.declared ⊆ A.names

section
variable {A : Allowance} {x : NamingM β}

theorem spills_pure (b : β) : Spills A (pure b : NamingM β) := fun _ _ _ hn => hn

theorem spills_getScope : Spills A getScope := fun _ _ _ hn => hn

theorem spills_ensure (ok : Bool) {span : Span} (hspan : span ∈ A.spans) {fault : Fault}
    (hfault : fault.concernsGoals = false) : Spills A (ensure ok span fault) := by
  cases ok with
  | true => exact spills_pure ()
  | false => exact fun _ _ _ hn => ⟨⟨hspan, hfault⟩, hn.left⟩

theorem spills_keepClass (o : Object) : Spills A (keepClass o) := by
  unfold keepClass
  split <;> exact fun _ _ _ hn => hn

theorem Spills.bind {k : β → NamingM γ} (hx : Spills A x) (hk : ∀ b, Spills A (k b)) :
    Spills A (x >>= k) :=
  fun f base => (hx f base).bind fun b => hk b f base

/-- A check in a frame of its own. -/
theorem Spills.inFrame {x : NamingM Unit} (h : Spills A x) (kind : FrameKind) :
    Encloses A (inFrame kind x) := by
  rintro s n rfl
  have hpush := A.grown_self (n.scope.frames_push kind)
  have hrun := h _ _ { n with scope := n.scope.push kind } hpush
  have hframe : (NamingM.inFrame kind x).run.run n =
      (x >>= fun _ => modifyScope (·.pop)).run.run { n with scope := n.scope.push kind } := rfl
  rw [hframe, run_bind]
  cases hx : x.run.run { n with scope := n.scope.push kind } with
  | mk r n₁ =>
    rw [hx] at hrun
    cases r with
    | error o =>
      obtain ⟨hobjects, f', opened, hframes, -, hnames⟩ := hrun
      rw [ScopeFrame.declared_empty, Set.empty_union] at hnames
      exact ⟨hobjects, f', opened, hframes, hnames⟩
    | ok b =>
      obtain ⟨f', hframes, -, -⟩ := hrun
      show n₁.scope.pop = n.scope
      rw [Scope.pop, hframes]
      rfl

theorem encloses_pure (b : β) : Encloses A (pure b : NamingM β) := fun _ _ hn => hn

theorem Encloses.bind {k : β → NamingM γ} (hx : Encloses A x) (hk : ∀ b, Encloses A (k b)) :
    Encloses A (x >>= k) :=
  fun s => (hx s).bind fun b => hk b s

theorem Encloses.spills (h : Encloses A x) : Spills A x := by
  refine fun f base n hn => ((h n.scope).mono (fun _ h => h) (fun _ n' hn' => ?_) fun o n' => ?_) n rfl
  · rwa [hn']
  · rintro ⟨hobjects, g, opened, hframes, hnames⟩
    obtain ⟨f', hbase, hf, hf'⟩ := hn
    refine ⟨hobjects, f', opened ++ [g], by rw [hframes, hbase]; simp, hf,
      List.forall_mem_cons.2 ⟨hf', fun g' hg' => (hnames g' ?_).trans Set.subset_union_right⟩⟩
    simpa [or_comm] using hg'

theorem Spills.of_ok (h : Spills A x) {n n' : Naming} {b : β} {f : ScopeFrame} {base : List ScopeFrame}
    (hn : n.scope.frames = f :: base) (hx : x.run.run n = (.ok b, n')) :
    A.Grown f base n'.scope :=
  (h f base).ok (A.grown_self hn) hx

/-! ### Declarations -/

theorem spills_declareAll {xs : List String} (h : ∀ y ∈ xs, y ∈ A.names) (ty : Ty) :
    Spills A (modifyScope fun s => xs.foldl (·.declare · ty) s) := by
  rintro f base n ⟨f', hframes, hf, hnames⟩
  obtain ⟨f'', hframes', hdeclared⟩ := Scope.frames_declareAll hframes xs ty
  refine ⟨f'', hframes', ?_, ?_⟩
  · rw [hdeclared]
    exact hf.trans Set.subset_union_left
  · rw [hdeclared]
    exact Set.union_subset hnames fun y hy => .inr (h y hy)

theorem spills_declare {y : String} (hy : y ∈ A.names) (ty : Ty) :
    Spills A (modifyScope (·.declare y ty)) :=
  spills_declareAll (List.forall_mem_singleton.2 hy) ty

theorem spills_declareParam {p : Param} (hp : A.Admits p.name) (default : Ty) :
    Spills A (declareParam default p) :=
  spills_getScope.bind fun _ => (spills_ensure _ hp.span rfl).bind fun _ => spills_declare hp.name _

theorem spills_declareParams {ps : List Param} (h : ∀ p ∈ ps, A.Admits p.name) (default : Ty) :
    Spills A (declareParams default ps) := by
  induction ps with
  | nil => exact spills_pure ()
  | cons p ps ih =>
    rw [List.forall_mem_cons] at h
    exact (spills_declareParam h.1 default).bind fun _ => ih h.2

theorem spills_declareLocals {body : Expr} (h : ∀ y ∈ body.assigned, y ∈ A.names) :
    Spills A (declareLocals body) := by
  refine spills_getScope.bind fun scope => spills_declareAll (fun y hy => h y ?_) _
  exact (List.mem_filter.1 (List.mem_eraseDups.1 hy)).1

theorem spills_checkAssign {x : Ident} (hx : A.Admits x) : Spills A (checkAssign x) := by
  refine spills_getScope.bind fun scope => ?_
  split
  · exact spills_ensure _ hx.span rfl
  · exact spills_declare hx.name _

theorem spills_checkLookup {x : Ident} (hx : x.span ∈ A.spans) : Spills A (checkLookup x) :=
  spills_getScope.bind fun _ => spills_ensure _ hx rfl

theorem spills_declareField {x : Ident} (hx : A.Admits x) : Spills A (declareField x) :=
  spills_getScope.bind fun _ => (spills_ensure _ hx.span rfl).bind fun _ => spills_declare hx.name _

theorem run_declareParam (default : Ty) (p : Param) (n : Naming) :
    (declareParam default p).run.run n = if n.scope.mayDeclare p.name.name
      then (.ok (), { n with scope := n.scope.declare p.name.name (p.ty.getD default) })
      else (.error ⟨p.name.span, .alreadyDeclared p.name.name⟩, n) := by
  change (ensure (n.scope.mayDeclare p.name.name) p.name.span (.alreadyDeclared p.name.name) >>=
    fun _ => modifyScope (·.declare p.name.name (p.ty.getD default))).run.run n = _
  cases n.scope.mayDeclare p.name.name <;> rfl

theorem of_declareParam {default : Ty} {p : Param} {n n' : Naming}
    (h : (declareParam default p).run.run n = (.ok (), n')) :
    n.scope.mayDeclare p.name.name = true ∧
      n' = { n with scope := n.scope.declare p.name.name (p.ty.getD default) } := by
  rw [run_declareParam] at h
  split at h
  · exact ⟨‹_›, (Prod.mk.inj h).2.symm⟩
  · cases h

/-- The parameters are declared in the innermost frame. -/
theorem declared_of_declareParams {default : Ty} {ps : List Param} {n n' : Naming} {f : ScopeFrame}
    {base : List ScopeFrame} (hn : n.scope.frames = f :: base)
    (h : (declareParams default ps).run.run n = (.ok (), n')) :
    ∃ f', n'.scope.frames = f' :: base ∧
      f'.declared = f.declared ∪ {y | y ∈ ps.map (·.name.name)} := by
  induction ps generalizing n f with
  | nil =>
    obtain rfl := (Prod.mk.inj h).2
    exact ⟨f, hn, by simp⟩
  | cons p ps ih =>
    obtain ⟨⟨⟩, n₁, hp, h⟩ := ok_of_run_bind (x := declareParam default p) h
    obtain ⟨-, rfl⟩ := of_declareParam hp
    obtain ⟨f', hf', hdeclared⟩ := ih (Scope.frames_declare hn _ _) h
    refine ⟨f', hf', ?_⟩
    rw [hdeclared, ScopeFrame.declared_declare, Set.union_assoc]
    congr 1
    ext y
    simp

end

end NamingM

open NamingM

/-! ## Formulas and expressions -/

section
variable {A : Allowance}

mutual

theorem Formula.encloses_check : (p : Formula) → (∀ x ∈ p.binders, A.Admits x) → Encloses A p.check
  | .quant _ _ params p, h => by
    rw [binders, List.forall_mem_append, List.forall_mem_map] at h
    exact ((spills_declareParams h.1 .bits).bind fun _ =>
      (p.encloses_check h.2).spills).inFrame _
  | .paren _ p, h | .unary _ _ p, h => p.encloses_check h
  | .binary _ _ a b, h | .index _ a b, h | .independence _ _ a b, h | .frame _ a b, h
  | .frameHeap _ _ _ a b, h => by
    rw [binders, List.forall_mem_append] at h
    exact (a.encloses_check h.1).bind fun _ => b.encloses_check h.2
  | .update _ a b c, h => by
    rw [binders, List.forall_mem_append, List.forall_mem_append] at h
    exact (a.encloses_check h.1.1).bind fun _ => (b.encloses_check h.1.2).bind fun _ =>
      c.encloses_check h.2
  | .call _ _ args, h => encloses_checkList args h
  | .int _ _, _ | .bool _ _, _ | .lookup _ _, _ | .env _ _, _ | .sameObject _ _ _, _
  | .objectIs _ _ _, _ | .field _ _ _, _ | .frameAll _, _ | .fieldsEqual _, _
  | .fieldsEqualExcept _ _, _ => encloses_pure ()

theorem Formula.encloses_checkList : (ps : List Formula) → (∀ x ∈ bindersList ps, A.Admits x) →
    Encloses A (checkList ps)
  | [], _ => encloses_pure ()
  | p :: ps, h => by
    rw [bindersList, List.forall_mem_append] at h
    exact (p.encloses_check h.1).bind fun _ => encloses_checkList ps h.2

end

variable (functions : Functions)

theorem Expr.spills_checkList {es : List Expr} (h : ∀ e ∈ es, Spills A (e.check functions)) :
    Spills A (checkList functions es) := by
  induction es with
  | nil => exact spills_pure ()
  | cons e es ih =>
    rw [List.forall_mem_cons] at h
    exact h.1.bind fun _ => ih h.2

theorem Expr.spills_checkFields {fs : List Field}
    (hnames : ∀ f ∈ fs, A.Admits f.name ∧ ∀ y ∈ f.value.assigned, y ∈ A.names)
    (h : ∀ f ∈ fs, Spills A (f.value.check functions)) : Spills A (checkFields functions fs) := by
  induction fs with
  | nil => exact spills_pure ()
  | cons f fs ih =>
    obtain ⟨s, x, value⟩ := f
    rw [List.forall_mem_cons] at hnames h
    obtain ⟨⟨hx, hassigned⟩, hnames⟩ := hnames
    have hvalue := ((spills_declareLocals hassigned).bind fun _ => h.1).inFrame .variables
    exact hvalue.spills.bind fun _ => (spills_declareField hx).bind fun _ => ih hnames h.2

theorem Expr.encloses_checkMethods {ms : List Method}
    (hnames : ∀ m ∈ ms, (∀ p ∈ m.params, A.Admits p.name) ∧ ∀ y ∈ m.body.assigned, y ∈ A.names)
    (h : ∀ m ∈ ms, Spills A (m.body.check functions)) : Encloses A (checkMethods functions ms) := by
  induction ms with
  | nil => exact encloses_pure ()
  | cons m ms ih =>
    obtain ⟨s, x, params, body⟩ := m
    rw [List.forall_mem_cons] at hnames h
    obtain ⟨⟨hparams, hassigned⟩, hnames⟩ := hnames
    have hbody := ((spills_declareParams hparams .bits).bind fun _ =>
      (spills_declareLocals hassigned).bind fun _ => h.1).inFrame .variables
    exact hbody.bind fun _ => ih hnames h.2

/-- **The check of an expression** declares only what the expression introduces, whether it ends well or
    not, and objects to names of the expression. -/
theorem Expr.spills_check {e : Expr} (h : e.Admitted A) : Spills A (e.check functions) := by
  induction e using inductNode with
  | step e ih =>
    have hchild : ∀ c ∈ e.children, Spills A (c.check functions) := fun c hc => ih c hc (h.child hc)
    have hassigned : ∀ c ∈ e.children, ∀ y ∈ c.assigned, y ∈ A.names := fun c hc =>
      (h.child hc).assigned
    have hroot := h.root
    cases e with
    | int | bool | ellipsis | hole => exact spills_pure ()
    | lookup _ x => exact spills_checkLookup hroot
    | assign _ x a => exact (hchild a (by simp [children])).bind fun _ => spills_checkAssign hroot
    | paren _ _ a | unary _ _ a => exact hchild a (by simp [children])
    | seq _ a b | binary _ _ a b | index _ a b =>
      exact (hchild a (by simp [children])).bind fun _ => hchild b (by simp [children])
    | ternary _ a b c | update _ a b c =>
      exact (hchild a (by simp [children])).bind fun _ =>
        (hchild b (by simp [children])).bind fun _ => hchild c (by simp [children])
    | call _ f args =>
      exact (spills_checkList functions hchild).bind fun _ => spills_ensure _ hroot rfl
    | invoke _ target m cs args =>
      exact (hchild target (by simp [children])).bind fun _ =>
        spills_checkList functions fun a ha => hchild a (by simp [children, ha])
    | assert _ p | assume _ p => exact (p.encloses_check hroot).spills
    | new _ o =>
      obtain ⟨className, fields, methods⟩ := o
      simp only [children, List.forall_mem_append, List.forall_mem_map] at hchild hassigned
      have hfields := spills_checkFields functions
        (fun f hf => ⟨hroot.1 f hf, hassigned.1 f hf⟩) hchild.1
      have hmethods := encloses_checkMethods functions
        (fun m hm => ⟨hroot.2 m hm, hassigned.2 m hm⟩) hchild.2
      exact ((hfields.bind fun _ => hmethods.spills).inFrame .variables).spills.bind fun _ =>
        spills_keepClass _

end

end GameHop
