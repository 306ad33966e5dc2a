import GameHop.Check.Development
import GameHop.Proofs.Check.Names

/-!
Checks of declarations. A declaration that fails changes names and classes only, and may leave frames
open.
-/

namespace GameHop

variable {α β γ : Type}

/-! ## Names of declarations -/

section
variable (A : Allowance)

/-- Whether a statement declares only what is admitted, and names what it uses where a check may object. -/
structure Statement.Admitted (s : Statement) : Prop where
  name : s.name.span ∈ A.spans
  params : ∀ p ∈ s.params, A.Admits p.name
  left : s.left.Admitted A
  right : s.right.Admitted A

/-- The same for an item. The proof of a theorem is left out. -/
def Item.Admitted : Item → Prop
  | .imported i => i.span ∈ A.spans
  | .constant k => k.name.span ∈ A.spans
  | .function f => f.span ∈ A.spans ∧ (∀ p ∈ f.params, A.Admits p.name) ∧ ∀ e ∈ f.body, e.Admitted A
  | .postulate p => ∀ x ∈ p.claim.binders, A.Admits x
  | .proved t => t.statement.Admitted A
  | .assumed s => s.Admitted A

end

theorem Statement.admitted_all (s : Statement) : s.Admitted .all :=
  ⟨trivial, fun _ _ => ⟨trivial, trivial⟩, s.left.admitted_all, s.right.admitted_all⟩

/-- Whether an item is a function, a postulate or an assumption. -/
def Item.isDeclaration : Item → Bool
  | .function _ | .postulate _ | .assumed _ => true
  | .imported _ | .constant _ | .proved _ => false

/-- The constant that an item declares. -/
def Item.constant? : Item → Option (String × Ty)
  | .constant k => some (k.name.name, k.ty.getD .bits)
  | _ => none

/-- Whether an item is an import. -/
def Item.isImport : Item → Bool
  | .imported _ => true
  | _ => false

/-- Whether an item is refused before its names are looked at. A pure function with a body is. -/
def Item.isRefused : Item → Bool
  | .function f => f.isPure && f.body.isSome
  | _ => false

/-- The fact that a statement is about. -/
def Statement.fact (s : Statement) : Fact :=
  ⟨s.left, s.right, s.params.map (·.name.name), s.bound.getD .zero⟩

/-- The state after an item that is accepted, as far as names are concerned only in that a constant is
    declared. -/
def Item.register : Item → Checker α → Checker α
  | .imported _, c => c
  | .constant k, c => { c with scope := c.scope.declare k.name.name (k.ty.getD .bits) }
  | .function f, c => { c with functions := c.functions.insert f }
  | .postulate p, c => { c with postulates := c.postulates ++ [p] }
  | .proved t, c => { c with facts := insertEntry t.statement.name.name t.statement.fact c.facts }
  | .assumed s, c => { c with facts := insertEntry s.name.name s.fact c.facts }

/-! ## Steps -/

/-- What proofs may build on. -/
structure Theory where
  functions : Functions
  postulates : List Postulate
  facts : List (String × Fact)

def Checker.theory (c : Checker α) : Theory :=
  ⟨c.functions, c.postulates, c.facts⟩

/-- Whether two states differ in names and classes only. -/
def Checker.Renamed (c c' : Checker α) : Prop :=
  { c' with scope := c.scope, classes := c.classes } = c

namespace Checker.Renamed

variable {c c' : Checker α} (h : c.Renamed c')
include h

theorem eq : { c' with scope := c.scope, classes := c.classes } = c := h

theorem obligations : c'.obligations = c.obligations :=
  (congrArg Checker.obligations h.eq :)

theorem answers : c'.answers = c.answers :=
  (congrArg Checker.answers h.eq :)

theorem theory : c'.theory = c.theory :=
  (congrArg Checker.theory h.eq :)

theorem imported : c'.imported = c.imported :=
  (congrArg Checker.imported h.eq :)

end Checker.Renamed

namespace Allowance

/-- Whether an error is an objection to names, in a file. -/
def Blames (A : Allowance) (file : SourceFile) (e : CheckError) : Prop :=
  ∃ o, A.Objects o ∧ e = .located (file.locate o.span) o.fault

/-- Whether a scope has frames above those of another, which declare what may be declared. -/
def Opened (A : Allowance) (s s' : Scope) : Prop :=
  ∃ g opened, s'.frames = opened ++ g :: s.frames ∧ ∀ g' ∈ g :: opened, g'.declared ⊆ A.names

theorem Left.opened {A : Allowance} {s s' : Scope} {kind : FrameKind}
    (h : A.Left ⟨kind, []⟩ s.frames s') : A.Opened s s' := by
  obtain ⟨g, opened, hframes, -, hnames⟩ := h
  rw [ScopeFrame.declared_empty, Set.empty_union] at hnames
  exact ⟨g, opened, hframes, hnames⟩

end Allowance

namespace CheckM

/-- Whether a step does to the frames what `NamingM.Spills` says, and changes names and classes only. -/
def Spills (A : Allowance) (file : SourceFile) (x : CheckM α β) : Prop :=
  ∀ (c : Checker α) f base, Leads (fun c' => A.Grown f base c'.scope ∧ c.Renamed c') x
    (fun _ c' => A.Grown f base c'.scope ∧ c.Renamed c')
    fun e c' => A.Blames file e ∧ A.Left f base c'.scope ∧ c.Renamed c'

section
variable {A : Allowance} {file : SourceFile}

theorem leads_naming {P : Naming → Prop} {x : NamingM Unit} {Q : Unit → Naming → Prop}
    {E : Objection → Naming → Prop} (h : Leads P x Q E) (c : Checker α) :
    Leads (fun c' => P ⟨c'.scope, c'.classes⟩ ∧ c.Renamed c') (naming file x)
      (fun b c' => Q b ⟨c'.scope, c'.classes⟩ ∧ c.Renamed c')
      fun e c' => (∃ o, E o ⟨c'.scope, c'.classes⟩ ∧ e = .located (file.locate o.span) o.fault) ∧
        c.Renamed c' := by
  rintro c' ⟨hP, hc'⟩
  have hrun := h _ hP
  rw [run_naming]
  cases hx : x.run.run ⟨c'.scope, c'.classes⟩ with
  | mk r n =>
    rw [hx] at hrun
    cases r with
    | ok u => exact ⟨hrun, hc'⟩
    | error o => exact ⟨⟨o, hrun, rfl⟩, hc'⟩

theorem spills_naming {x : NamingM Unit} (h : NamingM.Spills A x) :
    Spills (α := α) A file (naming file x) := by
  refine fun c f base => (leads_naming (h f base) c).mono (fun _ h => h) (fun _ _ h => h) ?_
  rintro _ _ ⟨⟨o, ⟨hobjects, hleft⟩, rfl⟩, hc⟩
  exact ⟨⟨o, hobjects, rfl⟩, hleft, hc⟩

/-- A check of names in frames of its own. -/
theorem leads_naming_encloses {x : NamingM Unit} (h : NamingM.Encloses A x) (c : Checker α) :
    Leads (· = c) (naming file x) (fun _ c' => c'.scope = c.scope ∧ c.Renamed c') fun e c' =>
      A.Blames file e ∧ A.Opened c.scope c'.scope ∧ c.Renamed c' := by
  refine (leads_naming (h c.scope) c).mono ?_ (fun _ _ h => h) ?_
  · rintro _ rfl
    exact ⟨rfl, rfl⟩
  · rintro _ _ ⟨⟨o, ⟨hobjects, hopened⟩, rfl⟩, hc⟩
    exact ⟨⟨o, hobjects, rfl⟩, hopened, hc⟩

theorem run_naming_push {x : NamingM Unit} (kind : FrameKind) (c : Checker α) :
    (naming file (do NamingM.modifyScope (·.push kind); x)).run.run c =
      (naming file x).run.run { c with scope := c.scope.push kind } := by
  rw [run_naming, run_naming]
  rfl

end

end CheckM

open CheckM

/-! ## Items -/

namespace Checker

section
variable {A : Allowance} {file : SourceFile}

/-- What the check of a statement does after its parameters are declared. -/
def checkSides (file : SourceFile) (s : Statement) : CheckM α Fact := do
  if ((← get).facts.lookup s.name.name).isSome then
    fail (file.locate s.name.span) (.factAlreadyDeclared s.name.name)
  let functions := (← get).functions
  naming file do
    NamingM.inFrame .variables (s.left.check functions)
    NamingM.inFrame .variables (s.right.check functions)
  return s.fact

theorem leads_checkSides {s : Statement} (hs : s.Admitted A) (c : Checker α) (f : ScopeFrame)
    (base : List ScopeFrame) :
    Leads (fun c' => A.Grown f base c'.scope ∧ c.Renamed c') (checkSides file s)
      (fun fact c' => fact = s.fact ∧ A.Grown f base c'.scope ∧ c.Renamed c')
      fun e c' => A.Blames file e ∧ A.Left f base c'.scope ∧ c.Renamed c' := by
  refine leads_get.bind fun _ => leads_guard (fun _ hc => ?_) (leads_get.bind fun c₁ => ?_)
  · exact ⟨⟨⟨s.name.span, _⟩, ⟨hs.name, rfl⟩, rfl⟩, hc.1.left, hc.2⟩
  · refine (spills_naming ?_ c f base).bind fun _ _ hc => ⟨rfl, hc⟩
    exact ((Expr.spills_check c₁.functions hs.left).inFrame _).spills.bind fun _ =>
      ((Expr.spills_check c₁.functions hs.right).inFrame _).spills

/-- The parameters of a statement are declared in a frame above the others. -/
theorem leads_checkStatement {s : Statement} (hs : s.Admitted A) (c : Checker α) :
    Leads (· = c) (checkStatement file s)
      (fun f c' => f = s.fact ∧ A.Grown ⟨.logical, []⟩ c.scope.frames c'.scope ∧ c.Renamed c')
      fun e c' => A.Blames file e ∧ A.Left ⟨.logical, []⟩ c.scope.frames c'.scope ∧ c.Renamed c' := by
  refine Leads.bind ?_ fun _ => leads_checkSides hs c _ _
  rintro c rfl
  rw [run_naming_push]
  exact spills_naming (NamingM.spills_declareParams hs.params .value) c _ _ _
    ⟨A.grown_self (c.scope.frames_push _), rfl⟩

/-- Whether a check of an item that is accepted registers it, and one that fails changes names and classes
    only. -/
def Declares (A : Allowance) (file : SourceFile) (i : Item) (x : CheckM α Unit) : Prop :=
  ∀ c, Leads (· = c) x
    (fun _ c' => c'.scope = (i.register c).scope ∧ (i.register c).Renamed c')
    fun e c' => A.Blames file e ∧ c.Renamed c' ∧ (A.Opened c.scope c'.scope ∨
      c'.scope = c.scope ∧ (i.isDeclaration = true → i.isRefused = true))

theorem declares_checkConstant {k : Constant} (hk : k.name.span ∈ A.spans) :
    Declares (α := α) A file (.constant k) (checkConstant file k) := by
  rintro c c rfl
  rw [checkConstant, run_naming, NamingM.run_declareParam]
  cases c.scope.mayDeclare k.name.name with
  | true => exact ⟨rfl, rfl⟩
  | false => exact ⟨⟨⟨k.name.span, _⟩, ⟨hk, rfl⟩, rfl⟩, rfl, .inr ⟨rfl, by rintro ⟨⟩⟩⟩

theorem declares_checkFunction {f : Function} (hf : (Item.function f).Admitted A) :
    Declares (α := α) A file (.function f) (checkFunction file f) := by
  obtain ⟨hspan, hparams, hbody⟩ := hf
  intro c
  unfold checkFunction
  by_cases hrefused : (f.isPure && f.body.isSome) = true
  · rw [if_pos hrefused]
    rintro c rfl
    exact ⟨⟨⟨f.span, _⟩, ⟨hspan, rfl⟩, rfl⟩, rfl, .inr ⟨rfl, fun _ => hrefused⟩⟩
  · rw [if_neg hrefused]
    refine leads_get.bind fun c₁ => Leads.bind ((leads_naming_encloses
      (((NamingM.spills_declareParams hparams _).bind fun _ => ?_).inFrame _) c).mono
        (fun _ h => h) (fun _ _ h => h) fun _ _ h => ⟨h.1, h.2.2, .inl h.2.1⟩) fun _ c' hc' => ?_
    · cases hb : f.body with
      | none => exact NamingM.spills_pure ()
      | some body => exact Expr.spills_check _ (hbody body hb)
    · exact ⟨hc'.1, congrArg (Item.function f).register hc'.2⟩

theorem declares_checkPostulate {p : Postulate} (hp : ∀ x ∈ p.claim.binders, A.Admits x) :
    Declares (α := α) A file (.postulate p) (checkPostulate file p) :=
  fun c => Leads.bind ((leads_naming_encloses (p.claim.encloses_check hp) c).mono (fun _ h => h)
    (fun _ _ h => h) fun _ _ h => ⟨h.1, h.2.2, .inl h.2.1⟩) fun _ _ hc' =>
      ⟨hc'.1, congrArg (Item.postulate p).register hc'.2⟩

theorem declares_checkAssumption {s : Statement} (hs : s.Admitted A) :
    Declares (α := α) A file (.assumed s) (checkAssumption file s) := by
  refine fun c => Leads.bind ((leads_checkStatement hs c).mono (fun _ h => h) (fun _ _ h => h)
    fun _ _ h => ⟨h.1, h.2.2, .inl h.2.1.opened⟩) fun f => ?_
  rintro c' ⟨rfl, ⟨g, hframes, -, -⟩, hc'⟩
  refine ⟨?_, congrArg (Item.assumed s).register hc'⟩
  show c'.scope.pop = c.scope
  rw [Scope.pop, hframes]
  rfl

end

end Checker

end GameHop
