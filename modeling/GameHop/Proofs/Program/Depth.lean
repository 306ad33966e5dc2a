import GameHop.Proofs.Program.Declared
import Mathlib.Data.Finset.Card
import Mathlib.Logic.Relation
import Mathlib.Tactic.Linarith

/-!
When the declarations of classes end. The class of an object is known from the moment its name is
declared, but the objects inside a template are declared before it, and code in their methods may
name the class of the template.
-/

namespace GameHop

open Program

namespace Environment

variable (env : Environment)

/-- Whether the declaration of a class may begin that of another before the class itself is known: the
    other is named in an object inside the template, or in the template itself if that has another
    name. -/
def Leads (cls cls' : String) : Prop :=
  (env.classes.lookup cls').isSome ∧ ∃ o, env.classes.lookup cls = some o ∧
    ((∃ o' ∈ o.inner, .named cls' ∈ o'.classUses) ∨
      o.className.map (·.name) ≠ some cls ∧ .named cls' ∈ o.classUses)

/-- Whether no class leads back to itself. -/
def Acyclic : Prop :=
  ∀ cls, ¬ Relation.TransGen env.Leads cls cls

/-- The names of the classes that there are templates for. -/
def classNames : Finset String :=
  (env.classes.map (·.1)).toFinset

open Classical in
/-- How many classes a class leads to. -/
noncomputable def rank (cls : String) : Nat :=
  (env.classNames.filter fun c => Relation.TransGen env.Leads cls c).card

variable {env}

theorem mem_classNames {cls : String} (h : (env.classes.lookup cls).isSome) :
    cls ∈ env.classNames := by
  obtain ⟨p, hp, hcls⟩ := List.lookup_isSome_iff.1 h
  rw [classNames, List.mem_toFinset, List.mem_map]
  exact ⟨p, hp, (LawfulBEq.eq_of_beq hcls).symm⟩

theorem rank_le (cls : String) : env.rank cls ≤ env.classNames.card := by
  classical
  exact Finset.card_le_card (Finset.filter_subset _ _)

theorem rank_lt {cls cls' : String} (hacyclic : env.Acyclic) (h : env.Leads cls cls') :
    env.rank cls' < env.rank cls := by
  classical
  refine Finset.card_lt_card ⟨fun c hc => ?_, fun hsub => ?_⟩
  · rw [Finset.mem_filter] at hc ⊢
    exact ⟨hc.1, .head h hc.2⟩
  · have hmem := hsub (Finset.mem_filter.2 ⟨mem_classNames h.1, .single h⟩)
    exact hacyclic cls' (Finset.mem_filter.1 hmem).2

/-- The depth that the declaration of a class needs when some classes are known: each class that
    becomes known may have all others ahead again. -/
noncomputable def need (env : Environment) (known : Finset String) (cls : String) : Nat :=
  (env.classNames \ known).card * (env.classNames.card + 1) + env.rank cls

theorem need_le (cls : String) : env.need ∅ cls ≤ env.templateDepth := by
  have hcard : env.classNames.card ≤ env.classes.length :=
    (List.toFinset_card_le _).trans (List.length_map _).le
  have hrank : env.rank cls ≤ env.classNames.card := rank_le cls
  rw [need, Finset.sdiff_empty, templateDepth]
  nlinarith

theorem need_lt_of_leads (known : Finset String) {cls cls' : String} (hacyclic : env.Acyclic)
    (h : env.Leads cls cls') : env.need known cls' < env.need known cls :=
  Nat.add_lt_add_left (rank_lt hacyclic h) _

theorem need_insert_lt {known : Finset String} {cls : String} (cls' : String)
    (hcls : (env.classes.lookup cls).isSome) (hnew : cls ∉ known) :
    env.need (insert cls known) cls' < env.need known cls := by
  have hcard : (env.classNames \ insert cls known).card < (env.classNames \ known).card := by
    refine Finset.card_lt_card ⟨Finset.sdiff_subset_sdiff subset_rfl (Finset.subset_insert _ _),
      fun hsub => ?_⟩
    have hmem := hsub (Finset.mem_sdiff.2 ⟨mem_classNames hcls, hnew⟩)
    exact (Finset.mem_sdiff.1 hmem).2 (Finset.mem_insert_self _ _)
  have hrank : env.rank cls' ≤ env.classNames.card := rank_le cls'
  rw [need, need]
  nlinarith

end Environment

end GameHop

namespace GameHop.Program

section
variable {env : Environment}

/-! ## More depth -/

/-- Nothing is said of the second run when the first one meets the bound. -/
def Faults.withinBound : Faults :=
  ⟨(· = .internal .classesUnbounded), fun _ => True⟩

/-- **More depth keeps what ends.** -/
theorem inStep_depth {depth depth' : Nat} (h : depth ≤ depth') (cls : String) :
    InStep .withinBound (Draft.Knows fun _ _ => True) (Draft.Knows fun _ _ => True)
      (requireClass env depth cls) (requireClass env depth' cls) := by
  induction depth generalizing depth' cls with
  | zero =>
    cases depth' <;>
      exact inStep_requireWith (fun _ _ _ _ _ => trivial) fun o _ => .lost rfl
  | succ depth ih =>
    obtain ⟨depth', rfl⟩ : ∃ n, depth' = n + 1 := ⟨depth' - 1, by omega⟩
    refine inStep_requireWith (fun _ _ _ _ _ => trivial) fun o _ => ?_
    have hall : InStep .withinBound (Draft.Knows fun _ _ => True) (Draft.Knows fun _ _ => True)
        (declareAll env (requireClass env depth) o.toExpr)
        (declareAll env (requireClass env depth') o.toExpr) := by
      refine inStep_declareAll (I := fun _ _ _ => True) (fun _ o _ _ => ?_) []
      refine inStep_declareClass (fun _ _ => trivial) (fun _ _ _ _ => trivial) fun _ _ _ _ _ _ =>
        ⟨fun _ _ => True, fun _ _ _ => trivial, fun u _ => ?_, fun _ _ _ _ _ => trivial,
          fun _ _ _ _ _ => trivial⟩
      cases u with
      | named cls => exact ih (by omega) cls
      | built o => exact fun _ _ _ => .inr trivial
    exact hall.mono (fun _ _ => trivial) fun _ h => h

/-! ## Enough depth -/

/-- All faults but the bound on templates inside each other. -/
def Faults.butUnbounded : Faults :=
  .but (· = .internal .classesUnbounded)

theorem Faults.butUnbounded_usual : butUnbounded.Usual :=
  but_usual fun _ he => he ▸ trivial

/-- Whether the names of all given classes are declared. -/
def Named (known : Finset String) : ClassFact :=
  fun _ ids => ∀ cls ∈ known, cls ∈ ids

/-- The declaration of a class when the classes that it names can be declared. -/
theorem ends_declareClass {require : String → Build Unit} {known known' : Finset String}
    {o : Object} (hsub : known ⊆ known')
    (hname : ∀ cls ∈ known', cls ∉ known → o.className.map (·.name) = some cls)
    (hrequire : ∀ cls, .named cls ∈ o.classUses →
      InStep .butUnbounded (Draft.Knows (Named known')) (Draft.Knows (Named known')) (require cls)
        (require cls)) :
    InStep .butUnbounded (Draft.Knows (Named known)) (Draft.Knows (Named known))
      (declareClass env require o) (declareClass env require o) := by
  refine inStep_declareClass Faults.butUnbounded_usual (fun _ _ h _ => h)
    fun classes ids cls h _ hcls =>
    ⟨Named known', fun ids' hids hmem c hc => ?_, fun u hu => ?_, ?_, ?_⟩
  · by_cases hold : c ∈ known
    · exact hids (h c hold)
    · rwa [hcls, hname c hc hold, Option.getD_some] at hmem
  · cases u with
    | named cls => exact hrequire cls hu
    | built o' => exact fun _ _ _ => .inr nofun
  · exact fun _ _ _ h _ cls hcls => h cls (hsub hcls)
  · intro classes ids f _ hins
    obtain rfl | rfl := Classes.insert_error hins <;> exact nofun

theorem unknown_requireClass {F : Faults} {known : Finset String} {depth : Nat} {cls : String}
    (h : env.classes.lookup cls = none) :
    InStep F (Draft.Knows (Named known)) (Draft.Knows (Named known)) (requireClass env depth cls)
      (requireClass env depth cls) := by
  cases depth <;>
    exact inStep_requireWith (fun _ _ _ h hids c hc => hids (h c hc))
      fun o ho => nomatch h.symm.trans ho

/-- **Enough depth.** -/
theorem ends_requireClass (hacyclic : env.Acyclic) {depth : Nat} {known : Finset String}
    {cls : String} (hdepth : env.need known cls ≤ depth) :
    InStep .butUnbounded (Draft.Knows (Named known)) (Draft.Knows (Named known))
      (requireClass env depth cls) (requireClass env depth cls) := by
  induction depth generalizing known cls with
  | zero =>
    refine inStep_requireWith (fun _ _ _ h hids c hc => hids (h c hc)) fun o ho d hd => ?_
    have hnew : cls ∉ known := fun hcls => hd.2 (hd.1 cls hcls)
    have := Environment.need_insert_lt cls (by rw [ho]; rfl) hnew
    omega
  | succ depth ih =>
    refine inStep_requireWith (fun _ _ _ h hids c hc => hids (h c hc)) fun o ho => ?_
    refine .of_fact (fun d hd hcls => hd.2 (hd.1 cls hcls)) fun hnew => ?_
    have hall : InStep .butUnbounded (Draft.Knows (Named known)) (Draft.Knows (Named known))
        (declareAll env (requireClass env depth) o.toExpr)
        (declareAll env (requireClass env depth) o.toExpr) := by
      refine inStep_declareAll (I := fun _ => Named known) (fun _ o' ho' _ => ?_) []
      rw [Object.objects_toExpr, List.mem_append, List.mem_singleton] at ho'
      by_cases hroot : o' = o ∧ o.className.map (·.name) = some cls
      · -- The class is known as soon as its own template has begun.
        obtain ⟨rfl, hname⟩ := hroot
        refine ends_declareClass (Finset.subset_insert cls known) (fun c hc hc' => ?_) fun c _ => ?_
        · rw [(Finset.mem_insert.1 hc).resolve_right hc']
          exact hname
        · have := Environment.need_insert_lt c (by rw [ho]; rfl) hnew
          exact ih (by omega)
      · refine ends_declareClass subset_rfl (fun c hc hc' => (hc' hc).elim) fun c hc => ?_
        cases hlookup : env.classes.lookup c with
        | none => exact unknown_requireClass hlookup
        | some oc =>
          have hleads : env.Leads cls c := by
            refine ⟨by rw [hlookup]; rfl, o, ho, ?_⟩
            obtain hinner | rfl := ho'
            · exact .inl ⟨o', hinner, hc⟩
            · exact .inr ⟨fun hname => hroot ⟨rfl, hname⟩, hc⟩
          have := Environment.need_lt_of_leads known hacyclic hleads
          exact ih (by omega)
    exact hall.mono (fun _ h => h.1) fun _ h => h

/-! ## Programs -/

theorem followed_ends (hacyclic : env.Acyclic) :
    Followed .butUnbounded env (fun _ => True) fun _ => Named ∅ where
  usual := Faults.butUnbounded_usual
  fewer _ h := h
  require _ cls := ends_requireClass hacyclic (Environment.need_le cls)
  declare _ _ _ _ := ends_declareClass subset_rfl (fun _ h => absurd h (Finset.notMem_empty _))
    fun cls _ => ends_requireClass hacyclic (Environment.need_le cls)
  built _ _ := .inr nofun

theorem requireClass_of_le (hacyclic : env.Acyclic) {depth : Nat} (h : env.templateDepth ≤ depth)
    (cls : String) : requireClass env depth cls = Build.require env cls := by
  funext d
  have hdepth : InStep _ _ _ (Build.require env cls) (requireClass env depth cls) :=
    inStep_depth h cls
  obtain ⟨a, d', hx, hy, -⟩ | ⟨e, hx, rfl | ⟨-, hy⟩⟩ := hdepth d trivial
  · exact hy.trans hx.symm
  · -- The smaller depth is enough.
    have hends := (ends_requireClass hacyclic (Environment.need_le cls)).fault nofun hx
    exact (hends.elim id fun h => h rfl).elim
  · exact hy.trans hx.symm

/-- **Declarations end** if no class leads back to itself: no program meets the bound on templates
    inside each other, and without a bound a class would be declared in the same way. -/
theorem declarations_end (hacyclic : env.Acyclic) :
    (∀ left right, equivalence env left right ≠ .error (.internal .classesUnbounded)) ∧
    (∀ b : Bisimulation, b.program env ≠ .error (.internal .classesUnbounded)) ∧
    ∀ cls, Build.require env cls = requireWith env (fun o => Build.declareAll env o.toExpr) cls := by
  have h := followed_ends hacyclic
  have hU : ∀ {os : List Object}, ∀ o ∈ os, (fun _ => True) o := fun _ _ => trivial
  exact ⟨fun left right => h.equivalence_ne nofun rfl hU hU hU,
    fun b => h.bisimulation_ne nofun rfl hU hU hU,
    fun cls => (requireClass_of_le hacyclic (Nat.le_succ _) cls).symm⟩

end

/-! ## Classes that name each other -/

namespace Mutual

/-- `x.f<A, B>()` -/
def call : Expr :=
  .invoke .nowhere (.var "x") (.plain "f") [.plain "A", .plain "B"] []

def method (name : String) (body : Expr) : Method :=
  ⟨.nowhere, .plain name, [⟨.nowhere, .plain "x", none⟩], body⟩

/-- `new A() { method f(x) { x.f<A, B>() } }` -/
def templateA : Object :=
  ⟨some (.plain "A"), [], [method "f" call]⟩

/-- `new B() { method f(x) { x.f<A, B>() } method g(x) { new () { method h(x) { x.f<A>() } } } }` -/
def templateB : Object :=
  ⟨some (.plain "B"), [], [method "f" call, method "g" (.new .nowhere ⟨none, [],
    [method "h" (.invoke .nowhere (.var "x") (.plain "f") [.plain "A"] [])]⟩)]⟩

def env : Environment :=
  { Environment.ofConstants [] with classes := [("A", templateA), ("B", templateB)] }

theorem leads_eq {cls cls' : String} (h : env.Leads cls cls') : cls = "B" ∧ cls' = "A" := by
  obtain ⟨-, o, ho, hnamed⟩ := h
  by_cases hA : cls = "A"
  · subst hA
    cases ho
    obtain ⟨o', ho', -⟩ | ⟨hname, -⟩ := hnamed
    · exact (List.not_mem_nil ho').elim
    · exact (hname rfl).elim
  · by_cases hB : cls = "B"
    · subst hB
      cases ho
      obtain ⟨o', ho', hnamed⟩ | ⟨hname, -⟩ := hnamed
      · cases List.mem_singleton.1 ho'
        cases List.mem_singleton.1 hnamed
        exact ⟨rfl, rfl⟩
      · exact (hname rfl).elim
    · simp [env, List.lookup_cons, beq_false_of_ne hA, beq_false_of_ne hB] at ho

theorem acyclic : env.Acyclic := by
  have hpath : ∀ cls cls', Relation.TransGen env.Leads cls cls' → cls = "B" ∧ cls' = "A" := by
    intro cls cls' h
    induction h with
    | single h => exact leads_eq h
    | tail _ h ih =>
      exact absurd (ih.2.symm.trans (leads_eq h).1) (by decide)
  intro cls h
  exact absurd ((hpath cls cls h).1.symm.trans (hpath cls cls h).2) (by decide)

end Mutual

/-- Two classes whose own methods name both of them, and one of which holds an object that names the
    other. -/
theorem declarations_end_mutual :
    Mutual.env.Acyclic ∧
    (∀ left right, equivalence Mutual.env left right ≠ .error (.internal .classesUnbounded)) ∧
    (∀ b : Bisimulation, b.program Mutual.env ≠ .error (.internal .classesUnbounded)) ∧
    ∀ cls, Build.require Mutual.env cls =
      requireWith Mutual.env (fun o => Build.declareAll Mutual.env o.toExpr) cls :=
  ⟨Mutual.acyclic, declarations_end Mutual.acyclic⟩

/-! ## A class that leads back to itself -/

namespace Endless

/-- `x.f<A>()` -/
def call : Expr :=
  .invoke .nowhere (.var "x") (.plain "f") [.plain "A"] []

/-- `new () { method g(x) { x.f<A>() } }` -/
def inner : Object :=
  ⟨none, [], [⟨.nowhere, .plain "g", [⟨.nowhere, .plain "x", none⟩], call⟩]⟩

/-- `new A() { method f() { new () { method g(x) { x.f<A>() } } } }` -/
def template : Object :=
  ⟨some (.plain "A"), [], [⟨.nowhere, .plain "f", [], .new .nowhere inner⟩]⟩

def env : Environment :=
  { Environment.ofConstants [] with classes := [("A", template)] }

/-- Neither the class nor the object inside its template is known. -/
def Unknown : ClassFact :=
  fun classes ids => "A" ∉ ids ∧ classes.get? inner = none

theorem run_methodProcedure (method : String) (arity : Nat) {d : Draft} (hd : d.Knows Unknown) :
    ∃ name d', d'.Knows Unknown ∧ (Build.methodProcedure method arity).run d = .ok (name, d') := by
  have hstep : InStep (.but fun _ => True) (Draft.Knows Unknown) (Draft.Knows Unknown)
      (Build.methodProcedure method arity) (Build.methodProcedure method arity) := .methodProcedure
  obtain ⟨name, d', hrun, -, hd'⟩ | ⟨_, -, hlost | hshared⟩ := hstep d hd
  · exact ⟨name, d', hd', hrun⟩
  · exact hlost.elim
  · exact (hshared.1 trivial).elim

theorem missing {d : Draft} (hd : d.Knows Unknown) : (!d.constants.hasClassId "A") = true := by
  simpa [Constants.hasClassId] using hd.1

variable {require : String → Build Unit} {e : CheckError}
  (hrequire : ∀ d : Draft, d.Knows Unknown → (require "A").run d = .error e)

include hrequire

theorem run_invokeCode {s : BodyState} (hs : s.Knows Unknown) (vars : List (String × Term))
    (t : Term) :
    (invokeCode ⟨env, require, vars⟩ ⟨.value, t⟩ "f" ["A"] []).run s = .error e := by
  refine (run_bind_of_ok rfl).trans ?_
  refine (run_bind_of_ok rfl).trans ?_
  refine (run_bind_of_ok rfl).trans ?_
  refine (run_bind_of_ok rfl).trans ?_
  obtain ⟨name, d, hd, hrun⟩ := run_methodProcedure "f" 0 hs
  refine (run_bind_of_ok (by rw [fallbackProcedure, run_onDraft]; exact congrArg _ hrun)).trans ?_
  refine run_bind_of_error ?_
  rw [run_onDraft]
  have hfirst : (["A"].forM require).run d = .error e := run_bind_of_error (hrequire d hd)
  exact congrArg _ hfirst

theorem run_code {s : BodyState} (hs : s.Knows Unknown)
    (hx : ((s.draft.scope.typeOf? "x").map TermSort.ofTy).getD .value = .value)
    (vars : List (String × Term)) : (call.code ⟨env, require, vars⟩).run s = .error e := by
  have htarget : ((Expr.var "x").code ⟨env, require, vars⟩).run s =
      .ok (⟨[], ⟨.value, CodeContext.termOf ⟨env, require, vars⟩ "x"⟩⟩, s) := by
    refine (run_bind_of_ok (by rw [run_onDraft]; rfl)).trans ?_
    simp only [Ident.plain, hx]
    rfl
  rw [call, Expr.code, run_bind_of_ok htarget]
  refine (run_bind_of_ok rfl).trans ?_
  exact run_bind_of_error (run_invokeCode hrequire hs vars _)

theorem run_declareClass {d : Draft} (hd : d.Knows Unknown) :
    (declareClass env require inner).run d = .error e := by
  refine (run_bind_of_ok rfl).trans ?_
  rw [if_pos (by rw [hd.2]; rfl)]
  refine (run_bind_of_ok rfl).trans ?_
  refine (run_bind_of_ok rfl).trans ?_
  refine run_bind_of_error (run_bind_of_error (run_bind_of_error ?_))
  -- Inside the method the fields and then the parameters are in scope.
  refine (run_bind_of_ok rfl).trans ?_
  refine (run_bind_of_ok rfl).trans ?_
  refine run_bind_of_error ?_
  refine (run_bind_of_ok rfl).trans ?_
  refine (run_bind_of_ok rfl).trans ?_
  refine run_bind_of_error ?_
  rw [run_finishCode]
  refine congrArg _ (run_code hrequire ⟨fun hA => ?_, hd.2⟩ rfl _)
  obtain hA | hA := Constants.mem_addClassId.1 hA
  · exact hd.1 hA
  · obtain ⟨n, hn⟩ := (freshName_spec "internal.cls" (d.classes.entries.map (·.2))).2
    have hchars := congrArg String.toList (hA.trans hn)
    simp at hchars

omit hrequire in
/-- The declaration of `A` meets every bound. -/
theorem run_requireClass (depth : Nat) {d : Draft} (hd : d.Knows Unknown) :
    (requireClass env depth "A").run d = .error (.internal .classesUnbounded) := by
  have hmissing := missing hd
  induction depth generalizing d with
  | zero =>
    refine (run_bind_of_ok rfl).trans ?_
    rw [if_pos hmissing]
    rfl
  | succ depth ih =>
    refine (run_bind_of_ok rfl).trans ?_
    rw [if_pos hmissing]
    have hnodes : (declareAll env (requireClass env depth) template.toExpr).run d =
        .error (.internal .classesUnbounded) := by
      refine (run_bind_of_ok rfl).trans ?_
      obtain ⟨name, d', hd', hrun⟩ := run_methodProcedure "f" 0 hd
      have hcall : (declareNode env (requireClass env depth) call).run d = .ok ((), d') :=
        run_bind_of_ok hrun
      refine (run_bind_of_ok hcall).trans (run_bind_of_error ?_)
      exact run_declareClass (fun d hd => ih hd (missing hd)) hd'
    exact run_bind_of_error hnodes

end Endless

/-- A class `A` whose template builds an object that names `A` leads back to itself: no depth is
    enough to declare it. -/
theorem declarations_endless :
    equivalence Endless.env Endless.call (.ofNat 0) = .error (.internal .classesUnbounded) ∧
    ∀ depth, (requireClass Endless.env depth "A").run (.start Endless.env) =
      .error (.internal .classesUnbounded) := by
  refine ⟨?_, fun depth => Endless.run_requireClass depth ⟨nofun, rfl⟩⟩
  have hbuild : (buildEquivalence Endless.env Endless.call (.ofNat 0)).run (.start Endless.env) =
      .error (.internal .classesUnbounded) := by
    refine (run_bind_of_ok rfl).trans (run_bind_of_error ?_)
    refine (run_bind_of_ok rfl).trans (run_bind_of_error ?_)
    refine (run_bind_of_ok rfl).trans ((run_bind_of_ok rfl).trans (run_bind_of_error ?_))
    rw [run_finishCode]
    exact congrArg _
      (Endless.run_code (fun _ => Endless.run_requireClass _) ⟨List.not_mem_nil, rfl⟩ rfl _)
  rw [equivalence, Build.program, hbuild]
  rfl

end GameHop.Program
