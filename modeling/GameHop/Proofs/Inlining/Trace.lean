import GameHop.Proofs.Term.Replacement
import GameHop.Rewriting.Inline

/-!
What inlining does, step by step. A program is inlined by dissolving one object after the other
(`Lifting`).
-/

namespace GameHop

open Program

/-- Whether the node at a path is an invocation on a variable. -/
def Expr.InvokesAt (e : Expr) (field : String) (path : List Nat) : Prop :=
  ∃ s target m cs args, e.at? path = some (.invoke s target m cs args) ∧
    target.varName? = some field

/-- Whether a name at a place in the body of a method denotes the field of that name of the object
    around: no parameter has the name, and no object literal on the way declares it. -/
def Method.DenotesField (m : Method) (path : List Nat) (x : String) : Prop :=
  x ∉ m.paramNames ∧ x ∉ m.body.declaredAt path

namespace Inlining

/-! ## Expansions -/

/-- An invocation that is expanded. -/
structure Expansion where
  /-- The place of the invocation in the body of the calling method. -/
  path : List Nat
  /-- The body of the calling method just before. -/
  before : Expr
  /-- The names that new names have to avoid. -/
  scope : List String
  callee : Method
  args : List Expr

namespace CallSite
variable (site : CallSite) (x : Expansion)

/-- The new names of the variables of the callee. -/
def newNames : Renaming :=
  (freshLocals x.scope (site.variables x.callee)).1

/-- What the names of the callee become. -/
def names : Renaming :=
  site.newNames x ++ site.fields

/-- The assignments that pass the arguments. -/
def assignments : List (String × Expr) :=
  x.callee.paramNames.mapIdx fun i p =>
    ((site.names x).apply p, x.args[i]?.getD (.ofNat 0))

/-- The body of the callee under its new names. -/
def spliced : Expr :=
  x.callee.body.rename (site.names x)

/-- What stands in the place of the invocation. -/
def expanded : Expr :=
  .paren .nowhere none (assignThen (site.assignments x) (site.spliced x))

/-- The names to avoid after the expansion. -/
def scopeAfter : List String :=
  x.scope ++ (site.newNames x).map (·.2)

end CallSite

/-- **A chain of expansions.** Each one replaces an invocation on the dissolved object in the body as it
    is then, and its new names are avoided from then on. -/
inductive CallSite.Expands (site : CallSite) : Expr → List String → List Expansion → Expr → Prop
  | done (t : Expr) (scope : List String) : Expands site t scope [] t
  | step {x : Expansion} {xs : List Expansion} {t t' target : Expr} {s : Span} {m : Ident}
    {cs : List Ident} :
    x.before.at? x.path = some (.invoke s target m cs x.args) → target.varName? = some site.field →
    site.object.methods.find? (·.name.name == m.name) = some x.callee →
    x.before.replaceAt? x.path (site.expanded x) = some t →
    Expands site t (site.scopeAfter x) xs t' → Expands site x.before x.scope (x :: xs) t'

/-- Whether an expansion is that of an invocation in the body `whole` that the method had before any
    expansion. -/
structure Expansion.StemsFrom (x : Expansion) (site : CallSite) (whole : Expr) : Prop where
  invocation : ∃ s target m cs args, whole.at? x.path = some (.invoke s target m cs args) ∧
    target.varName? = some site.field ∧
    site.object.methods.find? (·.name.name == m.name) = some x.callee
  declared : x.before.declaredAt x.path = whole.declaredAt x.path

/-- A method of the object around the dissolved one, with the expansions in it. -/
structure Caller where
  method : Method
  expansions : List Expansion
  /-- Its body afterwards. -/
  body : Expr

/-- The method afterwards. -/
def Caller.result (c : Caller) : Method :=
  { c.method with body := c.body }

/-- What the expansions in a method are: a chain, one for each invocation on the dissolved object
    outside the methods of object literals. `members` are the fields of the object around. -/
structure Caller.Made (site : CallSite) (members : List String) (c : Caller) : Prop where
  expands : site.Expands c.method.body (c.method.body.free ++ c.method.paramNames ++ members)
    c.expansions c.body
  sorted : (c.expansions.map (·.path)).Pairwise Path.Before
  mem_paths : ∀ p, p ∈ c.expansions.map (·.path) ↔
    c.method.body.IsReached false p ∧ c.method.body.InvokesAt site.field p
  stems : ∀ x ∈ c.expansions, x.StemsFrom site c.method.body

/-! ## Liftings -/

/-- The dissolution of an object. -/
structure Lifting where
  /-- The place of the object around it. -/
  path : List Nat
  /-- The fields before the one that holds the object. -/
  before : List Field
  field : Field
  inner : Object
  after : List Field
  /-- The names that are given for fields. -/
  given : List String
  /-- The fields of the dissolved object under their new names. -/
  lifted : List Field
  /-- What its fields become. -/
  names : Renaming
  callers : List Caller

namespace Lifting
variable (scope : Scope) (L : Lifting)

/-- The names of the other fields of the object around. -/
def otherNames : List String :=
  (L.before ++ L.after).map (·.name.name)

/-- The names of the lifted fields. -/
def liftedNames : List String :=
  L.lifted.map (·.name.name)

/-- The names of all fields of the object around. -/
def members : List String :=
  L.otherNames ++ L.liftedNames

/-- The names that the lifted fields have to avoid. -/
def taken : List String :=
  L.otherNames ++ L.inner.methods.flatMap (·.body.locals scope.declares) ++ scope.allNames

def site : CallSite :=
  ⟨L.field.name.name, L.inner, L.names, scope.allNames⟩

/-- The object around, before the lifting. -/
def object (className : Option Ident) : Object :=
  ⟨className, L.before ++ L.field :: L.after, L.callers.map (·.method)⟩

/-- The object around, after the lifting. -/
def result (className : Option Ident) : Object :=
  ⟨className, L.before ++ (L.lifted ++ L.after), L.callers.map Caller.result⟩

/-- What a lifting is. The names that are still given afterwards are `given`. -/
structure Made (given : List String) : Prop where
  object : L.field.value.unparen.object? = some L.inner
  fields : (liftFields (L.taken scope) [] L.inner.fields).run L.given =
    ((L.lifted, L.names), given)
  callers : ∀ c ∈ L.callers, c.Made (L.site scope) L.members
  unread : isReferenced L.field.name.name (L.before ++ L.lifted ++ L.after)
    (L.callers.map Caller.result) = false

end Lifting

/-- **A chain of liftings.** Each one replaces an object of the program as it is then. -/
inductive Inlines (scope : Scope) : Expr → List String → List Lifting → Expr → List String → Prop
  | done (t : Expr) (given : List String) : Inlines scope t given [] t given
  | step {L : Lifting} {Ls : List Lifting} {t t' t'' : Expr} {s : Span} {n : Option Ident}
    {given given' : List String} :
    t.at? L.path = some (.new s (L.object n)) → L.Made scope given →
    t.replaceAt? L.path (.new s (L.result n)) = some t' → Inlines scope t' given Ls t'' given' →
    Inlines scope t L.given (L :: Ls) t'' given'

theorem Inlines.append {scope : Scope} {t t' t'' : Expr} {given given' given'' : List String}
    {Ls Ls' : List Lifting} (h : Inlines scope t given Ls t' given')
    (h' : Inlines scope t' given' Ls' t'' given'') : Inlines scope t given (Ls ++ Ls') t'' given'' := by
  induction h with
  | done => exact h'
  | step hnode hmade hreplace _ ih => exact .step hnode hmade hreplace (ih h')

/-- Each lifting of a chain is made. -/
theorem Inlines.made {scope : Scope} {t t' : Expr} {given given' : List String} {Ls : List Lifting}
    (h : Inlines scope t given Ls t' given') : ∀ L ∈ Ls, ∃ given, L.Made scope given := by
  induction h with
  | done => exact List.forall_mem_nil _
  | step _ hmade _ _ ih => exact List.forall_mem_cons.2 ⟨⟨_, hmade⟩, ih⟩

/-! ## Runs of expansions -/

theorem freshLocals_snd (scope xs : List String) :
    (freshLocals scope xs).2 = scope ++ (freshLocals scope xs).1.map (·.2) := by
  induction xs generalizing scope with
  | nil => simp [freshLocals]
  | cons x xs ih => simp [freshLocals, ih]

namespace CallSite
variable {site : CallSite} {s s' : List String} {e n : Expr}

theorem run_expand (path : List Nat) (before : Expr) (s : List String) (callee : Method)
    (args : List Expr) :
    (site.expand callee args).run s =
      .ok (site.expanded ⟨path, before, s, callee, args⟩,
        site.scopeAfter ⟨path, before, s, callee, args⟩) := by
  rw [scopeAfter, newNames, ← freshLocals_snd]
  rfl

/-- A visit expands an invocation on the object, and leaves any other node alone. -/
theorem visit_cases (h : (site.visit e).run s = .ok (n, s')) :
    (∃ sp target m ns args callee, e = .invoke sp target m ns args ∧
      target.varName? = some site.field ∧
      site.object.methods.find? (·.name.name == m.name) = some callee ∧
      (site.expand callee args).run s = .ok (n, s')) ∨
    (¬ e.InvokesAt site.field [] ∧ n = e ∧ s' = s) := by
  unfold CallSite.visit at h
  split at h
  · rename_i sp target m ns args
    split at h
    · rename_i htarget
      rw [beq_iff_eq] at htarget
      split at h
      · rename_i callee hcallee
        exact .inl ⟨sp, target, m, ns, args, callee, rfl, htarget, hcallee, h⟩
      · cases h
    · rename_i htarget
      obtain ⟨rfl, rfl⟩ := eq_of_pure h
      refine .inr ⟨?_, rfl, rfl⟩
      rintro ⟨sp', target', m', ns', args', hnode, htarget'⟩
      cases hnode
      rw [htarget'] at htarget
      simp at htarget
  · rename_i hother
    obtain ⟨rfl, rfl⟩ := eq_of_pure h
    refine .inr ⟨?_, rfl, rfl⟩
    rintro ⟨sp, target, m, ns, args, hnode, -⟩
    exact hother sp target m ns args (Option.some.inj hnode)

end CallSite

end Inlining

/-- Other children do not make a node an invocation. -/
theorem Expr.eq_invoke_of_withChildren {e target : Expr} {cs args : List Expr} {s : Span}
    {m : Ident} {ns : List Ident} (h : e.withChildren cs = .invoke s target m ns args) :
    ∃ t as, e = .invoke s t m ns as := by
  unfold withChildren at h
  split at h <;> simp_all

namespace Inlining

namespace CallSite
variable {site : CallSite} {s s' s₀ : List String}

/-- Expanding makes no variable of another expression, nor another expression of a variable. -/
theorem varName?_of_run {e e' : Expr}
    (h : (e.bottomUpM false site.visit).run s = .ok (e', s')) : e'.varName? = e.varName? := by
  obtain ⟨cs, s₁, -, hvisit⟩ := Expr.ok_of_bottomUpM h
  rcases visit_cases hvisit with ⟨sp, target, m, ns, args, callee, he, -, -, hexpand⟩ | ⟨-, rfl, -⟩
  · obtain ⟨t, as, rfl⟩ := Expr.eq_invoke_of_withChildren he
    rw [run_expand [] (.invoke sp t m ns as)] at hexpand
    cases hexpand
    rfl
  · exact Expr.varName?_withChildren _ _

theorem revisited_invoke {sp : Span} {t : Expr} {m : Ident} {ns : List Ident} {args cs : List Expr}
    (h : Expr.Traversed false site.visit ((Expr.invoke sp t m ns args).children.take
      ((Expr.invoke sp t m ns args).visitedChildren false)) s₀ cs s) :
    ∃ t' args', (Expr.invoke sp t m ns args).revisited false cs = .invoke sp t' m ns args' ∧
      t'.varName? = t.varName? := by
  have hall : (Expr.invoke sp t m ns args).visitedChildren false =
      (Expr.invoke sp t m ns args).children.length := rfl
  rw [hall, List.take_length] at h
  cases h with
  | @cons _ t' _ args' _ _ _ ht hargs =>
    refine ⟨t', args', ?_, varName?_of_run ht⟩
    rw [Expr.revisited, hall, List.drop_length, List.append_nil]
    rfl

/-- The node that is visited at a path is an invocation on the object iff the one there was before. -/
theorem invokesAt_iff {whole c : Expr} {path : List Nat} (hc : whole.at? path = some c)
    {cs : List Expr} (h : Expr.Traversed false site.visit
      (c.children.take (c.visitedChildren false)) s₀ cs s) :
    whole.InvokesAt site.field path ↔ (c.revisited false cs).InvokesAt site.field [] := by
  constructor
  · rintro ⟨sp, t, m, ns, args, hnode, ht⟩
    rw [hc] at hnode
    cases hnode
    obtain ⟨t', args', heq, ht'⟩ := revisited_invoke h
    exact ⟨sp, t', m, ns, args', by rw [Expr.at?, heq], ht'.trans ht⟩
  · rintro ⟨sp, t', m, ns, args', hnode, ht'⟩
    have heq : c.revisited false cs = .invoke sp t' m ns args' := Option.some.inj hnode
    obtain ⟨t, args, rfl⟩ := Expr.eq_invoke_of_withChildren heq
    obtain ⟨t'', args'', heq', ht''⟩ := revisited_invoke h
    rw [heq] at heq'
    cases heq'
    exact ⟨sp, t, m, ns, args, hc, ht''.symm.trans ht'⟩

/-- **A chain of visits is a chain of expansions**, one for each visited invocation on the object. -/
theorem expands_of_visits {whole t t' : Expr} {ps : List (List Nat)}
    (h : Expr.Visits false site.visit whole t s ps t' s') :
    ∃ xs, site.Expands t s xs t' ∧ (xs.map (·.path)).Sublist ps ∧
      (∀ p ∈ ps, whole.InvokesAt site.field p → p ∈ xs.map (·.path)) ∧
      ∀ x ∈ xs, x.StemsFrom site whole := by
  induction h with
  | done t s => exact ⟨[], .done t s, .slnil, by simp, by simp⟩
  | @step plug path c n t cs s₀ s s₁ s' ps hf hcs hvisit _ ih =>
    obtain ⟨xs, hxs, hsub, hall, hstems⟩ := ih
    rcases visit_cases hvisit with
      ⟨sp, target, m, ns, args, callee, heq, htarget, hcallee, hexpand⟩ | ⟨hother, rfl, rfl⟩
    · -- the arguments are the visited ones, and the target is the variable that it was
      let x : Expansion := ⟨path, plug (c.revisited false cs), s, callee, args⟩
      have hrun : (site.expand callee args).run s = .ok (site.expanded x, site.scopeAfter x) :=
        run_expand path _ s callee args
      obtain ⟨rfl, rfl⟩ := Prod.mk.inj (Except.ok.inj (hrun.symm.trans hexpand))
      have hnode : x.before.at? x.path = some (.invoke sp target m ns x.args) := by
        rw [← heq]
        exact hf.focus.at?_plug _
      have hstem : x.StemsFrom site whole := by
        refine ⟨?_, hf.declared _⟩
        obtain ⟨t, as, rfl⟩ := Expr.eq_invoke_of_withChildren heq
        obtain ⟨t', as', heq', ht⟩ := revisited_invoke hcs
        rw [heq] at heq'
        cases heq'
        exact ⟨sp, t, m, ns, as, hf.node, ht.symm.trans htarget, hcallee⟩
      refine ⟨x :: xs, ?_, hsub.cons_cons path, fun p hp hinvokes => ?_,
        List.forall_mem_cons.2 ⟨hstem, hstems⟩⟩
      · exact .step hnode htarget hcallee (hf.focus.replaceAt?_plug _ _) hxs
      · rcases List.mem_cons.1 hp with rfl | hp
        · exact List.mem_cons_self
        · exact List.mem_cons_of_mem _ (hall p hp hinvokes)
    · refine ⟨xs, hxs, hsub.cons path, fun p hp hinvokes => ?_, hstems⟩
      rcases List.mem_cons.1 hp with rfl | hp
      · exact absurd ((invokesAt_iff hf.node hcs).1 hinvokes) hother
      · exact hall p hp hinvokes

/-- The expansions in a method. -/
theorem made_of_expandIn {members : List String} {m m' : Method}
    (h : site.expandIn members m = .ok m') :
    ∃ c : Caller, c.method = m ∧ c.result = m' ∧ c.Made site members := by
  obtain ⟨⟨body, s'⟩, hrun, h⟩ := except_bind_eq_ok h
  cases h
  obtain ⟨ps, hvisits, hmem, hsorted⟩ := Expr.visits_bottomUpM hrun
  obtain ⟨xs, hxs, hsub, hall, hstems⟩ := expands_of_visits hvisits
  refine ⟨⟨m, xs, body⟩, rfl, rfl, hxs, hsorted.sublist hsub, fun p => ⟨fun hp => ?_, fun hp => ?_⟩,
    hstems⟩
  · refine ⟨(hmem p).1 (hsub.subset hp), ?_⟩
    obtain ⟨x, hx, rfl⟩ := List.mem_map.1 hp
    obtain ⟨s, target, m, cs, args, hnode, htarget, -⟩ := (hstems x hx).invocation
    exact ⟨s, target, m, cs, args, hnode, htarget⟩
  · exact hall p ((hmem p).2 hp.1) hp.2

theorem made_of_expandAll {members : List String} {ms ms' given given' : _}
    (h : (ms.mapM fun m => (liftM (site.expandIn members m) :
      StateT (List String) (Except Fault) Method)).run given = .ok (ms', given')) :
    given' = given ∧ ∃ cs : List Caller, cs.map (·.method) = ms ∧ cs.map Caller.result = ms' ∧
      ∀ c ∈ cs, c.Made site members := by
  induction ms generalizing ms' given with
  | nil =>
    obtain ⟨rfl, rfl⟩ := eq_of_pure h
    exact ⟨rfl, [], rfl, rfl, by simp⟩
  | cons m ms ih =>
    rw [List.mapM_cons] at h
    obtain ⟨m', hm, h⟩ := ok_of_lift_bind h
    obtain ⟨ms'', given₁, hms, h⟩ := ok_of_bind h
    obtain ⟨rfl, rfl⟩ := eq_of_pure h
    obtain ⟨c, rfl, rfl, hc⟩ := made_of_expandIn hm
    obtain ⟨rfl, cs, rfl, rfl, hcs⟩ := ih hms
    exact ⟨rfl, c :: cs, rfl, rfl, List.forall_mem_cons.2 ⟨hc, hcs⟩⟩

end CallSite

/-! ## Runs of liftings -/

theorem isReferenced_eq_false {x : String} {fs : List Field} {ms : List Method} :
    isReferenced x fs ms = false ↔
      (∀ f ∈ fs, x ∉ f.value.free) ∧ ∀ m ∈ ms, x ∈ m.body.free → x ∈ m.paramNames := by
  simp [isReferenced]

section
variable {scope : Scope} {given given' : List String}

/-- An object that is dissolved is lifted. -/
theorem made_of_dissolve {before after lifted : List Field} {f : Field} {inner : Object}
    {methods methods' : List Method} (hinner : f.value.unparen.object? = some inner)
    (h : (dissolve scope before f.name.name inner after methods).run given =
      .ok ((lifted, methods'), given')) (path : List Nat) :
    ∃ L : Lifting, L.Made scope given' ∧ L.path = path ∧ L.given = given ∧ L.inner = inner ∧
      L.lifted = lifted ∧ ∀ n, L.object n = ⟨n, before ++ f :: after, methods⟩ ∧
        L.result n = ⟨n, before ++ (lifted ++ after), methods'⟩ := by
  obtain ⟨_, _, hget, h⟩ := ok_of_bind h
  cases hget
  obtain ⟨_, _, hset, h⟩ := ok_of_bind h
  cases hset
  obtain ⟨ms, given₁, hms, h⟩ := ok_of_bind h
  obtain ⟨rfl, cs, rfl, rfl, hcs⟩ := CallSite.made_of_expandAll hms
  split at h
  · cases h
  · rename_i hunread
    obtain ⟨heq, rfl⟩ := eq_of_pure h
    cases heq
    exact ⟨⟨path, before, f, inner, after, given, _, _, cs⟩,
      ⟨hinner, rfl, hcs, eq_false_of_ne_true hunread⟩, rfl, rfl, rfl, rfl, fun n => ⟨rfl, rfl⟩⟩

/-- **Dissolving fields is a chain of liftings.** -/
theorem inlines_of_dissolveFields {plug : Expr → Expr} {path : List Nat}
    (hplug : Focuses plug path) (s : Span) (n : Option Ident) {done todo fields : List Field}
    {methods methods' : List Method}
    (h : (dissolveFields scope done methods todo).run given = .ok ((fields, methods'), given')) :
    ∃ Ls, Inlines scope (plug (.new s ⟨n, done ++ todo, methods⟩)) given Ls
        (plug (.new s ⟨n, fields, methods'⟩)) given' ∧ ∀ L ∈ Ls, L.path = path := by
  induction todo generalizing done methods given with
  | nil =>
    obtain ⟨heq, rfl⟩ := eq_of_pure h
    cases heq
    rw [List.append_nil]
    exact ⟨[], .done _ _, List.forall_mem_nil _⟩
  | cons f fs ih =>
    unfold dissolveFields at h
    split at h
    · obtain ⟨Ls, hLs, hpaths⟩ := ih h
      rw [List.append_assoc, List.singleton_append] at hLs
      exact ⟨Ls, hLs, hpaths⟩
    · rename_i inner hinner
      obtain ⟨⟨lifted, ms⟩, given₁, hdissolve, hrest⟩ := ok_of_bind h
      obtain ⟨L, hL, hpath, rfl, -, -, hobject⟩ := made_of_dissolve hinner hdissolve path
      obtain ⟨Ls, hLs, hpaths⟩ := ih hrest
      rw [List.append_assoc] at hLs
      obtain ⟨hbefore, hafter⟩ := hobject n
      have hnode := hplug.at?_plug (.new s (L.object n))
      have hreplace := hplug.replaceAt?_plug (.new s (L.object n)) (.new s (L.result n))
      rw [← hpath] at hnode hreplace
      rw [← hafter] at hLs
      rw [← hbefore]
      exact ⟨L :: Ls, .step hnode hL hreplace hLs, List.forall_mem_cons.2 ⟨hpath, hpaths⟩⟩

/-- **A chain of visits is a chain of liftings.** -/
theorem inlines_of_visits {whole t t' : Expr} {ps : List (List Nat)}
    (h : Expr.Visits true (visit scope) whole t given ps t' given') :
    ∃ Ls, Inlines scope t given Ls t' given' ∧ ∀ L ∈ Ls, L.path ∈ ps := by
  induction h with
  | done t s => exact ⟨[], .done t s, List.forall_mem_nil _⟩
  | @step plug path c n t cs s₀ s s₁ s' ps hf hcs hvisit _ ih =>
    obtain ⟨Ls, hLs, hpaths⟩ := ih
    replace hpaths : ∀ L ∈ Ls, L.path ∈ path :: ps := fun L hL => .tail _ (hpaths L hL)
    generalize c.revisited true cs = d at hvisit
    unfold visit at hvisit
    split at hvisit
    · rename_i sp o
      obtain ⟨name, fs, ms⟩ := o
      obtain ⟨⟨fields, methods⟩, s₂, hdissolve, h⟩ := ok_of_bind hvisit
      obtain ⟨rfl, rfl⟩ := eq_of_pure h
      obtain ⟨Ls', hLs', hpaths'⟩ := inlines_of_dissolveFields hf.focus sp name hdissolve
      rw [List.nil_append] at hLs'
      refine ⟨Ls' ++ Ls, hLs'.append hLs, List.forall_mem_append.2 ⟨fun L hL => ?_, hpaths⟩⟩
      rw [hpaths' L hL]
      exact .head _
    · obtain ⟨rfl, rfl⟩ := eq_of_pure hvisit
      exact ⟨Ls, hLs, hpaths⟩

end

end Inlining

/-- **Inlining is a chain of liftings.** -/
theorem Expr.inlines_of_inlineObjects {scope : Scope} {names : List String} {e e' : Expr}
    (h : e.inlineObjects scope names = .ok e') :
    ∃ Ls given, Inlining.Inlines scope e names Ls e' given := by
  obtain ⟨⟨_, given⟩, hrun, h⟩ := except_bind_eq_ok h
  cases h
  obtain ⟨ps, hvisits, -, -⟩ := visits_bottomUpM hrun
  obtain ⟨Ls, hLs, -⟩ := Inlining.inlines_of_visits hvisits
  exact ⟨Ls, given, hLs⟩

/-! ## Plain programs -/

/-- A field that no source text holds. -/
def Field.plain (x : String) (value : Expr) : Field :=
  ⟨.nowhere, .plain x, value⟩

/-- A method that no source text holds. -/
def Method.plain (m : String) (params : List String) (body : Expr) : Method :=
  ⟨.nowhere, .plain m, params.map fun p => ⟨.nowhere, .plain p, none⟩, body⟩

/-- An object literal that no source text holds. -/
def Expr.literal (fields : List Field) (methods : List Method) : Expr :=
  .new .nowhere ⟨none, fields, methods⟩

/-- An invocation on a variable that no source text holds. -/
def Expr.invocation (target m : String) (args : List Expr) : Expr :=
  .invoke .nowhere (.var target) (.plain m) [] args

end GameHop
