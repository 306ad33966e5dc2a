import GameHop.Proofs.Term.Paths
import GameHop.Proofs.Term.Variables
import GameHop.Rewriting.Rewrite

/-!
Rewriting derives what it gives. The log of a traversal is the log of a derivation: the program is
rewritten at one path after the other, and each entry is the cost of its step in the program of that
moment.
-/

namespace GameHop

open Rewriting

/-- A place that was rewritten: its path, the names that are bound there, and the entry of the log. -/
structure Site where
  path : List Nat
  bound : List String
  step : RewriteStep

/-- Whether the expression is in parentheses without a label. -/
def Expr.isPlainParen : Expr → Bool
  | .paren _ none _ => true
  | _ => false

theorem Expr.isPlainParen_withChildren (e : Expr) (cs : List Expr) :
    (e.withChildren cs).isPlainParen = e.isPlainParen := by
  unfold withChildren
  split
  · rename_i l _ _
    cases l <;> rfl
  all_goals rfl

namespace Rule

/-- **One step.** The rule turns the program `t` into `t'` at the site: its left side matches the node
    there, an instance of the right side replaces it, and the entry of the log has the instance of the
    distance, with the program around the node put first into its advantages. -/
def Rewrites (rule : Rule) (t : Expr) (site : Site) (t' : Expr) : Prop :=
  ∃ node s d, t.at? site.path = some node ∧ node.isPlainParen = false ∧
    rule.left.matchWith rule.vars node site.bound = .ok (some s) ∧
    rule.distance.substitute s = .ok d ∧
    t.replaceAt? site.path (rule.right.substitute s) = some t' ∧
    (site.path = [] → site.step = ⟨d, none⟩) ∧
    (site.path ≠ [] → ∃ c, t.holeAt? site.path = some c ∧ site.step = ⟨d.inContext c, some c⟩)

/-- **Many steps**, one site after the other. -/
inductive Derives (rule : Rule) : Expr → List Site → Expr → Prop
  | done (t : Expr) : Derives rule t [] t
  | step {t t' t'' : Expr} {site : Site} {sites : List Site} :
    rule.Rewrites t site t' → Derives rule t' sites t'' → Derives rule t (site :: sites) t''

theorem Derives.append {rule : Rule} {t t' t'' : Expr} {sites sites' : List Site}
    (h : rule.Derives t sites t') (h' : rule.Derives t' sites' t'') :
    rule.Derives t (sites ++ sites') t'' := by
  induction h with
  | done t => exact h'
  | step hstep _ ih => exact .step hstep (ih h')

/-- Each site of a derivation is the site of a step. -/
theorem Derives.rewrites {rule : Rule} {t t' : Expr} {sites : List Site}
    (h : rule.Derives t sites t') : ∀ site ∈ sites, ∃ u u', rule.Rewrites u site u' := by
  induction h with
  | done => simp
  | step hstep _ ih => exact List.forall_mem_cons.2 ⟨⟨_, _, hstep⟩, ih⟩

/-- What a traversal of `e` that starts with the names `bound` says of the node at `q`. -/
structure Reaches (rule : Rule) (inMethod : Bool) (bound : List String) (e : Expr) (q : List Nat)
    (names : List String) : Prop where
  node : ∃ n, e.at? q = some n ∧ n.isPlainParen = false
  names_eq : names = bound ++ e.boundAt q
  methods : rule.inMethods = false → inMethod = false ∧ e.entersMethod q = false

theorem Reaches.child {rule : Rule} {inMethod : Bool} {bound names : List String} {e c : Expr}
    {i : Nat} {q : List Nat} (hc : e.children[i]? = some c)
    (h : rule.Reaches (inMethod || e.isBody i) (bound ++ e.boundBefore i) c q names) :
    rule.Reaches inMethod bound e (i :: q) names where
  node := by simpa [Expr.at?, hc] using h.node
  names_eq := by simpa [Expr.boundAt, hc] using h.names_eq
  methods hrule := by
    obtain ⟨hin, hq⟩ := h.methods hrule
    rw [Bool.or_eq_false_iff] at hin
    simp [Expr.entersMethod, hc, hin, hq]

end Rule

/-! ## Places -/

/-- Whether the place is the one at the path. -/
structure Rewriting.Place.Focuses (p : Place) (path : List Nat) : Prop where
  focus : GameHop.Focuses p.plug path
  isRoot_iff : p.isRoot = true ↔ path = []

theorem Rewriting.Place.Focuses.child {p : Place} {path : List Nat} {k : Nat} {build : Expr → Expr}
    (h : GameHop.Focuses (fun e => p.plug (build e)) (path ++ [k])) :
    (p.child build).Focuses (path ++ [k]) :=
  ⟨h, by simp [Place.child]⟩

theorem Rewriting.Place.Focuses.body {p : Place} {path : List Nat} {k : Nat} {build : Expr → Expr}
    (h : GameHop.Focuses (fun e => p.plug (build e)) (path ++ [k])) :
    (p.body build).Focuses (path ++ [k]) :=
  ⟨h, by simp [Place.body]⟩

/-! ## Traversals -/

/-- A traversal of the expression at a place. -/
structure Rule.Traversal (rule : Rule) (p : Place) (path : List Nat) (e e' : Expr) (st st' : State)
    (sites : List Site) : Prop where
  derives : rule.Derives (p.plug e) sites (p.plug e')
  log : st'.log = (sites.map Site.step).reverse ++ st.log
  bound : st'.bound = st.bound ++ e.assigned
  sorted : (sites.map Site.path).Pairwise Path.Before
  reaches : ∀ site ∈ sites, ∃ q, site.path = path ++ q ∧
    rule.Reaches p.inMethod st.bound e q site.bound

/-! ## Runs without faults -/

namespace Rewriting

/-- Whether a run that ends without a fault started without one, and what it did then. -/
def Without {α : Type} (x : StateM State α) (st : State) (post : α → State → Prop) : Prop :=
  (x.run st).2.fault = none → st.fault = none ∧ post (x.run st).1 (x.run st).2

section
variable {α β : Type} {x : StateM State α} {f : α → StateM State β} {st : State}
  {post post' : α → State → Prop} {postf : β → State → Prop}

theorem Without.mono (hx : Without x st post) (h : ∀ a st', post a st' → post' a st') :
    Without x st post' :=
  fun hfault => ⟨(hx hfault).1, h _ _ (hx hfault).2⟩

theorem Without.pure {a : α} (h : post a st) : Without (Pure.pure a) st post :=
  fun hfault => ⟨hfault, h⟩

theorem Without.bind (hx : Without x st post)
    (hf : ∀ a st', Without (f a) st' fun b st'' => post a st' → postf b st'') :
    Without (x >>= f) st postf := by
  intro hfault
  obtain ⟨hfault', hpost⟩ := hf (x.run st).1 (x.run st).2 hfault
  obtain ⟨hfault'', hx⟩ := hx hfault'
  exact ⟨hfault'', hpost hx⟩

theorem without_addBound (names : List String) (st : State) :
    Without (addBound names) st fun _ st' =>
      st'.log = st.log ∧ st'.bound = st.bound ++ names :=
  fun hfault => ⟨hfault, rfl, rfl⟩

/-- Names that are bound while something runs are not bound after it. -/
theorem Without.withBound {names : List String} {post : State → α → State → Prop}
    (h : ∀ st, Without x st (post st)) :
    Without (withBound names x) st fun a st' => st'.bound = st.bound ∧
      ∃ st₁ : State, st₁.log = st'.log ∧ post { st with bound := st.bound ++ names } a st₁ := by
  intro hfault
  obtain ⟨hfault', hpost⟩ := h { st with bound := st.bound ++ names } hfault
  exact ⟨hfault', rfl, (x.run { st with bound := st.bound ++ names }).2, rfl, hpost⟩

end

/-- What a visit does to the node at a path. -/
structure Visited (rule : Rule) (p : Place) (path : List Nat) (e e' : Expr) (st st' : State)
    (sites : List Site) : Prop where
  derives : rule.Derives (p.plug e) sites (p.plug e')
  log : st'.log = (sites.map Site.step).reverse ++ st.log
  bound : st'.bound = st.bound
  length : sites.length ≤ 1
  here : ∀ site ∈ sites, site.path = path ∧ site.bound = st.bound ∧ e.isPlainParen = false ∧
    (rule.inMethods = false → p.inMethod = false)

theorem run_visit (rule : Rule) (p : Place) (e : Expr) (st : State) :
    (visit rule p e).run st =
      if st.fault.isSome || !isTried rule p e then (e, st)
      else match replacement? rule st.bound e with
        | .error f => (e, { st with fault := some f })
        | .ok none => (e, st)
        | .ok (some (replacement, distance)) =>
          (replacement, { st with log := stepAt p distance :: st.log }) := by
  simp only [visit, StateT.run_bind, StateT.run_get, pure_bind]
  split
  · rfl
  · rcases replacement? rule st.bound e with f | (_ | ⟨r, d⟩) <;> rfl

theorem replacement?_eq {rule : Rule} {bound : List String} {e r : Expr} {d : Bound}
    (h : replacement? rule bound e = .ok (some (r, d))) :
    ∃ s, rule.left.matchWith rule.vars e bound = .ok (some s) ∧ r = rule.right.substitute s ∧
      rule.distance.substitute s = .ok d := by
  simp only [replacement?, bind, Except.bind] at h
  cases hmatch : rule.left.matchWith rule.vars e bound with
  | error f => simp [hmatch] at h
  | ok s? =>
    cases s? with
    | none => simp [hmatch, pure, Except.pure] at h
    | some s =>
      cases hd : rule.distance.substitute s with
      | error f => simp [hmatch, hd] at h
      | ok d' =>
        simp only [hmatch, hd, pure, Except.pure, Except.ok.injEq, Option.some.injEq,
          Prod.mk.injEq] at h
        exact ⟨s, rfl, h.1.symm, h.2 ▸ hd⟩

theorem isTried_iff {rule : Rule} {p : Place} {e : Expr} :
    isTried rule p e = true ↔
      (rule.inMethods = false → p.inMethod = false) ∧ e.isPlainParen = false := by
  unfold isTried Expr.isPlainParen
  split <;> cases rule.inMethods <;> simp

/-- The entry of the log for a step at a place. -/
theorem stepAt_eq {p : Place} {path : List Nat} (hp : p.Focuses path) (e : Expr) (d : Bound) :
    (path = [] → stepAt p d = ⟨d, none⟩) ∧
      (path ≠ [] → ∃ c, (p.plug e).holeAt? path = some c ∧ stepAt p d = ⟨d.inContext c, some c⟩) := by
  constructor
  · intro hpath
    rw [stepAt, if_pos (hp.isRoot_iff.2 hpath)]
  · intro hpath
    refine ⟨p.plug (.hole .nowhere), hp.focus.replaceAt?_plug _ _, ?_⟩
    rw [stepAt, if_neg (mt hp.isRoot_iff.1 hpath)]

theorem without_visit (rule : Rule) {p : Place} {path : List Nat} (hp : p.Focuses path) (e : Expr)
    (st : State) :
    Without (visit rule p e) st fun e' st' => ∃ sites, Visited rule p path e e' st st' sites := by
  have hnone : ∃ sites, Visited rule p path e e st st sites :=
    ⟨[], .done _, rfl, rfl, by simp, by simp⟩
  intro hfault
  rw [run_visit] at hfault ⊢
  split at hfault
  · rename_i hskip
    rw [if_pos hskip]
    exact ⟨hfault, hnone⟩
  · rename_i hskip
    rw [if_neg hskip]
    simp only [Bool.or_eq_true, Option.isSome_iff_ne_none, not_or, not_not, Bool.not_eq_true,
      Bool.not_eq_false'] at hskip
    obtain ⟨hst, htried⟩ := hskip
    rcases hr : replacement? rule st.bound e with f | (_ | ⟨r, d⟩)
    · simp [hr] at hfault
    · exact ⟨hst, hnone⟩
    · obtain ⟨s, hmatch, rfl, hd⟩ := replacement?_eq hr
      refine ⟨hst, [⟨path, st.bound, stepAt p d⟩], .step ?_ (.done _), rfl, rfl, by simp, ?_⟩
      · exact ⟨e, s, d, hp.focus.at?_plug e, (isTried_iff.1 htried).2, hmatch, hd,
          hp.focus.replaceAt?_plug _ _, stepAt_eq hp e d⟩
      · simpa using (isTried_iff.1 htried).symm

end Rewriting

/-! ## Children -/

/-- A traversal of the children `cs` of the node at a path, the first of which is its child `k`. The
    names bound at the start of each are given by `names`. -/
structure Rule.Segment (rule : Rule) (whole : List Expr → Expr) (path : List Nat) (k : Nat)
    (inMethod : Bool) (names : Nat → List String) (cs cs' : List Expr) (st st' : State)
    (sites : List Site) : Prop where
  length : cs'.length = cs.length
  derives : rule.Derives (whole cs) sites (whole cs')
  log : st'.log = (sites.map Site.step).reverse ++ st.log
  sorted : (sites.map Site.path).Pairwise Path.Before
  reaches : ∀ site ∈ sites, ∃ i c q, cs[i]? = some c ∧ site.path = path ++ (k + i) :: q ∧
    rule.Reaches inMethod (names i) c q site.bound

section
variable {rule : Rule} {whole : List Expr → Expr} {p : Place} {path : List Nat} {k : Nat}
  {inMethod : Bool} {names : Nat → List String} {c c' e : Expr} {cs cs' : List Expr}
  {st st₀ st₁ st₂ st' : State} {sites sites₁ sites₂ : List Site}

theorem Rule.segment_nil : rule.Segment whole path k inMethod names [] [] st st [] :=
  ⟨rfl, .done _, rfl, by simp, by simp⟩

/-- A child, and then those after it. -/
theorem Rule.Segment.cons (hc : rule.Traversal p (path ++ [k]) c c' st₀ st₁ sites₁)
    (hplug : ∀ x, p.plug x = whole (x :: cs)) (hmethod : p.inMethod = inMethod)
    (hstart : st₀.log = st.log) (hnames : names 0 = st₀.bound)
    (hcs : rule.Segment (fun es => whole (c' :: es)) path (k + 1) inMethod (fun i => names (i + 1))
      cs cs' st₂ st' sites₂)
    (hlog : st₂.log = st₁.log) :
    rule.Segment whole path k inMethod names (c :: cs) (c' :: cs') st st' (sites₁ ++ sites₂) where
  length := by simp [hcs.length]
  derives := by
    have hfirst := hc.derives
    rw [hplug, hplug] at hfirst
    exact hfirst.append hcs.derives
  log := by
    rw [hcs.log, hlog, hc.log, hstart, List.map_append, List.reverse_append, List.append_assoc]
  sorted := by
    rw [List.map_append, List.pairwise_append]
    refine ⟨hc.sorted, hcs.sorted, ?_⟩
    simp only [List.mem_map]
    rintro - ⟨site, hsite, rfl⟩ - ⟨site', hsite', rfl⟩
    obtain ⟨q, hq, -⟩ := hc.reaches site hsite
    obtain ⟨i, c, q', -, hq', -⟩ := hcs.reaches site' hsite'
    rw [hq, hq', List.append_assoc, Path.before_append]
    exact .inl (by omega)
  reaches := by
    intro site hsite
    rcases List.mem_append.1 hsite with hsite | hsite
    · obtain ⟨q, hq, hreach⟩ := hc.reaches site hsite
      refine ⟨0, c, q, rfl, by simp [hq], ?_⟩
      rwa [hnames, ← hmethod]
    · obtain ⟨i, d, q, hd, hq, hreach⟩ := hcs.reaches site hsite
      exact ⟨i + 1, d, q, hd, by rw [hq, Nat.add_right_comm, Nat.add_assoc], hreach⟩

/-- A traversal of all children of the node at a path. -/
structure Rule.Sweep (rule : Rule) (p : Place) (path : List Nat) (e : Expr) (cs : List Expr)
    (st st' : State) (sites : List Site) : Prop where
  derives : rule.Derives (p.plug e) sites (p.plug (e.withChildren cs))
  log : st'.log = (sites.map Site.step).reverse ++ st.log
  sorted : (sites.map Site.path).Pairwise Path.Before
  reaches : ∀ site ∈ sites, ∃ i c q, e.children[i]? = some c ∧ site.path = path ++ i :: q ∧
    rule.Reaches (p.inMethod || e.isBody i) (st.bound ++ e.boundBefore i) c q site.bound

/-- The children, and then the node. -/
theorem Rule.Sweep.visited (h : rule.Sweep p path e cs st st₁ sites₁) (hlog : st₂.log = st₁.log)
    (hbound : st₂.bound = st.bound ++ e.assigned)
    (hv : Visited rule p path (e.withChildren cs) c st₂ st' sites₂) :
    rule.Traversal p path e c st st' (sites₁ ++ sites₂) where
  derives := h.derives.append hv.derives
  log := by
    rw [hv.log, hlog, h.log, List.map_append, List.reverse_append, List.append_assoc]
  bound := by rw [hv.bound, hbound]
  sorted := by
    rw [List.map_append, List.pairwise_append]
    refine ⟨h.sorted, ?_, ?_⟩
    · match sites₂, hv.length with
      | [], _ => simp
      | [site], _ => simp
    · simp only [List.mem_map]
      rintro - ⟨site, hsite, rfl⟩ - ⟨site', hsite', rfl⟩
      obtain ⟨i, c, q, -, hq, -⟩ := h.reaches site hsite
      rw [hq, (hv.here site' hsite').1]
      conv_rhs => rw [← List.append_nil path]
      rw [Path.before_append]
      trivial
  reaches := by
    intro site hsite
    rcases List.mem_append.1 hsite with hsite | hsite
    · obtain ⟨i, c, q, hc, hq, hreach⟩ := h.reaches site hsite
      exact ⟨i :: q, hq, hreach.child hc⟩
    · obtain ⟨hpath, hnames, hparen, hmethod⟩ := hv.here site hsite
      rw [Expr.isPlainParen_withChildren] at hparen
      refine ⟨[], by rw [hpath, List.append_nil], ⟨e, rfl, hparen⟩, ?_,
        fun hrule => ⟨hmethod hrule, rfl⟩⟩
      rw [hnames, hbound, Expr.boundAt]

end

/-! ## Nodes -/

theorem Rewriting.addBound_nil : addBound [] = pure () := by
  funext st
  show (_, { st with bound := st.bound ++ [] }) = (_, st)
  rw [List.append_nil]

theorem Expr.rewriteAt_eq (rule : Rule) (p : Place) {e : Expr} (he : e.object? = none) :
    e.rewriteAt rule p = (do
      let cs ← rewriteList rule p e.withChildren e.children
      addBound e.declares
      visit rule p (e.withChildren cs)) := by
  cases e with
  | new s o => cases he
  | assign s x a =>
    simp [rewriteAt, rewriteList, children, withChildren, declares]
  | call s f args =>
    simp only [rewriteAt, children, declares, addBound_nil, pure_bind]
    rfl
  | _ =>
    simp [rewriteAt, rewriteList, children, withChildren, declares,
      addBound_nil]

theorem Expr.boundBefore_eq {e : Expr} (he : e.object? = none) (i : Nat) :
    e.boundBefore i = (e.children.take i).flatMap assigned := by
  cases e with
  | new s o => cases he
  | _ => rfl

theorem Expr.isBody_eq {e : Expr} (he : e.object? = none) (i : Nat) : e.isBody i = false := by
  cases e with
  | new s o => cases he
  | _ => rfl

/-! ## Runs -/

/-- Whether every traversal of the expression, wherever it stands, is a derivation. -/
def Rule.Traverses (rule : Rule) (e : Expr) : Prop :=
  ∀ p path, p.Focuses path → ∀ st,
    Without (e.rewriteAt rule p) st fun e' st' =>
      ∃ sites, rule.Traversal p path e e' st st' sites

section
variable {rule : Rule} {p : Place} {path : List Nat}

theorem Rule.without_rewriteList {cs : List Expr} (hcs : ∀ c ∈ cs, rule.Traverses c)
    (build : List Expr → Expr) (k : Nat)
    (hfocus : ∀ before after, before.length + 1 + after.length = cs.length →
      Focuses (fun x => p.plug (build (before ++ x :: after))) (path ++ [k + before.length]))
    (st : State) :
    Without (Expr.rewriteList rule p build cs) st fun cs' st' =>
      st'.bound = st.bound ++ cs.flatMap Expr.assigned ∧
      ∃ sites, rule.Segment (fun es => p.plug (build es)) path k p.inMethod
        (fun i => st.bound ++ (cs.take i).flatMap Expr.assigned) cs cs' st st' sites := by
  induction cs generalizing build k st with
  | nil => exact Without.pure ⟨by simp, [], segment_nil⟩
  | cons c cs ih =>
    rw [List.forall_mem_cons] at hcs
    have hplace : (p.child fun x => build (x :: cs)).Focuses (path ++ [k]) :=
      Place.Focuses.child (hfocus [] cs (by simp; omega))
    have hrest : ∀ c' before after, before.length + 1 + after.length = cs.length →
        Focuses (fun x => p.plug (build (c' :: (before ++ x :: after))))
          (path ++ [k + 1 + before.length]) := by
      intro c' before after hlength
      have := hfocus (c' :: before) after (by simp; omega)
      rwa [List.length_cons, Nat.add_comm before.length, ← Nat.add_assoc] at this
    rw [Expr.rewriteList]
    refine (hcs.1 _ _ hplace st).bind fun c' st₁ => ?_
    refine (ih hcs.2 (fun es => build (c' :: es)) (k + 1) (hrest c') st₁).bind fun cs' st₂ => ?_
    refine Without.pure ?_
    rintro ⟨hbound, sites₂, hseg⟩ ⟨sites₁, hc⟩
    refine ⟨by rw [hbound, hc.bound, List.flatMap_cons, List.append_assoc], sites₁ ++ sites₂, ?_⟩
    refine Rule.Segment.cons hc (fun _ => rfl) rfl rfl (by simp) ?_ rfl
    simpa [hc.bound] using hseg

theorem Rule.without_rewriteFields {fs : List Field} (hfs : ∀ f ∈ fs, rule.Traverses f.value)
    (build : List Field → Expr) (k : Nat)
    (hfocus : ∀ before after : List Expr, before.length + 1 + after.length = fs.length →
      Focuses (fun x => p.plug (build (Field.withValues fs (before ++ x :: after))))
        (path ++ [k + before.length]))
    (st : State) :
    Without (Expr.rewriteFields rule p build fs) st fun fs' st' =>
      st'.bound = st.bound ++ fs.flatMap (fun f => f.value.assigned ++ [f.name.name]) ∧
      ∃ values sites, fs' = Field.withValues fs values ∧
        rule.Segment (fun es => p.plug (build (Field.withValues fs es))) path k p.inMethod
          (fun i => st.bound ++ (fs.take i).flatMap fun f => f.value.assigned ++ [f.name.name])
          (fs.map (·.value)) values st st' sites := by
  induction fs generalizing build k st with
  | nil => exact Without.pure ⟨by simp, [], [], rfl, segment_nil⟩
  | cons f fs ih =>
    obtain ⟨s, x, value⟩ := f
    rw [List.forall_mem_cons] at hfs
    have hplug : ∀ e, p.plug (build (Field.withValues (⟨s, x, value⟩ :: fs)
        (e :: fs.map (·.value)))) = p.plug (build (⟨s, x, e⟩ :: fs)) := by
      intro e
      rw [Field.withValues_cons, Field.withValues_values]
    have hplace : (p.child fun e => build (⟨s, x, e⟩ :: fs)).Focuses (path ++ [k]) := by
      have := hfocus [] (fs.map (·.value)) (by simp; omega)
      simp only [List.nil_append, hplug] at this
      exact Place.Focuses.child this
    have hrest : ∀ v (before after : List Expr), before.length + 1 + after.length = fs.length →
        Focuses (fun e => p.plug (build (⟨s, x, v⟩ ::
          Field.withValues fs (before ++ e :: after)))) (path ++ [k + 1 + before.length]) := by
      intro v before after hlength
      have := hfocus (v :: before) after (by simp; omega)
      rwa [List.length_cons, Nat.add_comm before.length, ← Nat.add_assoc] at this
    rw [Expr.rewriteFields]
    refine (hfs.1 _ _ hplace st).bind fun value' st₁ => ?_
    refine (without_addBound _ st₁).bind fun _ st₂ => ?_
    refine (ih hfs.2 (fun fs => build (⟨s, x, value'⟩ :: fs)) (k + 1) (hrest value') st₂).bind
      fun fs' st₃ => Without.pure ?_
    rintro ⟨hbound, values, sites₂, rfl, hseg⟩ ⟨hlog, hbound₂⟩ ⟨sites₁, hc⟩
    refine ⟨by simp [hbound, hbound₂, hc.bound], value' :: values, sites₁ ++ sites₂, rfl, ?_⟩
    refine Rule.Segment.cons hc (fun e => (hplug e).symm) rfl rfl (by simp) ?_ hlog
    simpa [hc.bound, hbound₂, Field.withValues_cons] using hseg

theorem Rule.without_rewriteMethods {ms : List Method} (hms : ∀ m ∈ ms, rule.Traverses m.body)
    (build : List Method → Expr) (k : Nat)
    (hfocus : ∀ before after : List Expr, before.length + 1 + after.length = ms.length →
      Focuses (fun x => p.plug (build (Method.withBodies ms (before ++ x :: after))))
        (path ++ [k + before.length]))
    (st : State) :
    Without (Expr.rewriteMethods rule p build ms) st fun ms' st' =>
      st'.bound = st.bound ∧
      ∃ bodies sites, ms' = Method.withBodies ms bodies ∧
        rule.Segment (fun es => p.plug (build (Method.withBodies ms es))) path k true
          (fun i => st.bound ++ (ms[i]?.map fun m => m.params.map (·.name.name)).getD [])
          (ms.map (·.body)) bodies st st' sites := by
  induction ms generalizing build k st with
  | nil => exact Without.pure ⟨rfl, [], [], rfl, segment_nil⟩
  | cons m ms ih =>
    obtain ⟨s, x, ps, body⟩ := m
    rw [List.forall_mem_cons] at hms
    have hplug : ∀ e, p.plug (build (Method.withBodies (⟨s, x, ps, body⟩ :: ms)
        (e :: ms.map (·.body)))) = p.plug (build (⟨s, x, ps, e⟩ :: ms)) := by
      intro e
      rw [Method.withBodies_cons, Method.withBodies_bodies]
    have hplace : (p.body fun e => build (⟨s, x, ps, e⟩ :: ms)).Focuses (path ++ [k]) := by
      have := hfocus [] (ms.map (·.body)) (by simp; omega)
      simp only [List.nil_append, hplug] at this
      exact Place.Focuses.body this
    have hrest : ∀ b (before after : List Expr), before.length + 1 + after.length = ms.length →
        Focuses (fun e => p.plug (build (⟨s, x, ps, b⟩ ::
          Method.withBodies ms (before ++ e :: after)))) (path ++ [k + 1 + before.length]) := by
      intro b before after hlength
      have := hfocus (b :: before) after (by simp; omega)
      rwa [List.length_cons, Nat.add_comm before.length, ← Nat.add_assoc] at this
    rw [Expr.rewriteMethods]
    refine (Without.withBound (hms.1 _ _ hplace)).bind fun body' st₁ => ?_
    refine (ih hms.2 (fun ms => build (⟨s, x, ps, body'⟩ :: ms)) (k + 1) (hrest body') st₁).bind
      fun ms' st₂ => Without.pure ?_
    rintro ⟨hbound, bodies, sites₂, rfl, hseg⟩ ⟨hbound₁, st₀, hlog, sites₁, hc⟩
    refine ⟨by rw [hbound, hbound₁], body' :: bodies, sites₁ ++ sites₂, rfl, ?_⟩
    refine Rule.Segment.cons hc (fun e => (hplug e).symm) rfl rfl (by simp) ?_ hlog.symm
    simpa [hbound₁, Method.withBodies_cons] using hseg

/-- A node that is no object literal. -/
theorem Rule.traverses_plain {e : Expr} (he : e.object? = none)
    (hcs : ∀ c ∈ e.children, rule.Traverses c) : rule.Traverses e := by
  intro p path hp st
  have hfocus : ∀ before after, before.length + 1 + after.length = e.children.length →
      Focuses (fun x => p.plug (e.withChildren (before ++ x :: after)))
        (path ++ [0 + before.length]) := by
    intro before after hlength
    rw [Nat.zero_add]
    exact hp.focus.comp (e.focuses_child before after hlength)
  rw [Expr.rewriteAt_eq rule p he]
  refine (without_rewriteList hcs e.withChildren 0 hfocus st).bind fun cs st₁ => ?_
  refine (without_addBound _ st₁).bind fun _ st₂ => ?_
  refine (without_visit rule hp _ st₂).mono fun e' st₃ => ?_
  rintro ⟨sites₂, hv⟩ ⟨hlog, hbound₂⟩ ⟨hbound₁, sites₁, hseg⟩
  have hsweep : rule.Sweep p path e cs st st₁ sites₁ := by
    refine ⟨?_, hseg.log, hseg.sorted, fun site hsite => ?_⟩
    · simpa [Expr.withChildren_children] using hseg.derives
    · obtain ⟨i, c, q, hc, hq, hreach⟩ := hseg.reaches site hsite
      refine ⟨i, c, q, hc, by rw [hq, Nat.zero_add], ?_⟩
      rwa [Expr.isBody_eq he, Bool.or_false, Expr.boundBefore_eq he]
  refine ⟨_, hsweep.visited hlog ?_ hv⟩
  rw [hbound₂, hbound₁, Expr.assigned_eq he, List.append_assoc]

theorem Rule.focuses_field (hp : p.Focuses path) (s : Span) (c : Option Ident) (fs : List Field)
    (ms : List Method) {before after : List Expr}
    (hlength : before.length + 1 + after.length = fs.length) :
    Focuses (fun x => p.plug (.new s ⟨c, Field.withValues fs (before ++ x :: after), ms⟩))
      (path ++ [0 + before.length]) := by
  have hwhole : ∀ x, (Expr.new s ⟨c, fs, ms⟩).withChildren
      (before ++ x :: (after ++ ms.map (·.body))) =
        .new s ⟨c, Field.withValues fs (before ++ x :: after), ms⟩ := by
    intro x
    rw [← List.cons_append, ← List.append_assoc,
      Expr.withChildren_new_append _ _ _ _ _ (by simp; omega), Method.withBodies_bodies]
  have hfocus := (Expr.new s ⟨c, fs, ms⟩).focuses_child before (after ++ ms.map (·.body))
    (by simp [Expr.children]; omega)
  simp only [hwhole] at hfocus
  rw [Nat.zero_add]
  exact hp.focus.comp hfocus

theorem Rule.focuses_method (hp : p.Focuses path) (s : Span) (c : Option Ident) (fs : List Field)
    (ms : List Method) {before after : List Expr}
    (hlength : before.length + 1 + after.length = ms.length) :
    Focuses (fun x => p.plug (.new s ⟨c, fs, Method.withBodies ms (before ++ x :: after)⟩))
      (path ++ [fs.length + before.length]) := by
  have hwhole : ∀ x, (Expr.new s ⟨c, fs, ms⟩).withChildren
      (fs.map (·.value) ++ before ++ x :: after) =
        .new s ⟨c, fs, Method.withBodies ms (before ++ x :: after)⟩ := by
    intro x
    rw [List.append_assoc, Expr.withChildren_new_append _ _ _ _ _ (by simp),
      Field.withValues_values]
  have hfocus := (Expr.new s ⟨c, fs, ms⟩).focuses_child (fs.map (·.value) ++ before) after
    (by simp [Expr.children]; omega)
  simp only [hwhole, List.length_append, List.length_map] at hfocus
  exact hp.focus.comp hfocus

/-- The values of the fields, and then the bodies of the methods. -/
theorem Rule.sweep_new {s : Span} {c : Option Ident} {fs : List Field} {ms : List Method}
    {values bodies : List Expr} {st st₁ st₂ : State} {sites₁ sites₂ : List Site}
    (hfields : rule.Segment (fun es => p.plug (.new s ⟨c, Field.withValues fs es, ms⟩)) path 0
      p.inMethod
      (fun i => st.bound ++ (fs.take i).flatMap fun f => f.value.assigned ++ [f.name.name])
      (fs.map (·.value)) values st st₁ sites₁)
    (hbound : st₁.bound = st.bound ++ fs.flatMap fun f => f.value.assigned ++ [f.name.name])
    (hmethods : rule.Segment
      (fun es => p.plug (.new s ⟨c, Field.withValues fs values, Method.withBodies ms es⟩)) path
      fs.length true
      (fun i => st₁.bound ++ (ms[i]?.map fun m => m.params.map (·.name.name)).getD [])
      (ms.map (·.body)) bodies st₁ st₂ sites₂) :
    rule.Sweep p path (.new s ⟨c, fs, ms⟩) (values ++ bodies) st st₂ (sites₁ ++ sites₂) where
  derives := by
    have hlength : values.length = fs.length := by simpa using hfields.length
    have h₁ := hfields.derives
    have h₂ := hmethods.derives
    simp only [Field.withValues_values] at h₁
    simp only [Method.withBodies_bodies] at h₂
    rw [Expr.withChildren_new_append _ _ _ _ _ hlength]
    exact h₁.append h₂
  log := by
    rw [hmethods.log, hfields.log, List.map_append, List.reverse_append, List.append_assoc]
  sorted := by
    rw [List.map_append, List.pairwise_append]
    refine ⟨hfields.sorted, hmethods.sorted, ?_⟩
    simp only [List.mem_map]
    rintro - ⟨site, hsite, rfl⟩ - ⟨site', hsite', rfl⟩
    obtain ⟨i, v, q, hv, hq, -⟩ := hfields.reaches site hsite
    obtain ⟨j, b, q', -, hq', -⟩ := hmethods.reaches site' hsite'
    have hi : i < fs.length := by simpa using (List.getElem?_eq_some_iff.1 hv).1
    rw [hq, hq', Path.before_append]
    exact .inl (by omega)
  reaches := by
    intro site hsite
    rcases List.mem_append.1 hsite with hsite | hsite
    · obtain ⟨i, v, q, hv, hq, hreach⟩ := hfields.reaches site hsite
      have hi : i < fs.length := by simpa using (List.getElem?_eq_some_iff.1 hv).1
      refine ⟨i, v, q, ?_, by rw [hq, Nat.zero_add], ?_⟩
      · rw [Expr.children, List.getElem?_append_left (by simpa using hi), hv]
      · have hbody : (Expr.new s ⟨c, fs, ms⟩).isBody i = false := by simp [Expr.isBody, hi]
        simpa [hbody, Expr.boundBefore, hi] using hreach
    · obtain ⟨i, b, q, hb, hq, hreach⟩ := hmethods.reaches site hsite
      refine ⟨fs.length + i, b, q, ?_, hq, ?_⟩
      · rw [Expr.children, List.getElem?_append_right (by simp)]
        simpa using hb
      · have hbody : (Expr.new s ⟨c, fs, ms⟩).isBody (fs.length + i) = true := by
          simp [Expr.isBody]
        have htake : fs.take (fs.length + i) = fs := List.take_of_length_le (by omega)
        have hnot : ¬ fs.length + i < fs.length := by omega
        simpa [hbody, Expr.boundBefore, htake, hbound, hnot] using hreach

/-- An object literal. -/
theorem Rule.traverses_new {s : Span} {c : Option Ident} {fs : List Field} {ms : List Method}
    (hfs : ∀ f ∈ fs, rule.Traverses f.value) (hms : ∀ m ∈ ms, rule.Traverses m.body) :
    rule.Traverses (.new s ⟨c, fs, ms⟩) := by
  intro p path hp st
  rw [Expr.rewriteAt]
  have hinner : ∀ st, Without (do
      let fields' ← Expr.rewriteFields rule p (fun fs => .new s ⟨c, fs, ms⟩) fs
      let methods' ← Expr.rewriteMethods rule p (fun ms => .new s ⟨c, fields', ms⟩) ms
      return (fields', methods')) st fun r st' => ∃ values bodies sites,
        r = (Field.withValues fs values, Method.withBodies ms bodies) ∧
        values.length = fs.length ∧
        rule.Sweep p path (.new s ⟨c, fs, ms⟩) (values ++ bodies) st st' sites := by
    intro st
    refine (without_rewriteFields hfs _ 0
      (fun _ _ h => focuses_field hp s c fs ms h) st).bind fun fields' st₁ => ?_
    refine (without_rewriteMethods hms _ fields'.length
      (fun _ _ h => focuses_method hp s c fields' ms h) st₁).bind fun methods' st₂ => ?_
    refine Without.pure ?_
    rintro ⟨-, bodies, sites₂, rfl, hmethods⟩ ⟨hbound, values, sites₁, rfl, hfields⟩
    have hlength : values.length = fs.length := by simpa using hfields.length
    rw [Field.length_withValues, hlength, Nat.min_self] at hmethods
    exact ⟨values, bodies, _, rfl, hlength, sweep_new hfields hbound hmethods⟩
  refine (Without.withBound hinner).bind fun r st₁ => ?_
  refine (without_visit rule hp _ st₁).mono fun e' st₂ => ?_
  rintro ⟨sites₂, hv⟩ ⟨hbound, st₀, hlog, values, bodies, sites₁, rfl, hlength, hsweep⟩
  simp only [List.append_nil] at hsweep
  simp only [← Expr.withChildren_new_append s c fs ms bodies hlength] at hv
  exact ⟨_, hsweep.visited hlog.symm (by simpa [Expr.assigned] using hbound) hv⟩

/-- **Every traversal is a derivation.** -/
theorem Rule.traverses (rule : Rule) (e : Expr) : rule.Traverses e := by
  induction e using Expr.inductNode with
  | step e ih =>
    cases e with
    | new s o =>
      obtain ⟨c, fs, ms⟩ := o
      exact traverses_new
        (fun f hf => ih f.value (List.mem_append_left _ (List.mem_map_of_mem hf)))
        (fun m hm => ih m.body (List.mem_append_right _ (List.mem_map_of_mem hm)))
    | _ => exact traverses_plain rfl ih

end

/-- Rewriting without a fault is a traversal of the whole program, and its log is that of the sites. -/
theorem Rule.traversal_of_rewrite {rule : Rule} {program : Expr} {steps : List RewriteStep}
    (h : (rule.rewrite program).2 = .ok steps) : ∃ (st : State) (sites : List Site),
      sites.map Site.step = steps ∧
      rule.Traversal ⟨true, false, id⟩ [] program (rule.rewrite program).1 ⟨[], [], none⟩ st sites := by
  have hroot : (Place.mk true false id).Focuses [] := ⟨Focuses.root, by simp⟩
  have hrun := rule.traverses program _ _ hroot ⟨[], [], none⟩
  unfold Without at hrun
  unfold rewrite at h ⊢
  generalize StateT.run (program.rewriteAt rule ⟨true, false, id⟩) ⟨[], [], none⟩ = r at *
  obtain ⟨result, st⟩ := r
  cases hfault : st.fault with
  | some f => simp [hfault] at h
  | none =>
    obtain ⟨-, sites, htraversal⟩ := hrun hfault
    simp only [hfault] at h ⊢
    have hlog : st.log = (sites.map Site.step).reverse := by simpa using htraversal.log
    refine ⟨st, sites, ?_, htraversal⟩
    rw [← Except.ok.inj h, hlog, List.reverse_reverse]

end GameHop
