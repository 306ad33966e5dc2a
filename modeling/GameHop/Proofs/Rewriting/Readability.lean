import GameHop.Proofs.Reading.Text
import GameHop.Proofs.Reading.Readable
import GameHop.Proofs.Unfolding.Bodies
import GameHop.Rewriting.Inline

/-!
What programs are made of in a proof stays readable: substitution, replacement, unfolding and
inlining give readable expressions if they are given readable ones.
-/

namespace GameHop

/-! ## Results of computations -/

/-- What computations ensure of what they return, if they return something. -/
structure Assurance (m : Type → Type) [Monad m] where
  Ensures : {α : Type} → m α → (α → Prop) → Prop
  pure : ∀ {α : Type} {P : α → Prop} {a : α}, P a → Ensures (Pure.pure a) P
  bind : ∀ {α β : Type} {P : α → Prop} {Q : β → Prop} {x : m α} {f : α → m β},
    Ensures x P → (∀ a, P a → Ensures (f a) Q) → Ensures (x >>= f) Q

namespace Assurance

/-- Without effects a computation is its result. -/
def id : Assurance Id where
  Ensures x P := P x.run
  pure h := h
  bind hx hf := hf _ hx

/-- Nothing is ensured of failures. -/
def except (ε : Type) : Assurance (Except ε) where
  Ensures x P := ∀ a, x = .ok a → P a
  pure := by
    rintro α P a ha b ⟨⟩
    exact ha
  bind := by
    intro α β P Q x f hx hf b hb
    cases x with
    | error e => cases hb
    | ok a => exact hf a (hx a rfl) b hb

/-- From states with the invariant, and into such states. -/
def state {σ : Type} {m : Type → Type} [Monad m] (A : Assurance m) (I : σ → Prop) :
    Assurance (StateT σ m) where
  Ensures x P := ∀ s, I s → A.Ensures (x.run s) fun r => P r.1 ∧ I r.2
  pure ha _ hs := A.pure ⟨ha, hs⟩
  bind hx hf s hs := A.bind (hx s hs) fun r hr => hf r.1 hr.1 r.2 hr.2

section
variable {σ α : Type} {m : Type → Type} [Monad m] {A : Assurance m} {I : σ → Prop} {P : α → Prop}

theorem ensures_get : (A.state I).Ensures get I :=
  fun _ hs => A.pure ⟨hs, hs⟩

theorem ensures_set {s : σ} (hs : I s) : (A.state I).Ensures (set s) fun _ => True :=
  fun _ _ => A.pure ⟨trivial, hs⟩

theorem ensures_throw {ε : Type} (e : ε) :
    ((except ε).state I).Ensures (throw e : StateT σ (Except ε) α) P := by
  rintro s hs a ⟨⟩

theorem ensures_lift {x : m α} (hx : A.Ensures x P) :
    (A.state I).Ensures (liftM x : StateT σ m α) P :=
  fun _ hs => A.bind hx fun _ ha => A.pure ⟨ha, hs⟩

theorem ensures_mapM [LawfulMonad m] {β : Type} {f : β → m α} {bs : List β}
    (h : ∀ b ∈ bs, A.Ensures (f b) P) : A.Ensures (bs.mapM f) fun as => ∀ a ∈ as, P a := by
  induction bs with
  | nil => exact A.pure (List.forall_mem_nil _)
  | cons b bs ih =>
    rw [List.forall_mem_cons] at h
    rw [List.mapM_cons]
    refine A.bind h.1 fun a ha => ?_
    refine A.bind (ih h.2) fun as has => ?_
    exact A.pure (List.forall_mem_cons.2 ⟨ha, has⟩)

end

end Assurance

/-! ## Traversals -/

theorem Expr.readable_withChildren {e : Expr} (he : e.Readable) {cs : List Expr}
    (hlength : cs.length = e.children.length) (hcs : ∀ c ∈ cs, c.Readable) :
    (e.withChildren cs).Readable := by
  rw [readable_iff, e.children_withChildren cs hlength]
  have hclaim : (e.withChildren cs).claim? = e.claim? := by
    unfold withChildren
    split <;> rfl
  exact ⟨⟨legibleRoot_withChildren he.root.legible cs, hclaim ▸ he.root.settled⟩, hcs⟩

section
variable {m : Type → Type} [Monad m] (A : Assurance m) (enter : Bool) {visit : Expr → m Expr}
  {P : Expr → Prop}

theorem Assurance.ensures_bottomUpListM {es : List Expr}
    (h : ∀ e ∈ es, A.Ensures (e.bottomUpM enter visit) P) :
    A.Ensures (Expr.bottomUpListM enter visit es) fun cs =>
      cs.length = es.length ∧ ∀ c ∈ cs, P c := by
  induction es with
  | nil =>
    rw [Expr.bottomUpListM]
    exact A.pure ⟨rfl, List.forall_mem_nil _⟩
  | cons e es ih =>
    rw [List.forall_mem_cons] at h
    rw [Expr.bottomUpListM]
    refine A.bind h.1 fun c hc => ?_
    refine A.bind (ih h.2) fun cs hcs => ?_
    exact A.pure ⟨congrArg (· + 1) hcs.1, List.forall_mem_cons.2 ⟨hc, hcs.2⟩⟩

variable [LawfulMonad m]

/-- **What traversals ensure.** A traversal keeps what its visits keep, if nodes have it with any
    children that have it. -/
theorem Assurance.ensures_bottomUpM (hchild : ∀ e, P e → ∀ c ∈ e.children, P c)
    (hnode : ∀ e cs, P e → cs.length = e.children.length → (∀ c ∈ cs, P c) → P (e.withChildren cs))
    (hvisit : ∀ e, P e → A.Ensures (visit e) P) (e : Expr) (he : P e) :
    A.Ensures (e.bottomUpM enter visit) P := by
  induction e using Expr.inductNode with
  | step e ih =>
    have hchildren := hchild e he
    have hvisited : ∀ c ∈ e.children, A.Ensures (c.bottomUpM enter visit) P := fun c hc =>
      ih c hc (hchildren c hc)
    rw [Expr.bottomUpM_eq]
    refine A.bind (A.ensures_bottomUpListM enter fun c hc => hvisited c (List.mem_of_mem_take hc))
      fun cs hcs => hvisit _ (hnode e _ he (Expr.length_revisited hcs.1) ?_)
    exact List.forall_mem_append.2 ⟨hcs.2, fun c hc => hchildren c (List.mem_of_mem_drop hc)⟩

/-- **Traversals keep readability** if their visits do. -/
theorem Expr.readable_bottomUpM (hvisit : ∀ e, e.Readable → A.Ensures (visit e) Expr.Readable)
    (e : Expr) (he : e.Readable) : A.Ensures (e.bottomUpM enter visit) Expr.Readable :=
  A.ensures_bottomUpM enter (fun _ he _ hc => he.child hc)
    (fun _ _ he hlength hcs => readable_withChildren he hlength hcs) hvisit e he

theorem Expr.readable_bottomUp {visit : Expr → Expr}
    (hvisit : ∀ e, e.Readable → (visit e).Readable) {e : Expr} (he : e.Readable) :
    (e.bottomUp enter visit).Readable :=
  readable_bottomUpM .id enter hvisit e he

end

/-! ## Substitution and replacement -/

/-- **Substitution keeps readability.** -/
theorem Expr.readable_substitute {s : Substitution} (hs : ∀ b ∈ s, b.2.Readable) {e : Expr}
    (he : e.Readable) : (e.substitute s).Readable := by
  have hget : ∀ x t, s.get? x = some t → t.Readable := by
    intro x t ht
    exact hs _ (mem_of_lookup ht)
  refine readable_bottomUp _ (fun e he => ?_) he
  unfold substituteRoot
  split
  · rename_i span x
    cases hx : s.get? x.name with
    | none => exact he
    | some t => exact hget _ _ hx
  · rename_i span x e
    split
    · rename_i y hy
      obtain ⟨t, ht, hty⟩ := Option.bind_eq_some_iff.1 hy
      obtain ⟨s', i, rfl, rfl⟩ := eq_lookup_of_varName? hty
      have hi := hget _ _ ht
      rw [readable_lookup] at hi
      rw [readable_assign] at he ⊢
      exact ⟨hi, he.2⟩
    · exact he
  · exact he

/-- Whether the new names are identifiers. -/
def Renaming.Legible (names : Renaming) : Prop :=
  ∀ b ∈ names, Lexer.isName b.2 = true

theorem Renaming.Legible.getD {names : Renaming} (hnames : names.Legible) {x : String}
    (hx : Lexer.isName x = true) : Lexer.isName ((names.lookup x).getD x) = true := by
  cases hy : names.lookup x with
  | none => exact hx
  | some y => exact hnames _ (mem_of_lookup hy)

/-- Renaming to identifiers keeps readability. -/
theorem Expr.readable_rename {names : Renaming} (hnames : names.Legible) {e : Expr}
    (he : e.Readable) : (e.rename names).Readable := by
  refine readable_bottomUp _ (fun e he => ?_) he
  unfold renameRoot
  split
  · rw [readable_lookup] at he ⊢
    exact hnames.getD he
  · rw [readable_assign] at he ⊢
    exact ⟨hnames.getD he.1, he.2⟩
  · exact he

theorem Expr.Readable.at? {e n : Expr} {path : List Nat} (he : e.Readable)
    (h : e.at? path = some n) : n.Readable := by
  induction path generalizing e with
  | nil => exact Option.some.inj h ▸ he
  | cons i path ih =>
    obtain ⟨c, hc, h⟩ := Option.bind_eq_some_iff.1 h
    exact ih (he.child (List.mem_of_getElem? hc)) h

/-- **Replacement keeps readability.** -/
theorem Expr.readable_replaceAt? {e r e' : Expr} {path : List Nat} (he : e.Readable)
    (hr : r.Readable) (h : e.replaceAt? path r = some e') : e'.Readable := by
  induction path generalizing e e' with
  | nil =>
    rw [replaceAt?_nil] at h
    exact Option.some.inj h ▸ hr
  | cons i path ih =>
    rw [replaceAt?_cons] at h
    obtain ⟨c, hc, h⟩ := Option.bind_eq_some_iff.1 h
    obtain ⟨c', hc', rfl⟩ := Option.map_eq_some_iff.1 h
    refine readable_withChildren he (by simp) fun d hd => ?_
    rcases List.mem_or_eq_of_mem_set hd with hd | rfl
    · exact he.child hd
    · exact ih (he.child (List.mem_of_getElem? hc)) hc'

theorem Expr.Readable.unparen {e : Expr} (he : e.Readable) : e.unparen.Readable := by
  fun_induction Expr.unparen e with
  | case1 s e ih => exact ih ((readable_paren _ _).1 he).2
  | case2 => exact he

/-- The object that a readable expression is, perhaps in parentheses. -/
theorem Expr.Readable.object {e : Expr} (he : e.Readable) {o : Object}
    (h : e.unparen.object? = some o) : o.Readable := by
  have hread := he.unparen
  cases hu : e.unparen with
  | new s o' =>
    rw [hu] at h hread
    obtain rfl : o' = o := Option.some.inj h
    exact (readable_new _).1 hread
  | _ =>
    rw [hu] at h
    cases h

/-! ## Unfolding -/

/-- Arguments in the place of parameters keep readability. -/
theorem Expr.readable_putArgs {args : List (String × Expr)} (hargs : ∀ a ∈ args, a.2.Readable)
    (branch : Bool) {e : Expr} (he : e.Readable) : (e.putArgs args branch).1.Readable := by
  rw [putArgs_fst]
  refine readable_bottomUp _ (fun e he => ?_) he
  cases e with
  | lookup s x =>
    rw [putRoot]
    cases harg : args.lookup x.name with
    | none => exact he
    | some a => exact hargs _ (mem_of_lookup harg)
  | _ => exact he

/-- Whether the body of a function is readable. -/
def Function.Readable (f : Function) : Prop :=
  ∀ e ∈ f.body, e.Readable

/-- Whether the bodies of all functions are readable. -/
def Functions.Readable (fs : Functions) : Prop :=
  ∀ f ∈ fs.toList, f.Readable

/-- An argument of a call; missing ones are zero. -/
theorem Expr.readable_argument {args : List Expr} (hargs : ∀ a ∈ args, a.Readable) (i : Nat) :
    (args[i]?.getD (.ofNat 0)).Readable := by
  cases ha : args[i]? with
  | none => exact readable_int _
  | some a => exact hargs a (List.mem_of_getElem? ha)

theorem Function.readable_instantiate? {f : Function} (hf : f.Readable) {args : List Expr}
    (hargs : ∀ a ∈ args, a.Readable) {e : Expr} (h : f.instantiate? args = some e) :
    e.Readable := by
  unfold instantiate? at h
  obtain ⟨body, hbody, h⟩ := Option.bind_eq_some_iff.1 h
  have hbind : ∀ a ∈ f.bindArgs args, a.2.Readable := by
    intro a ha
    rw [bindArgs, List.mem_reverse, List.mem_mapIdx] at ha
    obtain ⟨i, hi, rfl⟩ := ha
    exact Expr.readable_argument hargs i
  dsimp only at h
  split at h
  · exact Option.some.inj h ▸ Expr.readable_putArgs hbind false (hf body hbody)
  · cases h

/-- **Unfolding keeps readability.** -/
theorem Expr.readable_unfold {functions : Functions} (hfunctions : functions.Readable)
    (only : List String) {e : Expr} (he : e.Readable) :
    (e.unfold functions only).1.Readable := by
  -- the state of the traversal does not matter
  let A : Assurance (StateM (Option Fault)) := Assurance.id.state fun _ => True
  have hvisit : ∀ e, e.Readable →
      A.Ensures (Unfolding.visit functions only e) Expr.Readable := by
    intro e he
    unfold Unfolding.visit
    refine A.bind Assurance.ensures_get fun failed _ => ?_
    split
    · rename_i s f args
      split
      · exact A.pure he
      · split
        · exact A.bind (Assurance.ensures_set trivial) fun _ _ => A.pure he
        · rename_i decl hdecl
          refine A.pure ?_
          cases hbody : decl.instantiate? args with
          | none => exact he
          | some body =>
            have hdecl := hfunctions decl (List.mem_of_find?_eq_some hdecl)
            rw [readable_call] at he
            exact Function.readable_instantiate? hdecl he.2 hbody
    · exact A.pure he
  exact (readable_bottomUpM A true hvisit e he none trivial).1

/-! ## Inlining -/

/-- Fresh names are identifiers. -/
theorem isName_freshName {stem : String} {c : Char} (hstem : stem.toList = [c, '_'])
    (hc : Lexer.isIdentStart c = true) (taken : List String) :
    Lexer.isName (freshName stem taken) = true := by
  have htext : ∀ n : Nat, (stem ++ toString n).toList = c :: '_' :: Nat.toDigits 10 n := by
    intro n
    rw [String.toList_append, hstem, Nat.toString_eq_ofList_toDigits, String.toList_ofList]
    rfl
  obtain ⟨-, n, hn⟩ := freshName_spec stem taken
  rw [hn]
  refine isName_of_underscore (htext n) hc (List.forall_mem_cons.2 ⟨by decide, fun d hd => ?_⟩) ?_
  · have hdigit := Nat.isDigit_of_mem_toDigits (by decide) (by decide) hd
    have hdigit : Lexer.isDigit d = true := by
      simpa [Char.isDigit, Lexer.isDigit, Char.le_def] using hdigit
    simp [Lexer.isIdentRest, hdigit]
  · rw [htext]
    simp

namespace Inlining

theorem legible_freshLocals (scope xs : List String) : (freshLocals scope xs).1.Legible := by
  induction xs generalizing scope with
  | nil => exact List.forall_mem_nil _
  | cons x xs ih =>
    have hx : Lexer.isName (freshName "l_" scope) = true := isName_freshName rfl (by decide) scope
    exact List.forall_mem_cons.2 ⟨hx, ih _⟩

theorem readable_assignThen {assignments : List (String × Expr)}
    (h : ∀ a ∈ assignments, Lexer.isName a.1 = true ∧ a.2.Readable) {e : Expr} (he : e.Readable) :
    (assignThen assignments e).Readable := by
  induction assignments with
  | nil => exact he
  | cons a assignments ih =>
    rw [List.forall_mem_cons] at h
    rw [assignThen, List.foldr_cons, Expr.readable_seq, Expr.readable_assign]
    exact ⟨h.1, ih h.2⟩

/-- Whether the object of a call site is readable and the names for its fields are identifiers. -/
structure CallSite.Readable (site : CallSite) : Prop where
  object : site.object.Readable
  fields : site.fields.Legible

/-- The invocations of an object become readable expressions, whatever names are in scope. -/
theorem CallSite.readable_visit {site : CallSite} (hsite : site.Readable) {e : Expr}
    (he : e.Readable) :
    ((Assurance.except Fault).state fun _ => True).Ensures (site.visit e) Expr.Readable := by
  let A : Assurance (StateT (List String) (Except Fault)) :=
    (Assurance.except Fault).state fun _ => True
  have hexpand : ∀ callee ∈ site.object.methods, ∀ args : List Expr, (∀ a ∈ args, a.Readable) →
      A.Ensures (site.expand callee args) Expr.Readable := by
    intro callee hcallee args hargs
    have hcallee := hsite.object.methods callee hcallee
    refine A.bind Assurance.ensures_get fun scope _ => ?_
    refine A.bind (Assurance.ensures_set trivial) fun _ _ => A.pure ?_
    have hnames : Renaming.Legible ((freshLocals scope (site.variables callee)).1 ++ site.fields) :=
      List.forall_mem_append.2 ⟨legible_freshLocals _ _, hsite.fields⟩
    refine (Expr.readable_paren _ _).2 ⟨by simp, readable_assignThen (fun a ha => ?_) ?_⟩
    · obtain ⟨i, hi, rfl⟩ := List.mem_mapIdx.1 ha
      obtain ⟨p, hp, hparam⟩ := List.mem_map.1 (List.getElem_mem hi)
      refine ⟨hnames.getD ?_, Expr.readable_argument hargs i⟩
      rw [← hparam]
      exact hcallee.names.2 p hp
    · exact Expr.readable_rename hnames hcallee.body
  unfold visit
  split
  · rename_i s target m cs args
    split
    · rw [Expr.readable_invoke] at he
      split
      · rename_i callee hcallee
        exact hexpand callee (List.mem_of_find?_eq_some hcallee) args he.2.2
      · exact Assurance.ensures_throw _
    · exact A.pure he
  · exact A.pure he

theorem CallSite.readable_expandIn {site : CallSite} (hsite : site.Readable)
    (members : List String) {m : Method} (hm : m.Readable) :
    (Assurance.except Fault).Ensures (site.expandIn members m) Method.Readable := by
  let A := Assurance.except Fault
  have hbody := Expr.readable_bottomUpM (A.state fun _ => True) false
    (fun e he => readable_visit hsite he) m.body hm.body
  refine A.bind (hbody _ trivial) fun r hr => ?_
  exact A.pure ⟨hm.names, hr.1⟩

/-- Whether the names that are given for fields are identifiers. -/
def NamesGiven (given : List String) : Prop :=
  ∀ x ∈ given, Lexer.isName x = true

theorem isName_freshMember (taken : List String) :
    (Assurance.id.state NamesGiven).Ensures (freshMember taken) (Lexer.isName · = true) := by
  let A : Assurance (StateM (List String)) := Assurance.id.state NamesGiven
  have hfresh : Lexer.isName (freshName "m_" taken) = true := isName_freshName rfl (by decide) taken
  refine A.bind Assurance.ensures_get fun given hgiven => ?_
  cases given with
  | nil => exact A.pure hfresh
  | cons x given =>
    have hgiven := List.forall_mem_cons.1 hgiven
    refine A.bind (Assurance.ensures_set hgiven.2) fun _ _ => A.pure ?_
    split
    · exact hfresh
    · exact hgiven.1

theorem readable_liftFields (taken : List String) {names : Renaming} (hnames : names.Legible)
    {fs : List Field} (hfs : ∀ f ∈ fs, f.Readable) :
    (Assurance.id.state NamesGiven).Ensures (liftFields taken names fs) fun r =>
      (∀ f ∈ r.1, f.Readable) ∧ r.2.Legible := by
  let A : Assurance (StateM (List String)) := Assurance.id.state NamesGiven
  induction fs generalizing taken names with
  | nil => exact A.pure ⟨List.forall_mem_nil _, hnames⟩
  | cons f fs ih =>
    rw [List.forall_mem_cons] at hfs
    refine A.bind (isName_freshMember taken) fun x hx => ?_
    have hnames' : Renaming.Legible ((f.name.name, x) :: names) :=
      List.forall_mem_cons.2 ⟨hx, hnames⟩
    refine A.bind (ih (taken ++ [x]) hnames' hfs.2) fun r hr => A.pure ⟨?_, hr.2⟩
    have hvalue := Expr.readable_rename hnames hfs.1.value
    exact List.forall_mem_cons.2 ⟨⟨hx, hvalue⟩, hr.1⟩

/-- The fields and methods after an object is dissolved. -/
theorem readable_dissolve (scope : Scope) (before : List Field) (x : String) {inner : Object}
    (hinner : inner.Readable) (after : List Field) {methods : List Method}
    (hmethods : ∀ m ∈ methods, m.Readable) :
    ((Assurance.except Fault).state NamesGiven).Ensures
      (dissolve scope before x inner after methods) fun r =>
        (∀ f ∈ r.1, f.Readable) ∧ ∀ m ∈ r.2, m.Readable := by
  let A := (Assurance.except Fault).state NamesGiven
  refine A.bind Assurance.ensures_get fun given hgiven => ?_
  let taken := (before ++ after).map (·.name.name) ++
    inner.methods.flatMap (·.body.locals scope.declares) ++ scope.allNames
  obtain ⟨⟨hlifted, hnames⟩, hgiven'⟩ :=
    readable_liftFields taken (List.forall_mem_nil _) hinner.fields given hgiven
  refine A.bind (Assurance.ensures_set hgiven') fun _ _ => ?_
  have hsite : CallSite.Readable ⟨x, inner, _, scope.allNames⟩ := ⟨hinner, hnames⟩
  refine A.bind (Assurance.ensures_mapM fun m hm => Assurance.ensures_lift
    (CallSite.readable_expandIn hsite _ (hmethods m hm))) fun methods' hmethods' => ?_
  dsimp only
  split
  · exact A.bind (Assurance.ensures_throw _) fun _ h => h
  · exact A.pure ⟨hlifted, hmethods'⟩

theorem readable_dissolveFields (scope : Scope) {done todo : List Field} {methods : List Method}
    (hdone : ∀ f ∈ done, f.Readable) (htodo : ∀ f ∈ todo, f.Readable)
    (hmethods : ∀ m ∈ methods, m.Readable) :
    ((Assurance.except Fault).state NamesGiven).Ensures (dissolveFields scope done methods todo)
      fun r => (∀ f ∈ r.1, f.Readable) ∧ ∀ m ∈ r.2, m.Readable := by
  let A := (Assurance.except Fault).state NamesGiven
  induction todo generalizing done methods with
  | nil => exact A.pure ⟨hdone, hmethods⟩
  | cons f fs ih =>
    rw [List.forall_mem_cons] at htodo
    unfold dissolveFields
    split
    · have hf : ∀ f' ∈ [f], f'.Readable := by simpa using htodo.1
      exact ih (List.forall_mem_append.2 ⟨hdone, hf⟩) htodo.2 hmethods
    · rename_i inner hinner
      have hinner : inner.Readable := htodo.1.value.object hinner
      refine A.bind (readable_dissolve scope done f.name.name hinner fs hmethods) fun r hr => ?_
      exact ih (List.forall_mem_append.2 ⟨hdone, hr.1⟩) htodo.2 hr.2

end Inlining

/-- **Inlining keeps readability** if the given names are identifiers. -/
theorem Expr.readable_inlineObjects {scope : Scope} {names : List String}
    (hnames : ∀ x ∈ names, Lexer.isName x = true) {e e' : Expr} (he : e.Readable)
    (h : e.inlineObjects scope names = .ok e') : e'.Readable := by
  let A := (Assurance.except Fault).state Inlining.NamesGiven
  have hvisit : ∀ e, e.Readable → A.Ensures (Inlining.visit scope e) Expr.Readable := by
    intro e he
    unfold Inlining.visit
    split
    · rw [readable_new] at he
      refine A.bind (Inlining.readable_dissolveFields scope (List.forall_mem_nil _) he.fields
        he.methods) fun r hr => A.pure ?_
      exact (readable_new _).2 ⟨he.className, hr.1, hr.2⟩
    · exact A.pure he
  have hrun := readable_bottomUpM A true hvisit e he names hnames
  exact (Assurance.except Fault).bind hrun (fun r hr => (Assurance.except Fault).pure hr.1) e' h

end GameHop
