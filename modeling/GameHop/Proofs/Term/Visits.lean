import GameHop.Proofs.Program.Runs
import GameHop.Proofs.Term.Free
import GameHop.Proofs.Term.Paths

/-!
Traversals as chains of visits. A traversal visits each node after its children. Seen from the whole
program, a visit replaces the node at a path by another one and leaves the rest alone.
-/

namespace GameHop

open Program

/-! ## Traversals by children -/

/-- A traversal that enters methods visits all children. -/
theorem Expr.children_revisited_true {e : Expr} {cs : List Expr}
    (h : cs.length = (e.children.take (e.visitedChildren true)).length) :
    (e.revisited true cs).children = cs := by
  rw [visitedChildren_true, List.take_length] at h
  rw [revisited_true, e.children_withChildren cs h]

section
variable {σ ε : Type} {enter : Bool} {visit : Expr → StateT σ (Except ε) Expr} {s s' : σ}

/-- Whether traversals turn expressions into others, one after the other. -/
inductive Expr.Traversed (enter : Bool) (visit : Expr → StateT σ (Except ε) Expr) :
    List Expr → σ → List Expr → σ → Prop
  | nil (s : σ) : Traversed enter visit [] s [] s
  | cons {e e' : Expr} {es es' : List Expr} {s s₁ s' : σ} :
    (e.bottomUpM enter visit).run s = .ok (e', s₁) → Traversed enter visit es s₁ es' s' →
    Traversed enter visit (e :: es) s (e' :: es') s'

theorem Expr.Traversed.length_eq {es es' : List Expr} (h : Expr.Traversed enter visit es s es' s') :
    es'.length = es.length := by
  induction h with
  | nil => rfl
  | cons _ _ ih => rw [List.length_cons, List.length_cons, ih]

theorem Expr.Traversed.forall {es es' : List Expr} {P : Expr → Prop}
    (h : Expr.Traversed enter visit es s es' s')
    (hP : ∀ e ∈ es, ∀ s e' s', (e.bottomUpM enter visit).run s = .ok (e', s') → P e') :
    ∀ e' ∈ es', P e' := by
  induction h with
  | nil => exact List.forall_mem_nil _
  | cons he _ ih =>
    rw [List.forall_mem_cons] at hP
    exact List.forall_mem_cons.2 ⟨hP.1 _ _ _ he, ih hP.2⟩

theorem Expr.ok_of_bottomUpListM {es es' : List Expr}
    (h : (bottomUpListM enter visit es).run s = .ok (es', s')) :
    Expr.Traversed enter visit es s es' s' := by
  induction es generalizing s es' with
  | nil =>
    obtain ⟨rfl, rfl⟩ := eq_of_pure h
    exact .nil s
  | cons e es ih =>
    obtain ⟨e', s₁, he, h⟩ := ok_of_bind h
    obtain ⟨es'', s₂, hes, h⟩ := ok_of_bind h
    obtain ⟨rfl, rfl⟩ := eq_of_pure h
    exact .cons he (ih hes)

theorem Expr.ok_of_bottomUpM {e e' : Expr} (h : (e.bottomUpM enter visit).run s = .ok (e', s')) :
    ∃ cs s₁, Expr.Traversed enter visit (e.children.take (e.visitedChildren enter)) s cs s₁ ∧
      (visit (e.revisited enter cs)).run s₁ = .ok (e', s') := by
  rw [bottomUpM_eq] at h
  obtain ⟨cs, s₁, hcs, h⟩ := ok_of_bind h
  exact ⟨cs, s₁, ok_of_bottomUpListM hcs, h⟩

end

/-! ## Places -/

theorem Expr.entersMethod_append (e : Expr) (p q : List Nat) :
    e.entersMethod (p ++ q) =
      (e.entersMethod p || ((e.at? p).map fun c => c.entersMethod q).getD false) := by
  induction p generalizing e with
  | nil => simp [entersMethod, at?]
  | cons i p ih =>
    simp only [List.cons_append, entersMethod, at?]
    cases e.children[i]? with
    | none => simp
    | some c => simp [ih c, Bool.or_assoc]

/-- Whether a traversal reaches the node at a path. -/
def Expr.IsReached (enter : Bool) (e : Expr) (path : List Nat) : Prop :=
  (e.at? path).isSome ∧ (enter = false → e.entersMethod path = false)

theorem Expr.isReached_nil (enter : Bool) (e : Expr) : e.IsReached enter [] :=
  ⟨rfl, fun _ => rfl⟩

theorem Expr.isBody_iff {e : Expr} {i : Nat} (hi : i < e.children.length) :
    e.isBody i = false ↔ i < e.visitedChildren false := by
  cases e with
  | new s o => simp [isBody, visitedChildren]
  | _ => simpa [isBody, visitedChildren] using hi

theorem Expr.isReached_cons {enter : Bool} {e : Expr} {i : Nat} {path : List Nat} :
    e.IsReached enter (i :: path) ↔ i < e.visitedChildren enter ∧
      ∃ c, e.children[i]? = some c ∧ c.IsReached enter path := by
  simp only [Expr.IsReached, at?, entersMethod]
  cases hc : e.children[i]? with
  | none => simp
  | some c =>
    have hi := (List.getElem?_eq_some_iff.1 hc).1
    cases enter with
    | false => simp [isBody_iff hi, and_left_comm]
    | true => simp [visitedChildren_true, hi]

/-- The fields and parameters that the root declares for its child at a position. -/
def Expr.declaredIn : Expr → Nat → List String
  | .new _ o, i => o.declaredIn i
  | _, _ => []

/-- The fields and parameters that are declared around the node at a path. -/
def Expr.declaredAt (e : Expr) : List Nat → List String
  | [] => []
  | i :: path => e.declaredIn i ++ (e.children[i]?.map fun c => c.declaredAt path).getD []

theorem Expr.declaredAt_append (e : Expr) (p q : List Nat) :
    e.declaredAt (p ++ q) =
      e.declaredAt p ++ ((e.at? p).map fun c => c.declaredAt q).getD [] := by
  induction p generalizing e with
  | nil => simp [declaredAt, at?]
  | cons i p ih =>
    simp only [List.cons_append, declaredAt, at?]
    cases e.children[i]? with
    | none => simp
    | some c => simp [ih c, List.append_assoc]

theorem Field.map_name_withValues (fs : List Field) (values : List Expr)
    (h : fs.length ≤ values.length) :
    (withValues fs values).map (·.name.name) = fs.map (·.name.name) := by
  induction fs generalizing values with
  | nil => rfl
  | cons f fs ih =>
    obtain ⟨v, values, rfl⟩ := List.exists_cons_of_length_pos (Nat.lt_of_lt_of_le (by simp) h)
    rw [withValues_cons, List.map_cons, List.map_cons, ih values (by simpa using h)]

theorem Method.map_params_withBodies (ms : List Method) (bodies : List Expr)
    (h : ms.length ≤ bodies.length) :
    (withBodies ms bodies).map (·.params) = ms.map (·.params) := by
  induction ms generalizing bodies with
  | nil => rfl
  | cons m ms ih =>
    obtain ⟨b, bodies, rfl⟩ := List.exists_cons_of_length_pos (Nat.lt_of_lt_of_le (by simp) h)
    rw [withBodies_cons, List.map_cons, List.map_cons, ih bodies (by simpa using h)]

/-- The declared names of an object by the names of its fields and the parameters of its methods. -/
theorem Object.declaredIn_eq (o : Object) (i : Nat) :
    o.declaredIn i = o.fieldNames.take i ++
      if i < o.fieldNames.length then []
      else ((o.methods.map (·.params))[i - o.fieldNames.length]?.map
        fun ps => ps.map (·.name.name)).getD [] := by
  simp [declaredIn, fieldNames, List.map_take, Function.comp_def]

theorem Object.declaredIn_congr {o o' : Object} (hfields : o.fieldNames = o'.fieldNames)
    (hmethods : o.methods.map (·.params) = o'.methods.map (·.params)) (i : Nat) :
    o.declaredIn i = o'.declaredIn i := by
  rw [declaredIn_eq, o'.declaredIn_eq, hfields, hmethods]

/-- What a node declares does not depend on its children. -/
theorem Expr.declaredIn_withChildren (e : Expr) {cs : List Expr}
    (h : cs.length = e.children.length) (i : Nat) :
    (e.withChildren cs).declaredIn i = e.declaredIn i := by
  cases e with
  | new s o =>
    obtain ⟨n, fs, ms⟩ := o
    simp only [children, List.length_append, List.length_map] at h
    refine Object.declaredIn_congr ?_ ?_ i
    · exact Field.map_name_withValues fs cs (by omega)
    · exact Method.map_params_withBodies ms (cs.drop fs.length) (by simp; omega)
  | invoke s t m ns args =>
    obtain ⟨c, cs, rfl⟩ := List.exists_of_length_succ _ h
    rfl
  | call => rfl
  | int | bool | lookup | assert | assume | ellipsis | hole => rfl
  | paren | unary | assign =>
    obtain ⟨a, rfl⟩ := List.length_eq_one_iff.1 h
    rfl
  | seq | binary | index =>
    obtain ⟨a, b, rfl⟩ := List.length_eq_two.1 h
    rfl
  | ternary | update =>
    obtain ⟨a, b, c, rfl⟩ := List.length_eq_three.1 h
    rfl

/-! ## Chains of visits -/

/-- Whether `plug` puts expressions into the place of the node `c` at a path of a program, after visits
    elsewhere: these change neither the path nor the names that are declared on the way to it. -/
structure Expr.Follows (whole : Expr) (path : List Nat) (c : Expr) (plug : Expr → Expr) : Prop where
  focus : Focuses plug path
  node : whole.at? path = some c
  declared : ∀ e, (plug e).declaredAt path = whole.declaredAt path

theorem Expr.follows_root (e : Expr) : Expr.Follows e [] e id :=
  ⟨Focuses.root, rfl, fun _ => rfl⟩

theorem Expr.Follows.child {whole c d : Expr} {path : List Nat} {plug : Expr → Expr}
    (h : Expr.Follows whole path c plug) (before after : List Expr)
    (hlength : before.length + 1 + after.length = c.children.length)
    (hd : c.children[before.length]? = some d) :
    Expr.Follows whole (path ++ [before.length]) d
      fun e => plug (c.withChildren (before ++ e :: after)) where
  focus := h.focus.comp (c.focuses_child before after hlength)
  node := by simp [at?_append, h.node, at?, hd]
  declared e := by
    have hcs : (before ++ e :: after).length = c.children.length := by simp; omega
    simp only [declaredAt_append, h.declared, h.focus.at?_plug, h.node, Option.map_some,
      Option.getD_some, declaredAt, c.declaredIn_withChildren hcs]
    congr 2
    cases (c.withChildren (before ++ e :: after)).children[before.length]? <;>
      cases c.children[before.length]? <;> rfl

section
variable {σ ε : Type} {enter : Bool} {visit : Expr → StateT σ (Except ε) Expr}

/-- **A chain of visits.** From one program and state to another, at one path of the program `whole`
    after the other. Each visit is given the node of `whole` with the children that the visits before
    have made of its own. -/
inductive Expr.Visits (enter : Bool) (visit : Expr → StateT σ (Except ε) Expr) (whole : Expr) :
    Expr → σ → List (List Nat) → Expr → σ → Prop
  | done (t : Expr) (s : σ) : Visits enter visit whole t s [] t s
  | step {plug : Expr → Expr} {path : List Nat} {c n t : Expr} {cs : List Expr}
    {s₀ s s' s'' : σ} {paths : List (List Nat)} :
    Expr.Follows whole path c plug →
    Expr.Traversed enter visit (c.children.take (c.visitedChildren enter)) s₀ cs s →
    (visit (c.revisited enter cs)).run s = .ok (n, s') →
    Visits enter visit whole (plug n) s' paths t s'' →
    Visits enter visit whole (plug (c.revisited enter cs)) s (path :: paths) t s''

theorem Expr.Visits.append {whole t t' t'' : Expr} {s s' s'' : σ} {ps qs : List (List Nat)}
    (h : Expr.Visits enter visit whole t s ps t' s')
    (h' : Expr.Visits enter visit whole t' s' qs t'' s'') :
    Expr.Visits enter visit whole t s (ps ++ qs) t'' s'' := by
  induction h with
  | done => exact h'
  | step hf hcs hn _ ih => exact .step hf hcs hn (ih h')

/-- Whether every traversal of an expression in a program is a chain of visits. -/
def Expr.IsChain (enter : Bool) (visit : Expr → StateT σ (Except ε) Expr) (whole e : Expr) : Prop :=
  ∀ {path : List Nat} {plug : Expr → Expr} {s s' : σ} {e' : Expr},
    Expr.Follows whole path e plug → (e.bottomUpM enter visit).run s = .ok (e', s') →
    ∃ qs : List (List Nat), Expr.Visits enter visit whole (plug e) s (qs.map (path ++ ·)) (plug e') s' ∧
      (∀ q, q ∈ qs ↔ e.IsReached enter q) ∧ qs.Pairwise Path.Before

/-- The visited children `todo` of a node, after those that were visited before. -/
theorem Expr.visits_children {whole e : Expr} {path : List Nat} {plug : Expr → Expr}
    (hf : Expr.Follows whole path e plug) {todo todo' : List Expr} {s s' : σ}
    (ih : ∀ c ∈ todo, Expr.IsChain enter visit whole c)
    (h : Expr.Traversed enter visit todo s todo' s') (done rest : List Expr)
    (hlength : done.length + todo.length + rest.length = e.children.length)
    (htodo : ∀ i c, todo[i]? = some c → e.children[done.length + i]? = some c) :
    ∃ qs : List (List Nat), Expr.Visits enter visit whole (plug (e.withChildren (done ++ (todo ++ rest)))) s
        (qs.map (path ++ ·)) (plug (e.withChildren (done ++ (todo' ++ rest)))) s' ∧
      (∀ q, q ∈ qs ↔ ∃ i c, todo[i]? = some c ∧ ∃ r, q = (done.length + i) :: r ∧
        c.IsReached enter r) ∧ qs.Pairwise Path.Before := by
  induction h generalizing done with
  | nil s => exact ⟨[], .done _ _, by simp, .nil⟩
  | @cons c c' cs cs' s s₁ s' hc hcs ihcs =>
    simp only [List.length_cons] at hlength
    have hcs_length := hcs.length_eq
    have hfollows := hf.child done (cs ++ rest) (by simp; omega)
      (by simpa using htodo 0 c rfl)
    obtain ⟨qs, hqs, hmem, hsorted⟩ := ih c (.head _) hfollows hc
    obtain ⟨qs', hqs', hmem', hsorted'⟩ := ihcs (fun d hd => ih d (.tail _ hd))
      (done ++ [c']) (by simp; omega)
      (fun i d hd => by simpa [Nat.add_assoc, Nat.add_comm 1] using htodo (i + 1) d (by simpa using hd))
    refine ⟨qs.map (done.length :: ·) ++ qs', ?_, fun q => ?_, ?_⟩
    · have hpaths : (qs.map (done.length :: ·)).map (path ++ ·) =
          qs.map (path ++ [done.length] ++ ·) := by simp [Function.comp_def]
      rw [List.map_append, hpaths]
      exact hqs.append (by simpa using hqs')
    · rw [List.mem_append, hmem', List.mem_map, exists_getElem?_cons]
      simp only [hmem, List.length_append, List.length_singleton]
      grind
    · rw [List.pairwise_append]
      refine ⟨List.pairwise_map.2 (hsorted.imp fun hpq => .inr ⟨rfl, hpq⟩), hsorted', ?_⟩
      simp only [List.mem_map, hmem']
      rintro - ⟨q, -, rfl⟩ - ⟨i, d, -, r, rfl, -⟩
      exact .inl (by simp; omega)

theorem Expr.isChain (whole e : Expr) : Expr.IsChain enter visit whole e := by
  induction e using inductNode with
  | step e ih =>
    intro path plug s s' e' hf h
    obtain ⟨cs, s₁, hcs, hvisit⟩ := ok_of_bottomUpM h
    have hle := e.visitedChildren_le enter
    obtain ⟨qs, hqs, hmem, hsorted⟩ := visits_children hf
      (fun c hc => ih c (List.mem_of_mem_take hc)) hcs []
      (e.children.drop (e.visitedChildren enter)) (by simp; omega)
      (fun i c hc => by simp_all [List.getElem?_take])
    rw [List.nil_append, List.take_append_drop, withChildren_children] at hqs
    refine ⟨qs ++ [[]], ?_, fun q => ?_, ?_⟩
    · have hroot := Expr.Visits.step hf hcs hvisit (.done _ _)
      rw [List.map_append, List.map_singleton, List.append_nil]
      exact hqs.append hroot
    · rw [List.mem_append, hmem, List.mem_singleton]
      cases q with
      | nil => simp [isReached_nil]
      | cons i q => simp [isReached_cons, List.getElem?_take, and_assoc]
    · rw [List.pairwise_append]
      refine ⟨hsorted, List.pairwise_singleton _ _, ?_⟩
      simp only [hmem, List.mem_singleton]
      rintro - ⟨i, c, -, r, rfl, -⟩ - rfl
      trivial

/-- **A traversal is a chain of visits**, one at each path that it reaches. -/
theorem Expr.visits_bottomUpM {e e' : Expr} {s s' : σ}
    (h : (e.bottomUpM enter visit).run s = .ok (e', s')) :
    ∃ paths, Expr.Visits enter visit e e s paths e' s' ∧
      (∀ p, p ∈ paths ↔ e.IsReached enter p) ∧ paths.Pairwise Path.Before := by
  obtain ⟨qs, hqs, hmem, hsorted⟩ := e.isChain e (e.follows_root) h
  simp only [List.nil_append, List.map_id'] at hqs
  exact ⟨qs, hqs, hmem, hsorted⟩

end

end GameHop
