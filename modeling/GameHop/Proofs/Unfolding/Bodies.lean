import GameHop.Proofs.Term.Renaming
import GameHop.Rewriting.Unfold

/-!
Bodies of functions with arguments in the place of parameters.
-/

namespace GameHop

/-! ## Places -/

/-- Whether the expression reads a variable at a path. -/
def Expr.ReadsAt (e : Expr) (path : List Nat) (x : String) : Prop :=
  (e.at? path).bind Expr.varName? = some x

/-- Whether the expression reads a variable at a path outside the methods of object literals. -/
def Expr.ReadsOutside (e : Expr) (path : List Nat) (x : String) : Prop :=
  e.ReadsAt path x ∧ e.entersMethod path = false

/-- Whether the child may be skipped when the root is evaluated. -/
def Expr.isBranch : Expr → Nat → Bool
  | .ternary .., i => 1 ≤ i
  | .binary _ (.logic _) _ _, i => 1 ≤ i
  | _, _ => false

/-- Whether the path enters something that may be skipped when the expression is evaluated. -/
def Expr.inBranch (e : Expr) : List Nat → Bool
  | [] => false
  | i :: path => e.isBranch i || (e.children[i]?.map fun c => c.inBranch path).getD false

theorem Expr.readsAt_nil {e : Expr} {x : String} : e.ReadsAt [] x ↔ e.varName? = some x :=
  Iff.rfl

theorem Expr.readsAt_cons {e : Expr} {i : Nat} {path : List Nat} {x : String} :
    e.ReadsAt (i :: path) x ↔ ∃ c, e.children[i]? = some c ∧ c.ReadsAt path x := by
  simp only [Expr.ReadsAt, at?]
  cases e.children[i]? <;> simp

theorem Expr.readsOutside_nil {e : Expr} {x : String} :
    e.ReadsOutside [] x ↔ e.varName? = some x := by
  simp [Expr.ReadsOutside, readsAt_nil, entersMethod]

theorem Expr.readsOutside_cons {e : Expr} {i : Nat} {path : List Nat} {x : String} :
    e.ReadsOutside (i :: path) x ↔
      ∃ c, (e.children.take (e.visitedChildren false))[i]? = some c ∧ c.ReadsOutside path x := by
  simp only [Expr.ReadsOutside, readsAt_cons, entersMethod, List.getElem?_take]
  cases hc : e.children[i]? with
  | none => simp
  | some c =>
    have hi := (List.getElem?_eq_some_iff.1 hc).1
    simp [isBody_iff hi]
    grind

/-- A variable is the only one that is read at its place. -/
theorem Expr.ReadsAt.unique {e : Expr} {path : List Nat} {x y : String} (hx : e.ReadsAt path x)
    (hy : e.ReadsAt path y) : x = y :=
  Option.some.inj (hx.symm.trans hy)

/-! ## Arguments by children -/

section
variable (args : List (String × Expr))

/-- The root, or the argument for it. -/
def Expr.putRoot : Expr → Expr
  | .lookup s x => (args.lookup x.name).getD (.lookup s x)
  | e => e

/-- The expression with arguments in the place of parameters outside methods. -/
def Expr.withArgs (e : Expr) : Expr :=
  e.bottomUp false (Expr.putRoot args)

theorem Expr.withArgs_eq (e : Expr) : e.withArgs args = (e.revisited false
    ((e.children.take (e.visitedChildren false)).map (withArgs args))).putRoot args :=
  bottomUp_eq_revisited false _ e

theorem Expr.putArgsList_fst (b : Bool) (es : List Expr) :
    (putArgsList args b es).1 = es.map fun e => (e.putArgs args b).1 := by
  induction es with
  | nil => rfl
  | cons e es ih => simp only [putArgsList, ih, List.map_cons]

theorem Expr.putArgsFields_fst (b : Bool) (fs : List Field) :
    (putArgsFields args b fs).1 =
      Field.withValues fs (fs.map fun f => (f.value.putArgs args b).1) := by
  induction fs with
  | nil => rfl
  | cons f fs ih =>
    obtain ⟨s, x, v⟩ := f
    simp only [putArgsFields, ih, List.map_cons, Field.withValues_cons]

/-- Branches matter for the uses only. -/
theorem Expr.putArgs_fst (e : Expr) (b : Bool) : (e.putArgs args b).1 = e.withArgs args := by
  induction e using inductNode generalizing b with
  | step e ih =>
    rw [withArgs_eq]
    cases e with
    | lookup s x =>
      simp only [putArgs, revisited, withChildren, putRoot]
      cases args.lookup x.name <;> rfl
    | new s o =>
      obtain ⟨c, fs, ms⟩ := o
      have hfs : ∀ f ∈ fs, (f.value.putArgs args b).1 = f.value.withArgs args := fun f hf =>
        ih f.value (List.mem_append_left _ (List.mem_map_of_mem hf)) b
      simp only [putArgs, putArgsFields_fst, revisited, visitedChildren,
        children, Bool.false_eq_true, if_false]
      rw [List.take_left' (by simp), List.drop_left' (by simp),
        withChildren_new_append _ _ _ _ _ (by simp), Method.withBodies_bodies, List.map_map,
        List.map_congr_left hfs]
      rfl
    | binary s op a c =>
      cases op <;> simp_all [-Bool.forall_bool, children, putArgs, revisited,
        visitedChildren, withChildren, putRoot]
    | _ => simp_all [-Bool.forall_bool, children, putArgs, revisited,
        visitedChildren, withChildren, putRoot, putArgsList_fst]

/-- The uses in children of a node, from the `i`-th on. `branch` says which may be skipped. -/
def Expr.usesFrom (branch : Nat → Bool) : Nat → List Expr → Uses
  | _, [] => .none
  | i, c :: cs => (c.putArgs args (branch i)).2 ++ Expr.usesFrom branch (i + 1) cs

theorem Expr.putArgsList_snd (b : Bool) (es : List Expr) (i : Nat) :
    (putArgsList args b es).2 = usesFrom args (fun _ => b) i es := by
  induction es generalizing i with
  | nil => rfl
  | cons e es ih => simp only [putArgsList, usesFrom, ih (i + 1)]

theorem Expr.putArgsFields_snd (b : Bool) (fs : List Field) (i : Nat) :
    (putArgsFields args b fs).2 = usesFrom args (fun _ => b) i (fs.map (·.value)) := by
  induction fs generalizing i with
  | nil => rfl
  | cons f fs ih =>
    obtain ⟨s, x, v⟩ := f
    simp only [putArgsFields, usesFrom, List.map_cons, ih (i + 1)]

theorem Uses.append_def (u v : Uses) :
    u ++ v = ⟨u.names ++ v.names, u.inBranch || v.inBranch⟩ :=
  rfl

theorem Uses.append_none (u : Uses) : u ++ none = u := by
  simp [append_def, none]

theorem Uses.append_assoc (u v w : Uses) : u ++ v ++ w = u ++ (v ++ w) := by
  simp [append_def, Bool.or_assoc]

/-- **The uses by children.** -/
theorem Expr.putArgs_snd {e : Expr} (hv : e.varName? = none) (b : Bool) :
    (e.putArgs args b).2 = usesFrom args (fun i => b || e.isBranch i) 0
      (e.children.take (e.visitedChildren false)) := by
  cases e with
  | lookup => cases hv
  | binary s op a c =>
    cases op <;> simp [putArgs, usesFrom, children, visitedChildren,
      isBranch, Uses.append_none]
  | new s o =>
    obtain ⟨c, fs, ms⟩ := o
    simp only [putArgs, putArgsFields_snd args b fs 0, isBranch, Bool.or_false,
      children, visitedChildren, Bool.false_eq_true, if_false]
    rw [List.take_left' (by simp)]
  | call s f es =>
    simp [putArgs, putArgsList_snd args b es 0, children, visitedChildren,
      isBranch]
  | invoke s t m cs es =>
    simp [putArgs, putArgsList_snd args b es 1, children, visitedChildren,
      isBranch, usesFrom]
  | _ =>
    simp [putArgs, usesFrom, children, visitedChildren, isBranch,
      Uses.append_none, Uses.append_assoc]

end

section
variable {args : List (String × Expr)} {e : Expr}

/-- Only a variable becomes another root. -/
theorem Expr.withArgs_of_varName? (hv : e.varName? = none) :
    e.withArgs args = e.revisited false
      ((e.children.take (e.visitedChildren false)).map (withArgs args)) := by
  rw [withArgs_eq, revisited]
  generalize hcs : List.map (withArgs args) _ ++ _ = cs
  have hroot : (e.withChildren cs).varName? = none := by rw [varName?_withChildren, hv]
  generalize e.withChildren cs = n at hroot
  cases n with
  | lookup => cases hroot
  | _ => rfl

theorem Expr.withArgs_lookup (s : Span) (x : Ident) :
    (lookup s x).withArgs args = (args.lookup x.name).getD (.lookup s x) := by
  rw [withArgs_eq]
  rfl

theorem Expr.getElem?_children_withArgs (hv : e.varName? = none) (i : Nat) :
    (e.withArgs args).children[i]? =
      e.children[i]?.map fun c => if e.isBody i then c else c.withArgs args := by
  rw [withArgs_of_varName? hv, getElem?_children_revisited]

theorem Expr.varName?_of_child {c : Expr} {i : Nat} (hc : e.children[i]? = some c) :
    e.varName? = none := by
  cases e with
  | lookup => simp [children] at hc
  | _ => rfl

theorem Expr.child_withArgs (args : List (String × Expr)) {c : Expr} {i : Nat}
    (hc : e.children[i]? = some c) :
    (e.withArgs args).children[i]? = some (if e.isBody i then c else c.withArgs args) := by
  rw [getElem?_children_withArgs (varName?_of_child hc), hc, Option.map_some]

theorem Expr.isBranch_withChildren (e : Expr) (cs : List Expr) (i : Nat) :
    (e.withChildren cs).isBranch i = e.isBranch i := by
  unfold withChildren
  split
  case h_5 s op _ _ _ _ => cases op <;> rfl
  all_goals rfl

theorem Expr.isBody_withChildren (e : Expr) {cs : List Expr} (h : cs.length = e.children.length)
    (i : Nat) : (e.withChildren cs).isBody i = e.isBody i := by
  cases e with
  | new s o =>
    simp only [children, List.length_append, List.length_map] at h
    have hfields : o.fields.length ≤ cs.length := by omega
    simp [withChildren, isBody, hfields]
  | _ =>
    unfold withChildren
    split <;> first | rfl | contradiction

/-! ## Arguments by places -/

/-- **Arguments at a place.** -/
theorem Expr.at?_withArgs {n : Expr} {path : List Nat} (h : e.at? path = some n) :
    (e.withArgs args).at? path = some (if e.entersMethod path then n else n.withArgs args) := by
  induction path generalizing e with
  | nil =>
    cases h
    simp [at?, entersMethod]
  | cons i path ih =>
    obtain ⟨c, hc, h⟩ := Option.bind_eq_some_iff.1 h
    rw [at?, child_withArgs args hc, entersMethod, hc]
    cases e.isBody i with
    | true => simpa using h
    | false => simpa using ih h

theorem Expr.ReadsAt.exists_lookup {path : List Nat} {x : String} (h : e.ReadsAt path x) :
    ∃ s y, e.at? path = some (.lookup s y) ∧ y.name = x := by
  obtain ⟨n, hn, hx⟩ := Option.bind_eq_some_iff.1 h
  obtain ⟨s, y, rfl, hy⟩ := eq_lookup_of_varName? hx
  exact ⟨s, y, hn, hy⟩

/-- **An argument stands where its parameter is read.** -/
theorem Expr.ReadsOutside.at?_withArgs {path : List Nat} {x : String} {a : Expr}
    (h : e.ReadsOutside path x) (ha : args.lookup x = some a) :
    (e.withArgs args).at? path = some a := by
  obtain ⟨s, y, hy, rfl⟩ := h.1.exists_lookup
  rw [Expr.at?_withArgs hy, h.2, Expr.withArgs_lookup, ha]
  rfl

/-- Any other node stays what it is. -/
theorem Expr.exists_withChildren_withArgs {n : Expr} {path : List Nat} (h : e.at? path = some n)
    (hpath : ∀ x, e.ReadsOutside path x → args.lookup x = none) :
    ∃ cs, cs.length = n.children.length ∧ (e.withArgs args).at? path = some (n.withChildren cs) := by
  rw [at?_withArgs h]
  cases hmethod : e.entersMethod path with
  | true => exact ⟨n.children, rfl, by rw [withChildren_children]; rfl⟩
  | false =>
    cases hv : n.varName? with
    | none => exact ⟨_, length_revisited (by simp), congrArg some (withArgs_of_varName? hv)⟩
    | some x =>
      have hnone := hpath x ⟨by rw [Expr.ReadsAt, h]; exact hv, hmethod⟩
      obtain ⟨s, y, rfl, rfl⟩ := eq_lookup_of_varName? hv
      exact ⟨[], rfl, by simp [withArgs_lookup, hnone, withChildren]⟩

theorem Expr.entersMethod_withArgs {n : Expr} {path : List Nat} (h : e.at? path = some n) :
    (e.withArgs args).entersMethod path = e.entersMethod path := by
  induction path generalizing e with
  | nil => rfl
  | cons i path ih =>
    obtain ⟨c, hc, h⟩ := Option.bind_eq_some_iff.1 h
    have hv := varName?_of_child hc
    rw [entersMethod, child_withArgs args hc, withArgs_of_varName? hv, revisited,
      isBody_withChildren _ (length_revisited (by simp)), entersMethod, hc]
    cases e.isBody i with
    | true => rfl
    | false => simpa using ih h

theorem Expr.inBranch_withArgs {n : Expr} {path : List Nat} (h : e.at? path = some n) :
    (e.withArgs args).inBranch path = e.inBranch path := by
  induction path generalizing e with
  | nil => rfl
  | cons i path ih =>
    obtain ⟨c, hc, h⟩ := Option.bind_eq_some_iff.1 h
    have hv := varName?_of_child hc
    rw [inBranch, child_withArgs args hc, withArgs_of_varName? hv, revisited,
      isBranch_withChildren, inBranch, hc]
    cases e.isBody i with
    | true => rfl
    | false => simpa using congrArg (e.isBranch i || ·) (ih h)

/-! ## Uses by places -/

/-- Whether a list holds, once each, the places outside methods where a parameter is read. -/
structure Expr.ListsReads (args : List (String × Expr)) (e : Expr)
    (places : List (List Nat × String)) : Prop where
  nodup : places.Nodup
  mem_iff : ∀ q x, (q, x) ∈ places ↔ e.ReadsOutside q x ∧ (args.lookup x).isSome

/-- The uses at places of an expression, that may itself be skipped. -/
def Expr.usesAt (e : Expr) (branch : Bool) (places : List (List Nat × String)) : Uses :=
  ⟨places.map (·.2), places.any fun p => branch || e.inBranch p.1⟩

/-- The uses in the children `cs`, the first of which is the `i`-th. -/
theorem Expr.exists_places_usesFrom (e : Expr) (b : Bool) {cs : List Expr}
    (ih : ∀ c ∈ cs, ∀ b, ∃ places, Expr.ListsReads args c places ∧
      (c.putArgs args b).2 = c.usesAt b places) (i : Nat)
    (hcs : ∀ j c, cs[j]? = some c → e.children[i + j]? = some c) :
    ∃ places : List (List Nat × String), places.Nodup ∧
      (∀ q x, (q, x) ∈ places ↔ ∃ j c, cs[j]? = some c ∧ ∃ r, q = (i + j) :: r ∧
        c.ReadsOutside r x ∧ (args.lookup x).isSome) ∧
      usesFrom args (fun k => b || e.isBranch k) i cs = e.usesAt b places := by
  induction cs generalizing i with
  | nil => exact ⟨[], List.nodup_nil, by simp, rfl⟩
  | cons c cs ihcs =>
    obtain ⟨first, hfirst, huses⟩ := ih c List.mem_cons_self (b || e.isBranch i)
    obtain ⟨rest, hnodup, hmem, hrest⟩ := ihcs (fun d hd => ih d (List.mem_cons_of_mem _ hd)) (i + 1)
      (fun j d hd => by
        have := hcs (j + 1) d (by simpa using hd)
        rwa [Nat.add_assoc, Nat.add_comm 1])
    have hc : e.children[i]? = some c := hcs 0 c rfl
    refine ⟨first.map (fun p => (i :: p.1, p.2)) ++ rest, ?_, fun q x => ?_, ?_⟩
    · refine List.nodup_append.2 ⟨?_, hnodup, ?_⟩
      · exact hfirst.nodup.map fun p p' h => by simpa [Prod.ext_iff] using h
      · rintro ⟨q, x⟩ hq ⟨q', x'⟩ hq' heq
        obtain ⟨p, -, hp⟩ := List.mem_map.1 hq
        obtain ⟨j, d, -, r, rfl, -⟩ := (hmem q' x').1 hq'
        cases heq
        simp at hp
        omega
    · rw [List.mem_append, hmem, List.mem_map, exists_getElem?_cons]
      simp only [Prod.exists, hfirst.mem_iff, Prod.mk.injEq]
      grind
    · rw [usesFrom, huses, hrest]
      simp [Uses.append_def, usesAt, inBranch, hc, Function.comp_def, Bool.or_assoc]

/-- **The uses are counted by places.** -/
theorem Expr.exists_places_putArgs (args : List (String × Expr)) (e : Expr) (b : Bool) :
    ∃ places, Expr.ListsReads args e places ∧ (e.putArgs args b).2 = e.usesAt b places := by
  induction e using inductNode generalizing b with
  | step e ih =>
    cases hv : e.varName? with
    | none =>
      obtain ⟨places, hnodup, hmem, huses⟩ := e.exists_places_usesFrom b
        (fun c hc => ih c (List.mem_of_mem_take hc)) 0
        (fun j c hc => by simp_all [List.getElem?_take])
      refine ⟨places, ⟨hnodup, fun q x => ?_⟩, (putArgs_snd args hv b).trans huses⟩
      rw [hmem]
      cases q with
      | nil => simp [readsOutside_nil, hv]
      | cons i q =>
        rw [readsOutside_cons]
        simp only [Nat.zero_add, List.cons.injEq]
        grind
    | some x =>
      obtain ⟨s, y, rfl, rfl⟩ := eq_lookup_of_varName? hv
      have hreads : ∀ q x, (lookup s y).ReadsOutside q x ↔ q = [] ∧ x = y.name := by
        intro q x
        cases q with
        | nil => simp [readsOutside_nil, varName?, eq_comm]
        | cons i q => simp [readsOutside_cons, children]
      cases harg : args.lookup y.name with
      | none =>
        refine ⟨[], ⟨List.nodup_nil, fun q x => ?_⟩,
          by simp [putArgs, harg, usesAt, Uses.none]⟩
        simp only [List.not_mem_nil, hreads, false_iff]
        rintro ⟨⟨-, rfl⟩, h⟩
        simp [harg] at h
      | some a =>
        refine ⟨[([], y.name)], ⟨List.nodup_singleton _, fun q x => ?_⟩,
          by simp [putArgs, harg, usesAt, inBranch]⟩
        simp only [List.mem_singleton, Prod.mk.injEq, hreads, iff_self_and]
        rintro ⟨-, rfl⟩
        simp [harg]

/-- A parameter is counted once iff it is read at one place. -/
theorem Expr.ListsReads.count_eq_one_iff {places : List (List Nat × String)}
    (h : Expr.ListsReads args e places) {x : String} (hx : (args.lookup x).isSome) :
    (places.map (·.2)).count x = 1 ↔ ∃ q, ∀ q', e.ReadsOutside q' x ↔ q' = q := by
  have hmem : ∀ q, (q, x) ∈ places ↔ e.ReadsOutside q x := by simp [h.mem_iff, hx]
  have hcount : (places.map (·.2)).count x = (places.filter (·.2 == x)).length := by
    rw [List.count, List.countP_map, List.countP_eq_length_filter]
    rfl
  rw [hcount]
  constructor
  · intro hlength
    obtain ⟨⟨q, y⟩, hq⟩ := List.length_eq_one_iff.1 hlength
    refine ⟨q, fun q' => ?_⟩
    have hq' : ∀ p, p ∈ places.filter (·.2 == x) ↔ p = (q, y) := by simp [hq]
    have hy := (hq' (q, y)).2 rfl
    have := hq' (q', x)
    rw [List.mem_filter] at hy this
    grind
  · rintro ⟨q, hq⟩
    have hperm : (places.filter (·.2 == x)).Perm [(q, x)] := by
      refine (List.perm_ext_iff_of_nodup (h.nodup.filter _) (List.nodup_singleton _)).2 ?_
      rintro ⟨q', y⟩
      rw [List.mem_filter, List.mem_singleton]
      grind
    rw [hperm.length_eq, List.length_singleton]

end

/-! ## Functions -/

/-- Whether an expression reads each of the names at one place outside methods, and that in no
    branch. -/
def Expr.UsesOnce (e : Expr) (names : List String) : Prop :=
  ∀ x ∈ names, ∃ q, (∀ q', e.ReadsOutside q' x ↔ q' = q) ∧ e.inBranch q = false

namespace Function
variable {f : Function} {args : List Expr}

def paramNames (f : Function) : List String :=
  f.params.map (·.name.name)

theorem keys_bindArgs (f : Function) (args : List Expr) :
    (f.bindArgs args).map (·.1) = f.paramNames.reverse := by
  rw [bindArgs, List.map_reverse, paramNames]
  congr 1
  exact List.ext_getElem? fun i => by simp [Function.comp_def]

theorem isSome_lookup_bindArgs (args : List Expr) {x : String} :
    ((f.bindArgs args).lookup x).isSome ↔ x ∈ f.paramNames := by
  rw [← Option.ne_none_iff_isSome, Ne, lookup_eq_none_iff_not_mem, not_not, keys_bindArgs,
    List.mem_reverse]

/-- What is put into the place of a parameter is its argument, or zero if that is missing. -/
theorem exists_arg_of_lookup {x : String} {a : Expr} (h : (f.bindArgs args).lookup x = some a) :
    ∃ (i : Nat) (p : Param), f.params[i]? = some p ∧ p.name.name = x ∧
      a = args[i]?.getD (.ofNat 0) := by
  have hmem := mem_of_lookup h
  rw [bindArgs, List.mem_reverse, List.mem_mapIdx] at hmem
  obtain ⟨i, hi, heq⟩ := hmem
  obtain ⟨hname, ha⟩ := Prod.mk.inj heq
  exact ⟨i, f.params[i], List.getElem?_eq_getElem hi, hname, ha.symm⟩

theorem index_unique (hdistinct : f.paramNames.Nodup) {i j : Nat} {p p' : Param}
    (hp : f.params[i]? = some p) (hp' : f.params[j]? = some p') (hname : p.name.name = p'.name.name) :
    i = j := by
  have hi : i < f.paramNames.length := by
    rw [paramNames, List.length_map]
    exact (List.getElem?_eq_some_iff.1 hp).1
  exact (List.getElem?_inj hi hdistinct).1 (by simp [paramNames, hp, hp', hname])

/-- The arguments for parameters of different names, in their order. -/
theorem lookup_bindArgs (hdistinct : f.paramNames.Nodup) (args : List Expr) {i : Nat} {p : Param}
    (hp : f.params[i]? = some p) :
    (f.bindArgs args).lookup p.name.name = some (args[i]?.getD (.ofNat 0)) := by
  obtain ⟨a, ha⟩ := Option.isSome_iff_exists.1
    ((isSome_lookup_bindArgs args).2 (List.mem_map_of_mem (List.mem_of_getElem? hp)))
  obtain ⟨j, p', hp', hname, rfl⟩ := exists_arg_of_lookup ha
  rw [ha, index_unique hdistinct hp hp' hname.symm]

/-- What is counted in a body decides whether it reads each parameter once and in no branch. -/
theorem usesOnce_iff {body : Expr} {places : List (List Nat × String)}
    (h : Expr.ListsReads (f.bindArgs args) body places) :
    body.UsesOnce f.paramNames ↔ f.params.isEmpty ∨
      (∀ x ∈ f.paramNames, (places.map (·.2)).count x = 1) ∧
        ∀ p ∈ places, body.inBranch p.1 = false := by
  have hcount : ∀ x ∈ f.paramNames, (places.map (·.2)).count x = 1 ↔
      ∃ q, ∀ q', body.ReadsOutside q' x ↔ q' = q := fun x hx =>
    h.count_eq_one_iff ((isSome_lookup_bindArgs args).2 hx)
  constructor
  · intro honce
    refine .inr ⟨fun x hx => (hcount x hx).2 ((honce x hx).imp fun _ => And.left), ?_⟩
    rintro ⟨q, x⟩ hq
    obtain ⟨hreads, hx⟩ := (h.mem_iff q x).1 hq
    obtain ⟨q', hunique, hbranch⟩ := honce x ((isSome_lookup_bindArgs args).1 hx)
    rw [(hunique q).1 hreads, hbranch]
  · rintro (hempty | ⟨hone, hbranch⟩) x hx
    · simp [paramNames, List.isEmpty_iff.1 hempty] at hx
    · obtain ⟨q, hq⟩ := (hcount x hx).1 (hone x hx)
      exact ⟨q, hq, hbranch _ ((h.mem_iff q x).2 ⟨(hq q).2 rfl, (isSome_lookup_bindArgs args).2 hx⟩)⟩

/-- **When a function can be unfolded**, and what a call of it becomes. -/
theorem instantiate?_eq_some_iff {r : Expr} :
    f.instantiate? args = some r ↔
      ∃ body, f.body = some body ∧ body.UsesOnce f.paramNames ∧
        body.withArgs (f.bindArgs args) = r := by
  rw [instantiate?, Option.bind_eq_bind, Option.bind_eq_some_iff]
  refine exists_congr fun body => and_congr_right fun _ => ?_
  obtain ⟨places, hplaces, huses⟩ := Expr.exists_places_putArgs (f.bindArgs args) body false
  simp only [usesOnce_iff hplaces, Expr.putArgs_fst, huses, Expr.usesAt]
  simp [paramNames, Option.ite_none_right_eq_some]

end Function

end GameHop
