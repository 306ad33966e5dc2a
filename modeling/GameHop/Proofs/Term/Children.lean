import GameHop.Term.Postorder
import GameHop.Term.Traverse
import Mathlib.Data.List.Basic

/-!
Expressions by their children.
-/

namespace GameHop

/-! ## Induction -/

mutual

/-- **Induction on children.** -/
theorem Expr.inductNode {P : Expr → Prop} (step : ∀ e : Expr, (∀ c ∈ e.children, P c) → P e) :
    ∀ e : Expr, P e
  | .int _ _ | .bool _ _ | .lookup _ _ | .assert _ _ | .assume _ _ | .ellipsis _ | .hole _ =>
    step _ (by simp [children])
  | .paren _ _ e | .unary _ _ e | .assign _ _ e =>
    step _ (by simpa [children] using inductNode step e)
  | .seq _ a b | .binary _ _ a b | .index _ a b =>
    step _ (by simpa [children] using ⟨inductNode step a, inductNode step b⟩)
  | .ternary _ a b c | .update _ a b c =>
    step _ (by
      simpa [children] using
        ⟨inductNode step a, inductNode step b, inductNode step c⟩)
  | .call _ _ args => step _ (by simpa [children] using inductList step args)
  | .invoke _ t _ _ args =>
    step _ (by simpa [children] using ⟨inductNode step t, inductList step args⟩)
  | .new _ ⟨_, fields, methods⟩ => by
    have hf := inductFields step fields
    have hm := inductMethods step methods
    refine step _ fun c hc => ?_
    simp only [children, List.mem_append, List.mem_map] at hc
    rcases hc with ⟨f, hmem, rfl⟩ | ⟨m, hmem, rfl⟩
    · exact hf f hmem
    · exact hm m hmem

theorem Expr.inductList {P : Expr → Prop} (step : ∀ e : Expr, (∀ c ∈ e.children, P c) → P e) :
    ∀ es : List Expr, ∀ e ∈ es, P e
  | [] => by simp
  | e :: es => by simpa using ⟨inductNode step e, inductList step es⟩

theorem Expr.inductFields {P : Expr → Prop} (step : ∀ e : Expr, (∀ c ∈ e.children, P c) → P e) :
    ∀ fs : List Field, ∀ f ∈ fs, P f.value
  | [] => by simp
  | ⟨_, _, value⟩ :: fs => by simpa using ⟨inductNode step value, inductFields step fs⟩

theorem Expr.inductMethods {P : Expr → Prop}
    (step : ∀ e : Expr, (∀ c ∈ e.children, P c) → P e) : ∀ ms : List Method, ∀ m ∈ ms, P m.body
  | [] => by simp
  | ⟨_, _, _, body⟩ :: ms => by simpa using ⟨inductNode step body, inductMethods step ms⟩

end

/-! ## Nodes with other children -/

theorem map_eq_self {α : Type} {f : α → α} {l : List α} (h : ∀ a ∈ l, f a = a) : l.map f = l := by
  conv_rhs => rw [← List.map_id l]
  exact List.map_congr_left h

theorem mem_of_lookup {β : Type} {l : List (String × β)} {x : String} {b : β}
    (h : l.lookup x = some b) : (x, b) ∈ l := by
  obtain ⟨before, after, rfl, -⟩ := List.lookup_eq_some_iff.1 h
  simp

theorem lookup_eq_none_iff_not_mem {β : Type} {l : List (String × β)} {x : String} :
    l.lookup x = none ↔ x ∉ l.map (·.1) := by
  rw [List.lookup_eq_none_iff]
  simp only [List.mem_map, not_exists, not_and, bne_iff_ne]
  exact ⟨fun h p hp heq => h p hp heq.symm, fun h p hp heq => h p hp heq.symm⟩

theorem Field.withValues_append (fs : List Field) (values rest : List Expr)
    (h : values.length = fs.length) :
    withValues fs (values ++ rest) = withValues fs values := by
  unfold withValues
  rw [← List.append_nil fs, List.zipWith_append h.symm]
  simp

theorem Field.map_value_withValues (fs : List Field) (values : List Expr)
    (h : values.length = fs.length) : (withValues fs values).map (·.value) = values := by
  induction fs generalizing values with
  | nil => simp_all [withValues]
  | cons f fs ih =>
    cases values with
    | nil => simp at h
    | cons v values =>
      have := ih values (by simpa using h)
      simpa [withValues] using this

theorem Method.map_body_withBodies (ms : List Method) (bodies : List Expr)
    (h : bodies.length = ms.length) : (withBodies ms bodies).map (·.body) = bodies := by
  induction ms generalizing bodies with
  | nil => simp_all [withBodies]
  | cons m ms ih =>
    cases bodies with
    | nil => simp at h
    | cons b bodies =>
      have := ih bodies (by simpa using h)
      simpa [withBodies] using this

@[simp] theorem Field.length_withValues (fs : List Field) (values : List Expr) :
    (withValues fs values).length = min fs.length values.length := by
  simp [withValues]

theorem Field.withValues_withValues (fs : List Field) (values values' : List Expr)
    (h : values.length = fs.length) :
    withValues (withValues fs values) values' = withValues fs values' := by
  induction fs generalizing values values' with
  | nil => simp [withValues]
  | cons f fs ih =>
    cases values with
    | nil => simp at h
    | cons v values =>
      cases values' with
      | nil => simp [withValues]
      | cons v' values' =>
        have := ih values values' (by simpa using h)
        simpa [withValues] using this

theorem Method.withBodies_withBodies (ms : List Method) (bodies bodies' : List Expr)
    (h : bodies.length = ms.length) :
    withBodies (withBodies ms bodies) bodies' = withBodies ms bodies' := by
  induction ms generalizing bodies bodies' with
  | nil => simp [withBodies]
  | cons m ms ih =>
    cases bodies with
    | nil => simp at h
    | cons b bodies =>
      cases bodies' with
      | nil => simp [withBodies]
      | cons b' bodies' =>
        have := ih bodies bodies' (by simpa using h)
        simpa [withBodies] using this

theorem Expr.children_withChildren (e : Expr) (cs : List Expr)
    (h : cs.length = e.children.length) : (e.withChildren cs).children = cs := by
  cases e with
  | new s o =>
    obtain ⟨c, fields, methods⟩ := o
    simp only [children, List.length_append, List.length_map] at h
    have hf : (Field.withValues fields cs).map (·.value) = cs.take fields.length := by
      conv_lhs => rw [← List.take_append_drop fields.length cs]
      rw [Field.withValues_append _ _ _ (by simp; omega),
        Field.map_value_withValues _ _ (by simp; omega)]
    have hm := Method.map_body_withBodies methods (cs.drop fields.length) (by simp; omega)
    simp only [withChildren, children]
    rw [hf, hm, List.take_append_drop]
  | invoke s t m cls args =>
    obtain ⟨c, cs, rfl⟩ := List.exists_of_length_succ _ h
    rfl
  | call s f args => rfl
  | int | bool | lookup | assert | assume | ellipsis | hole =>
    simpa [children, withChildren] using (List.length_eq_zero_iff.1 h).symm
  | paren | unary | assign =>
    obtain ⟨a, rfl⟩ := List.length_eq_one_iff.1 h
    rfl
  | seq | binary | index =>
    obtain ⟨a, b, rfl⟩ := List.length_eq_two.1 h
    rfl
  | ternary | update =>
    obtain ⟨a, b, c, rfl⟩ := List.length_eq_three.1 h
    rfl

/-- Only the last children that are put into a node count. -/
theorem Expr.withChildren_withChildren (e : Expr) (cs ds : List Expr)
    (hc : cs.length = e.children.length) (hd : ds.length = e.children.length) :
    (e.withChildren cs).withChildren ds = e.withChildren ds := by
  cases e with
  | new s o =>
    obtain ⟨c, fields, methods⟩ := o
    simp only [children, List.length_append, List.length_map] at hc hd
    have hf : Field.withValues (Field.withValues fields cs) ds = Field.withValues fields ds := by
      conv_lhs => rw [← List.take_append_drop fields.length cs]
      rw [Field.withValues_append _ _ _ (by simp; omega),
        Field.withValues_withValues _ _ _ (by simp; omega)]
    have hm := Method.withBodies_withBodies methods (cs.drop fields.length)
      (ds.drop fields.length) (by simp; omega)
    have hl : (Field.withValues fields cs).length = fields.length := by simp; omega
    simp only [withChildren]
    rw [hf, hl, hm]
  | invoke s t m cls args =>
    obtain ⟨c, cs, rfl⟩ := List.exists_of_length_succ _ hc
    obtain ⟨d, ds, rfl⟩ := List.exists_of_length_succ _ hd
    rfl
  | call s f args => rfl
  | int | bool | lookup | assert | assume | ellipsis | hole => rfl
  | paren | unary | assign =>
    obtain ⟨a, rfl⟩ := List.length_eq_one_iff.1 hc
    obtain ⟨b, rfl⟩ := List.length_eq_one_iff.1 hd
    rfl
  | seq | binary | index =>
    obtain ⟨a, b, rfl⟩ := List.length_eq_two.1 hc
    obtain ⟨c, d, rfl⟩ := List.length_eq_two.1 hd
    rfl
  | ternary | update =>
    obtain ⟨a, b, c, rfl⟩ := List.length_eq_three.1 hc
    obtain ⟨a', b', c', rfl⟩ := List.length_eq_three.1 hd
    rfl

theorem Field.withValues_map (g : Expr → Expr) (fs : List Field) :
    withValues fs ((fs.map (·.value)).map g) =
      fs.map fun f => { f with value := g f.value } := by
  induction fs with
  | nil => simp [withValues]
  | cons f fs ih => simpa [withValues] using ih

theorem Method.withBodies_map (g : Expr → Expr) (ms : List Method) :
    withBodies ms ((ms.map (·.body)).map g) =
      ms.map fun m => { m with body := g m.body } := by
  induction ms with
  | nil => simp [withBodies]
  | cons m ms ih => simpa [withBodies] using ih

theorem Field.withValues_cons (f : Field) (fs : List Field) (v : Expr) (values : List Expr) :
    withValues (f :: fs) (v :: values) = { f with value := v } :: withValues fs values :=
  rfl

theorem Method.withBodies_cons (m : Method) (ms : List Method) (b : Expr) (bodies : List Expr) :
    withBodies (m :: ms) (b :: bodies) = { m with body := b } :: withBodies ms bodies :=
  rfl

theorem Field.withValues_values (fs : List Field) :
    withValues fs (fs.map (·.value)) = fs := by
  induction fs with
  | nil => rfl
  | cons f fs ih =>
    obtain ⟨s, x, v⟩ := f
    rw [List.map_cons, withValues_cons, ih]

theorem Method.withBodies_bodies (ms : List Method) :
    withBodies ms (ms.map (·.body)) = ms := by
  induction ms with
  | nil => rfl
  | cons m ms ih =>
    obtain ⟨s, x, ps, b⟩ := m
    rw [List.map_cons, withBodies_cons, ih]

theorem Expr.withChildren_new_append (s : Span) (c : Option Ident) (fs : List Field)
    (ms : List Method) {values : List Expr} (bodies : List Expr) (h : values.length = fs.length) :
    (new s ⟨c, fs, ms⟩).withChildren (values ++ bodies) =
      .new s ⟨c, Field.withValues fs values, Method.withBodies ms bodies⟩ := by
  simp only [withChildren]
  rw [Field.withValues_append _ _ _ h, ← h, List.drop_left]

theorem Expr.withChildren_new (s : Span) (c : Option Ident) (fs : List Field) (ms : List Method)
    (g : Expr → Expr) :
    (new s ⟨c, fs, ms⟩).withChildren ((new s ⟨c, fs, ms⟩).children.map g) =
      .new s ⟨c, fs.map fun f => { f with value := g f.value },
        ms.map fun m => { m with body := g m.body }⟩ := by
  rw [children, List.map_append, withChildren_new_append _ _ _ _ _ (by simp),
    Field.withValues_map, Method.withBodies_map]

/-! ## Traversals -/

/-- How many of the children of the root a traversal visits. -/
def Expr.visitedChildren (enter : Bool) : Expr → Nat
  | .new s o => if enter then (Expr.new s o).children.length else o.fields.length
  | e => e.children.length

theorem Expr.visitedChildren_le (enter : Bool) (e : Expr) :
    e.visitedChildren enter ≤ e.children.length := by
  cases e with
  | new s o => cases enter <;> simp [visitedChildren, children]
  | _ => exact Nat.le_refl _

theorem Expr.visitedChildren_true (e : Expr) : e.visitedChildren true = e.children.length := by
  cases e <;> rfl

/-- The root with other children in the place of those that a traversal visits. -/
def Expr.revisited (enter : Bool) (e : Expr) (cs : List Expr) : Expr :=
  e.withChildren (cs ++ e.children.drop (e.visitedChildren enter))

theorem Expr.length_revisited {enter : Bool} {e : Expr} {cs : List Expr}
    (h : cs.length = (e.children.take (e.visitedChildren enter)).length) :
    (cs ++ e.children.drop (e.visitedChildren enter)).length = e.children.length := by
  have hle := e.visitedChildren_le enter
  simp only [List.length_append, List.length_drop, h, List.length_take]
  omega

theorem Expr.revisited_true (e : Expr) (cs : List Expr) : e.revisited true cs = e.withChildren cs := by
  rw [revisited, visitedChildren_true, List.drop_length, List.append_nil]

section
variable {m : Type → Type} [Monad m] [LawfulMonad m] (enter : Bool) (visit : Expr → m Expr)

theorem Expr.bottomUpListM_append (es fs : List Expr) :
    bottomUpListM enter visit (es ++ fs) = do
      let es ← bottomUpListM enter visit es
      let fs ← bottomUpListM enter visit fs
      return es ++ fs := by
  induction es with
  | nil => simp [bottomUpListM]
  | cons e es ih => simp [bottomUpListM, ih]

theorem Expr.bottomUpFieldsM_eq (fs : List Field) :
    bottomUpFieldsM enter visit fs =
      Field.withValues fs <$> bottomUpListM enter visit (fs.map (·.value)) := by
  induction fs with
  | nil => simp [bottomUpFieldsM, bottomUpListM, Field.withValues]
  | cons f fs ih =>
    obtain ⟨s, x, v⟩ := f
    simp [bottomUpFieldsM, bottomUpListM, ih, Field.withValues_cons]

theorem Expr.bottomUpMethodsM_eq (ms : List Method) :
    bottomUpMethodsM enter visit ms =
      Method.withBodies ms <$> bottomUpListM enter visit (ms.map (·.body)) := by
  induction ms with
  | nil => simp [bottomUpMethodsM, bottomUpListM, Method.withBodies]
  | cons m ms ih =>
    obtain ⟨s, x, ps, b⟩ := m
    simp [bottomUpMethodsM, bottomUpListM, ih, Method.withBodies_cons]

/-- A traversal gives as many expressions as it is given. -/
theorem Expr.bottomUpListM_bind_congr {β : Type} {f g : List Expr → m β} (es : List Expr)
    (h : ∀ cs, cs.length = es.length → f cs = g cs) :
    bottomUpListM enter visit es >>= f = bottomUpListM enter visit es >>= g := by
  induction es generalizing f g with
  | nil => simpa [bottomUpListM] using h [] rfl
  | cons e es ih =>
    simp only [bottomUpListM, bind_assoc, pure_bind]
    refine bind_congr fun c => ih fun cs hcs => h (c :: cs) ?_
    rw [List.length_cons, List.length_cons, hcs]

/-- **A bottom-up traversal by children.** -/
theorem Expr.bottomUpM_eq (e : Expr) :
    e.bottomUpM enter visit =
      bottomUpListM enter visit (e.children.take (e.visitedChildren enter)) >>= fun cs =>
        visit (e.revisited enter cs) := by
  cases e with
  | new s o =>
    obtain ⟨c, fs, ms⟩ := o
    simp only [bottomUpM, bottomUpFieldsM_eq, bottomUpMethodsM_eq, bind_map_left]
    cases enter with
    | true =>
      simp only [if_true, visitedChildren_true, List.take_length, revisited_true, children,
        bottomUpListM_append, bind_assoc, pure_bind]
      refine bottomUpListM_bind_congr _ _ _ fun values h => bind_congr fun bodies => ?_
      rw [withChildren_new_append _ _ _ _ _ (by simpa using h)]
    | false =>
      simp only [Bool.false_eq_true, if_false, pure_bind, revisited, visitedChildren, children]
      rw [List.take_left' (by simp), List.drop_left' (by simp)]
      refine bottomUpListM_bind_congr _ _ _ fun values h => ?_
      rw [withChildren_new_append _ _ _ _ _ (by simpa using h), Method.withBodies_bodies]
  | _ =>
    simp [bottomUpM, bottomUpListM, revisited, visitedChildren, children, withChildren]

end

theorem Expr.bottomUpListM_id (enter : Bool) (visit : Expr → Expr) (es : List Expr) :
    Id.run (bottomUpListM enter (fun e => pure (visit e)) es) =
      es.map (bottomUp enter visit) := by
  induction es with
  | nil => rfl
  | cons e es ih => simp [bottomUpListM, bottomUp, ih]

theorem Expr.bottomUp_eq_revisited (enter : Bool) (visit : Expr → Expr) (e : Expr) :
    e.bottomUp enter visit = visit (e.revisited enter
      ((e.children.take (e.visitedChildren enter)).map (bottomUp enter visit))) := by
  rw [bottomUp, bottomUpM_eq, Id.run_bind, bottomUpListM_id, Id.run_pure]

theorem Expr.bottomUp_eq (visit : Expr → Expr) (e : Expr) :
    e.bottomUp true visit =
      visit (e.withChildren (e.children.map (bottomUp true visit))) := by
  rw [bottomUp_eq_revisited, revisited_true, visitedChildren_true, List.take_length]

section
variable (visit : Expr → Expr) (s : Span)

@[simp] theorem Expr.bottomUp_int (v : UInt64) :
    (int s v).bottomUp true visit = visit (.int s v) := rfl

@[simp] theorem Expr.bottomUp_bool (b : Bool) :
    (bool s b).bottomUp true visit = visit (.bool s b) := rfl

@[simp] theorem Expr.bottomUp_lookup (x : Ident) :
    (lookup s x).bottomUp true visit = visit (.lookup s x) := rfl

@[simp] theorem Expr.bottomUp_assert (p : Formula) :
    (assert s p).bottomUp true visit = visit (.assert s p) := rfl

@[simp] theorem Expr.bottomUp_assume (p : Formula) :
    (assume s p).bottomUp true visit = visit (.assume s p) := rfl

@[simp] theorem Expr.bottomUp_ellipsis :
    (ellipsis s).bottomUp true visit = visit (.ellipsis s) := rfl

@[simp] theorem Expr.bottomUp_hole : (hole s).bottomUp true visit = visit (.hole s) := rfl

@[simp] theorem Expr.bottomUp_paren (l : Option Ident) (e : Expr) :
    (paren s l e).bottomUp true visit = visit (.paren s l (e.bottomUp true visit)) := rfl

@[simp] theorem Expr.bottomUp_assign (x : Ident) (e : Expr) :
    (assign s x e).bottomUp true visit = visit (.assign s x (e.bottomUp true visit)) := rfl

@[simp] theorem Expr.bottomUp_unary (op : UnaryOp) (e : Expr) :
    (unary s op e).bottomUp true visit = visit (.unary s op (e.bottomUp true visit)) := rfl

@[simp] theorem Expr.bottomUp_seq (a b : Expr) :
    (seq s a b).bottomUp true visit =
      visit (.seq s (a.bottomUp true visit) (b.bottomUp true visit)) := rfl

@[simp] theorem Expr.bottomUp_binary (op : BinaryOp) (a b : Expr) :
    (binary s op a b).bottomUp true visit =
      visit (.binary s op (a.bottomUp true visit) (b.bottomUp true visit)) := rfl

@[simp] theorem Expr.bottomUp_index (a b : Expr) :
    (index s a b).bottomUp true visit =
      visit (.index s (a.bottomUp true visit) (b.bottomUp true visit)) := rfl

@[simp] theorem Expr.bottomUp_ternary (a b c : Expr) :
    (ternary s a b c).bottomUp true visit =
      visit (.ternary s (a.bottomUp true visit) (b.bottomUp true visit) (c.bottomUp true visit)) :=
  rfl

@[simp] theorem Expr.bottomUp_update (a b c : Expr) :
    (update s a b c).bottomUp true visit =
      visit (.update s (a.bottomUp true visit) (b.bottomUp true visit) (c.bottomUp true visit)) :=
  rfl

@[simp] theorem Expr.bottomUp_call (f : Ident) (args : List Expr) :
    (call s f args).bottomUp true visit =
      visit (.call s f (args.map (bottomUp true visit))) := by
  rw [bottomUp_eq]; rfl

@[simp] theorem Expr.bottomUp_invoke (t : Expr) (m : Ident) (cs : List Ident) (args : List Expr) :
    (invoke s t m cs args).bottomUp true visit =
      visit (.invoke s (t.bottomUp true visit) m cs (args.map (bottomUp true visit))) := by
  rw [bottomUp_eq]; rfl

@[simp] theorem Expr.bottomUp_new (c : Option Ident) (fs : List Field) (ms : List Method) :
    (new s ⟨c, fs, ms⟩).bottomUp true visit =
      visit (.new s ⟨c, fs.map fun f => { f with value := f.value.bottomUp true visit },
        ms.map fun m => { m with body := m.body.bottomUp true visit }⟩) := by
  rw [bottomUp_eq, withChildren_new]

end

/-- A traversal that changes no node changes nothing. -/
theorem Expr.bottomUp_of_fixed {visit : Expr → Expr} (h : ∀ e, visit e = e) (e : Expr) :
    e.bottomUp true visit = e := by
  induction e using inductNode with
  | step e ih =>
    rw [bottomUp_eq, h, map_eq_self ih, withChildren_children]

end GameHop
