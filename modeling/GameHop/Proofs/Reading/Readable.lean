import GameHop.Proofs.Reading.Spelling
import GameHop.Proofs.Term.Variables

/-!
Readable expressions by their nodes: an expression is readable if its root is and its children are.
Traversals that visit no unreadable node give readable expressions.
-/

namespace GameHop

theorem Expr.claims_eq (e : Expr) :
    e.claims = e.children.flatMap claims ++ e.claim?.toList :=
  postorder_filterMap _ e

theorem Expr.mem_claims_of_child {e c : Expr} (hc : c ∈ e.children) {p : Formula}
    (hp : p ∈ c.claims) : p ∈ e.claims := by
  rw [claims_eq]
  exact List.mem_append_left _ (List.mem_flatMap.2 ⟨c, hc, hp⟩)

theorem Expr.mem_claims_of_root {e : Expr} {p : Formula} (h : e.claim? = some p) :
    p ∈ e.claims := by
  rw [claims_eq, h]
  exact List.mem_append_right _ (List.mem_singleton_self p)

theorem Expr.legibleList_iff (es : List Expr) : Expr.LegibleList es ↔ ∀ e ∈ es, e.Legible := by
  induction es with
  | nil => simp [Expr.LegibleList]
  | cons e es ih => simp [Expr.LegibleList, ih]

theorem Field.legibleList_iff (fs : List Field) :
    Field.LegibleList fs ↔ (∀ f ∈ fs, f.name.Legible) ∧ ∀ f ∈ fs, f.value.Legible := by
  induction fs with
  | nil => simp [Field.LegibleList]
  | cons f fs ih =>
    obtain ⟨s, x, value⟩ := f
    simp only [Field.LegibleList, ih, List.forall_mem_cons]
    tauto

/-- Whether the names of a method are identifiers. -/
def Method.LegibleNames (m : Method) : Prop :=
  m.name.Legible ∧ ∀ p ∈ m.params, p.name.Legible

theorem Method.legibleList_iff (ms : List Method) :
    Method.LegibleList ms ↔ (∀ m ∈ ms, m.LegibleNames) ∧ ∀ m ∈ ms, m.body.Legible := by
  induction ms with
  | nil => simp [Method.LegibleList]
  | cons m ms ih =>
    obtain ⟨s, x, ps, body⟩ := m
    simp only [Method.LegibleList, ih, List.forall_mem_cons, Method.LegibleNames]
    tauto

/-- Whether the names and the operator of the root, and what it claims, are legible. -/
def Expr.LegibleRoot : Expr → Prop
  | .lookup _ x | .assign _ x _ => x.Legible
  | .paren _ l _ => ∀ x ∈ l, x.Legible
  | .binary _ op _ _ => op ≠ .compare .same
  | .call _ f _ => f.Legible
  | .invoke _ _ m cs _ => m.Legible ∧ ∀ c ∈ cs, c.Legible
  | .new _ ⟨c, fields, methods⟩ =>
    (∀ x ∈ c, x.Legible) ∧ (∀ f ∈ fields, f.name.Legible) ∧ ∀ m ∈ methods, m.LegibleNames
  | .assert _ p | .assume _ p => p.Legible
  | .int _ _ | .bool _ _ | .seq _ _ _ | .ternary _ _ _ _ | .unary _ _ _ | .index _ _ _
  | .update _ _ _ _ | .ellipsis _ | .hole _ => True

/-- **Legibility by nodes.** -/
theorem Expr.legible_iff (e : Expr) : e.Legible ↔ e.LegibleRoot ∧ ∀ c ∈ e.children, c.Legible := by
  cases e with
  | new s o =>
    obtain ⟨c, fs, ms⟩ := o
    simp only [Expr.Legible, Object.Legible, Field.legibleList_iff, Method.legibleList_iff,
      Expr.LegibleRoot, children, List.forall_mem_append, List.forall_mem_map]
    tauto
  | _ => simp [Expr.Legible, legibleList_iff, Expr.LegibleRoot, children] <;> tauto

theorem Expr.Legible.root {e : Expr} (h : e.Legible) : e.LegibleRoot :=
  ((e.legible_iff).1 h).1

theorem Expr.Legible.child {e c : Expr} (h : e.Legible) (hc : c ∈ e.children) : c.Legible :=
  ((e.legible_iff).1 h).2 c hc

theorem mem_of_mem_zipWith {α β γ : Type} {g : α → β → γ} {as : List α} {bs : List β} {c : γ}
    (h : c ∈ List.zipWith g as bs) : ∃ a ∈ as, ∃ b ∈ bs, g a b = c := by
  rw [← List.map_uncurry_zip_eq_zipWith] at h
  obtain ⟨⟨a, b⟩, hab, rfl⟩ := List.mem_map.1 h
  obtain ⟨ha, hb⟩ := List.of_mem_zip hab
  exact ⟨a, ha, b, hb, rfl⟩

/-- The names and the operator of a node do not depend on its children. -/
theorem Expr.legibleRoot_withChildren {e : Expr} (he : e.LegibleRoot) (cs : List Expr) :
    (e.withChildren cs).LegibleRoot := by
  unfold withChildren
  split
  case h_11 =>
    rename_i s o
    obtain ⟨c, fs, ms⟩ := o
    obtain ⟨hc, hfs, hms⟩ := he
    refine ⟨hc, fun f hf => ?_, fun m hm => ?_⟩
    · obtain ⟨f', hf', v, -, rfl⟩ := mem_of_mem_zipWith hf
      exact hfs f' hf'
    · obtain ⟨m', hm', b, -, rfl⟩ := mem_of_mem_zipWith hm
      exact hms m' hm'
  all_goals exact he

/-- Whether the root of an expression is legible and claims something like what was read. -/
structure Expr.ReadableRoot (e : Expr) : Prop where
  legible : e.LegibleRoot
  settled : ∀ p, e.claim? = some p → p.Settled

/-- **Readability by nodes.** -/
theorem Expr.readable_iff (e : Expr) :
    e.Readable ↔ e.ReadableRoot ∧ ∀ c ∈ e.children, c.Readable := by
  constructor
  · intro h
    refine ⟨⟨h.legible.root, fun p hp => h.settled p (mem_claims_of_root hp)⟩, fun c hc => ?_⟩
    exact ⟨h.legible.child hc, fun p hp => h.settled p (mem_claims_of_child hc hp)⟩
  · rintro ⟨hroot, hchildren⟩
    refine ⟨(e.legible_iff).2 ⟨hroot.legible, fun c hc => (hchildren c hc).legible⟩, ?_⟩
    rw [claims_eq, List.forall_mem_append, List.forall_mem_flatMap]
    exact ⟨fun c hc => (hchildren c hc).settled, fun p hp => hroot.settled p (Option.mem_toList.1 hp)⟩

theorem Expr.Readable.root {e : Expr} (h : e.Readable) : e.ReadableRoot :=
  ((e.readable_iff).1 h).1

theorem Expr.Readable.child {e c : Expr} (h : e.Readable) (hc : c ∈ e.children) : c.Readable :=
  ((e.readable_iff).1 h).2 c hc

/-! ## Constructors -/

/-- Whether the name of a field is an identifier and its value is readable. -/
structure Field.Readable (f : Field) : Prop where
  name : f.name.Legible
  value : f.value.Readable

/-- Whether the names of a method are identifiers and its body is readable. -/
structure Method.Readable (m : Method) : Prop where
  names : m.LegibleNames
  body : m.body.Readable

/-- Whether the parts of an object are readable. -/
structure Object.Readable (o : Object) : Prop where
  className : ∀ x ∈ o.className, x.Legible
  fields : ∀ f ∈ o.fields, f.Readable
  methods : ∀ m ∈ o.methods, m.Readable

section
variable {s : Span}

theorem Expr.readable_plain {e : Expr} (he : e.claim? = none) :
    e.Readable ↔ e.LegibleRoot ∧ ∀ c ∈ e.children, c.Readable := by
  rw [readable_iff]
  refine and_congr_left fun _ => ⟨fun h => h.legible, fun h => ⟨h, ?_⟩⟩
  simp [he]

@[simp] theorem Expr.readable_int (n : UInt64) : (int s n).Readable :=
  (readable_plain rfl).2 ⟨trivial, List.forall_mem_nil _⟩

@[simp] theorem Expr.readable_bool (b : Bool) : (bool s b).Readable :=
  (readable_plain rfl).2 ⟨trivial, List.forall_mem_nil _⟩

@[simp] theorem Expr.readable_ellipsis : (ellipsis s).Readable :=
  (readable_plain rfl).2 ⟨trivial, List.forall_mem_nil _⟩

@[simp] theorem Expr.readable_hole : (hole s).Readable :=
  (readable_plain rfl).2 ⟨trivial, List.forall_mem_nil _⟩

@[simp] theorem Expr.readable_lookup (x : Ident) : (lookup s x).Readable ↔ x.Legible := by
  rw [readable_plain rfl]
  simp [Expr.LegibleRoot, children]

@[simp] theorem Expr.readable_paren (l : Option Ident) (e : Expr) :
    (paren s l e).Readable ↔ (∀ x ∈ l, x.Legible) ∧ e.Readable := by
  rw [readable_plain rfl]
  simp [Expr.LegibleRoot, children]

@[simp] theorem Expr.readable_seq (a b : Expr) :
    (seq s a b).Readable ↔ a.Readable ∧ b.Readable := by
  rw [readable_plain rfl]
  simp [Expr.LegibleRoot, children]

@[simp] theorem Expr.readable_assign (x : Ident) (e : Expr) :
    (assign s x e).Readable ↔ x.Legible ∧ e.Readable := by
  rw [readable_plain rfl]
  simp [Expr.LegibleRoot, children]

@[simp] theorem Expr.readable_ternary (a b c : Expr) :
    (ternary s a b c).Readable ↔ a.Readable ∧ b.Readable ∧ c.Readable := by
  rw [readable_plain rfl]
  simp [Expr.LegibleRoot, children]

@[simp] theorem Expr.readable_unary (op : UnaryOp) (e : Expr) :
    (unary s op e).Readable ↔ e.Readable := by
  rw [readable_plain rfl]
  simp [Expr.LegibleRoot, children]

@[simp] theorem Expr.readable_binary (op : BinaryOp) (a b : Expr) :
    (binary s op a b).Readable ↔ op ≠ .compare .same ∧ a.Readable ∧ b.Readable := by
  rw [readable_plain rfl]
  simp [Expr.LegibleRoot, children]

@[simp] theorem Expr.readable_call (f : Ident) (args : List Expr) :
    (call s f args).Readable ↔ f.Legible ∧ ∀ a ∈ args, a.Readable := by
  rw [readable_plain rfl]
  simp [Expr.LegibleRoot, children]

@[simp] theorem Expr.readable_invoke (t : Expr) (m : Ident) (cs : List Ident) (args : List Expr) :
    (invoke s t m cs args).Readable ↔
      (m.Legible ∧ ∀ c ∈ cs, c.Legible) ∧ t.Readable ∧ ∀ a ∈ args, a.Readable := by
  rw [readable_plain rfl]
  simp [Expr.LegibleRoot, children]

@[simp] theorem Expr.readable_index (a b : Expr) :
    (index s a b).Readable ↔ a.Readable ∧ b.Readable := by
  rw [readable_plain rfl]
  simp [Expr.LegibleRoot, children]

@[simp] theorem Expr.readable_update (a b c : Expr) :
    (update s a b c).Readable ↔ a.Readable ∧ b.Readable ∧ c.Readable := by
  rw [readable_plain rfl]
  simp [Expr.LegibleRoot, children]

@[simp] theorem Expr.readable_new (o : Object) : (new s o).Readable ↔ o.Readable := by
  rw [readable_plain rfl]
  obtain ⟨c, fs, ms⟩ := o
  simp only [Expr.LegibleRoot, children, List.forall_mem_append, List.forall_mem_map]
  constructor
  · rintro ⟨⟨hc, hfs, hms⟩, hvalues, hbodies⟩
    exact ⟨hc, fun f hf => ⟨hfs f hf, hvalues f hf⟩, fun m hm => ⟨hms m hm, hbodies m hm⟩⟩
  · intro h
    exact ⟨⟨h.className, fun f hf => (h.fields f hf).name, fun m hm => (h.methods m hm).names⟩,
      fun f hf => (h.fields f hf).value, fun m hm => (h.methods m hm).body⟩

end

end GameHop
