import GameHop.Proofs.Reading.Readable

/-!
Terms as the parsers give them where terms of a level are asked for: legible and whole, and such
that their text needs no parentheses but their own, so that what they spell is what they are.
-/

namespace GameHop

/-! ## What it is to be as read -/

/-- Whether an expression is like those that a parser of a level gives. -/
structure Expr.AsRead (least : ExprPrec) (e : Expr) : Prop where
  readable : e.Readable
  holeFree : e.HoleFree
  spelled : e.spelled least = e.bare

theorem Expr.AsRead.legible {least : ExprPrec} {e : Expr} (h : e.AsRead least) : e.Legible :=
  h.readable.legible

/-- Whether a formula is like those that a parser of a level gives. -/
structure Formula.AsRead (least : FormulaPrec) (p : Formula) : Prop where
  legible : p.Legible
  spelled : p.spelled least = p.bare

structure ObjectTerm.AsRead (o : ObjectTerm) : Prop where
  legible : o.Legible
  spelled : o.spelled = o.bare

structure HeapTerm.AsRead (h : HeapTerm) : Prop where
  legible : h.Legible
  spelled : h.spelled = h.bare

/-- Whether a bound is like those that a parser of a level gives. -/
structure Bound.AsRead (least : BoundPrec) (b : Bound) : Prop where
  legible : b.Legible
  spelled : b.spelled least = b.bare

/-- The field without its places. -/
def Field.bare (f : Field) : Field :=
  ⟨.nowhere, f.name.bare, f.value.bare⟩

/-- The method without its places. -/
def Method.bare (m : Method) : Method :=
  ⟨.nowhere, m.name.bare, m.params.map Param.bare, m.body.bare⟩

structure Field.AsRead (f : Field) : Prop where
  name : f.name.Legible
  value : f.value.AsRead .assign

structure Method.AsRead (m : Method) : Prop where
  names : m.LegibleNames
  body : m.body.AsRead .lowest

structure Object.AsRead (o : Object) : Prop where
  className : ∀ c ∈ o.className, c.Legible
  fields : ∀ f ∈ o.fields, f.AsRead
  methods : ∀ m ∈ o.methods, m.AsRead

/-! ## Looser levels -/

theorem Expr.AsRead.loosen {least own : ExprPrec} {e : Expr} (h : e.AsRead own)
    (hle : least.rank ≤ own.rank) : e.AsRead least := by
  refine ⟨h.readable, h.holeFree, ?_⟩
  have hs := h.spelled
  cases e with
  | seq | assign | ternary | binary =>
    simp only [Expr.spelled, Expr.bare, ExprPrec.wrap] at hs ⊢
    split at hs
    · cases hs
    · rwa [if_neg (by omega)]
  | unary s op e =>
    cases op with
    | not =>
      simp only [Expr.spelled, Expr.bare, ExprPrec.wrap] at hs ⊢
      split at hs
      · cases hs
      · rwa [if_neg (by omega)]
    | ref | tobits => exact hs
  | _ => exact hs

theorem Formula.AsRead.loosen {least own : FormulaPrec} {p : Formula} (h : p.AsRead own)
    (hle : least.rank ≤ own.rank) : p.AsRead least := by
  refine ⟨h.legible, ?_⟩
  have hs := h.spelled
  cases p with
  | quant | binary =>
    simp only [Formula.spelled, Formula.bare, FormulaPrec.wrap] at hs ⊢
    split at hs
    · cases hs
    · rwa [if_neg (by omega)]
  | unary s op p =>
    cases op with
    | not =>
      simp only [Formula.spelled, Formula.bare, FormulaPrec.wrap] at hs ⊢
      split at hs
      · cases hs
      · rwa [if_neg (by omega)]
    | tobits | isBits => exact hs
  | _ => exact hs

theorem Bound.AsRead.loosen {least own : BoundPrec} {b : Bound} (h : b.AsRead own)
    (hle : least.rank ≤ own.rank) : b.AsRead least := by
  refine ⟨h.legible, ?_⟩
  have hs := h.spelled
  cases b with
  | binary =>
    simp only [Bound.spelled, Bound.bare, BoundPrec.wrap] at hs ⊢
    split at hs
    · cases hs
    · rwa [if_neg (by omega)]
  | _ => exact hs

/-! ## Lists -/

theorem Expr.spelledList_asRead {es : List Expr} (h : ∀ e ∈ es, e.AsRead .assign) :
    spelledList es = bareList es := by
  rw [spelledList_eq, bareList_eq]
  exact List.map_congr_left fun e he => (h e he).spelled

theorem Field.spelledList_asRead {fs : List Field} (h : ∀ f ∈ fs, f.AsRead) :
    spelledList fs = bareList fs := by
  rw [spelledList_eq, bareList_eq]
  exact List.map_congr_left fun f hf => by rw [(h f hf).value.spelled]

theorem Method.spelledList_asRead {ms : List Method} (h : ∀ m ∈ ms, m.AsRead) :
    spelledList ms = bareList ms := by
  rw [spelledList_eq, bareList_eq]
  exact List.map_congr_left fun m hm => by rw [(h m hm).body.spelled]

theorem Expr.spelledContexts_asRead {cs : List Expr} (h : ∀ c ∈ cs, c.AsRead .lowest) :
    spelledContexts cs = bareList cs := by
  induction cs with
  | nil => rfl
  | cons c cs ih =>
    rw [List.forall_mem_cons] at h
    rw [spelledContexts, bareList, h.1.spelled, ih h.2]

theorem Expr.legibleContexts_asRead {cs : List Expr} (h : ∀ c ∈ cs, c.AsRead .lowest) :
    Expr.LegibleContexts cs := by
  induction cs with
  | nil => trivial
  | cons c cs ih =>
    rw [List.forall_mem_cons] at h
    exact ⟨h.1.legible, h.1.holeFree, ih h.2⟩

theorem Formula.legibleList_asRead {ps : List Formula} (h : ∀ p ∈ ps, p.AsRead .lowest) :
    Formula.LegibleList ps := by
  induction ps with
  | nil => trivial
  | cons p ps ih =>
    rw [List.forall_mem_cons] at h
    exact ⟨h.1.legible, ih h.2⟩

theorem Formula.spelledList_asRead {ps : List Formula} (h : ∀ p ∈ ps, p.AsRead .lowest) :
    spelledList ps = bareList ps := by
  induction ps with
  | nil => rfl
  | cons p ps ih =>
    rw [List.forall_mem_cons] at h
    rw [spelledList, bareList, h.1.spelled, ih h.2]

theorem Bound.spelledList_asRead {bs : List Bound} (h : ∀ b ∈ bs, b.AsRead .lowest) :
    spelledList bs = bareList bs := by
  rw [spelledList_eq, bareList_eq]
  exact List.map_congr_left fun b hb => (h b hb).spelled

/-! ## Expressions -/

/-- Readable and whole roots with readable and whole children. -/
theorem Expr.asRead_of_children {least : ExprPrec} {e : Expr} (hroot : e.ReadableRoot)
    (hhole : e.isHole = false) (hchildren : ∀ c ∈ e.children, ∃ least, c.AsRead least)
    (hspelled : e.spelled least = e.bare) : e.AsRead least := by
  refine ⟨(e.readable_iff).2 ⟨hroot, fun c hc => ?_⟩,
    (e.holeFree_iff).2 ⟨hhole, fun c hc => ?_⟩, hspelled⟩
  · obtain ⟨l, h⟩ := hchildren c hc
    exact h.readable
  · obtain ⟨l, h⟩ := hchildren c hc
    exact h.holeFree

section
variable (s : Span) {a b c e : Expr} {x f m : Ident} {args : List Expr}

theorem Expr.asRead_int (n : UInt64) : (int s n).AsRead .suffix :=
  asRead_of_children ⟨trivial, nofun⟩ rfl (by simp [children]) rfl

theorem Expr.asRead_bool (b : Bool) : (bool s b).AsRead .suffix :=
  asRead_of_children ⟨trivial, nofun⟩ rfl (by simp [children]) rfl

theorem Expr.asRead_ellipsis : (ellipsis s).AsRead .suffix :=
  asRead_of_children ⟨trivial, nofun⟩ rfl (by simp [children]) rfl

theorem Expr.asRead_lookup (hx : x.Legible) : (lookup s x).AsRead .suffix :=
  asRead_of_children ⟨hx, nofun⟩ rfl (by simp [children]) rfl

theorem Expr.asRead_paren {l : Option Ident} (hl : ∀ x ∈ l, x.Legible) (he : e.AsRead .lowest) :
    (paren s l e).AsRead .suffix :=
  asRead_of_children ⟨hl, nofun⟩ rfl (by simpa [children] using ⟨_, he⟩)
    (by simp [spelled, bare, he.spelled])

theorem Expr.asRead_seq (ha : a.AsRead .assign) (hb : b.AsRead .lowest) :
    (seq s a b).AsRead .lowest :=
  asRead_of_children ⟨trivial, nofun⟩ rfl (by simpa [children] using ⟨⟨_, ha⟩, ⟨_, hb⟩⟩)
    (by simp [spelled, bare, ExprPrec.wrap, ha.spelled, hb.spelled])

theorem Expr.asRead_assign (hx : x.Legible) (he : e.AsRead .assign) :
    (assign s x e).AsRead .assign :=
  asRead_of_children ⟨hx, nofun⟩ rfl (by simpa [children] using ⟨_, he⟩)
    (by simp [spelled, bare, ExprPrec.wrap, he.spelled])

theorem Expr.asRead_ternary (ha : a.AsRead .or) (hb : b.AsRead .assign) (hc : c.AsRead .assign) :
    (ternary s a b c).AsRead .ternary :=
  asRead_of_children ⟨trivial, nofun⟩ rfl
    (by simpa [children] using ⟨⟨_, ha⟩, ⟨_, hb⟩, ⟨_, hc⟩⟩)
    (by simp [spelled, bare, ExprPrec.wrap, ha.spelled, hb.spelled, hc.spelled])

theorem Expr.asRead_not (he : e.AsRead .not) : (unary s .not e).AsRead .not :=
  asRead_of_children ⟨trivial, nofun⟩ rfl (by simpa [children] using ⟨_, he⟩)
    (by simp [spelled, bare, ExprPrec.wrap, he.spelled])

/-- The operations that are words. -/
theorem Expr.asRead_unary {op : UnaryOp} (hop : op ≠ .not) (he : e.AsRead .lowest) :
    (unary s op e).AsRead .suffix := by
  refine asRead_of_children ⟨trivial, nofun⟩ rfl (by simpa [children] using ⟨_, he⟩) ?_
  cases op with
  | not => exact absurd rfl hop
  | ref | tobits => simp [spelled, bare, he.spelled]

theorem Expr.asRead_binary {op : BinaryOp} (hop : op ≠ .compare .same)
    (ha : a.AsRead op.precs.2.1) (hb : b.AsRead op.precs.2.2) :
    (binary s op a b).AsRead op.precs.1 :=
  asRead_of_children ⟨hop, nofun⟩ rfl (by simpa [children] using ⟨⟨_, ha⟩, ⟨_, hb⟩⟩)
    (by simp [spelled, bare, ExprPrec.wrap, ha.spelled, hb.spelled])

theorem Expr.asRead_call (hf : f.Legible) (h : ∀ a ∈ args, a.AsRead .assign) :
    (call s f args).AsRead .suffix :=
  asRead_of_children ⟨hf, nofun⟩ rfl (fun a ha => ⟨_, h a ha⟩)
    (by simp [spelled, bare, spelledList_asRead h])

theorem Expr.asRead_invoke {cs : List Ident} (ha : a.AsRead .suffix) (hm : m.Legible)
    (hcs : ∀ c ∈ cs, c.Legible) (h : ∀ a ∈ args, a.AsRead .assign) :
    (invoke s a m cs args).AsRead .suffix :=
  asRead_of_children ⟨⟨hm, hcs⟩, nofun⟩ rfl
    (by simpa [children] using ⟨⟨_, ha⟩, fun a ha => ⟨_, h a ha⟩⟩)
    (by simp [spelled, bare, ha.spelled, spelledList_asRead h])

theorem Expr.asRead_new {o : Object} (h : o.AsRead) : (new s o).AsRead .suffix := by
  obtain ⟨cls, fs, ms⟩ := o
  refine asRead_of_children
    ⟨⟨h.className, fun f hf => (h.fields f hf).name, fun m hm => (h.methods m hm).names⟩, nofun⟩
    rfl ?_ ?_
  · simp only [children, List.forall_mem_append, List.forall_mem_map]
    exact ⟨fun f hf => ⟨_, (h.fields f hf).value⟩, fun m hm => ⟨_, (h.methods m hm).body⟩⟩
  · simp [spelled, bare, Object.spelled, Object.bare, Field.spelledList_asRead h.fields,
      Method.spelledList_asRead h.methods]

theorem Expr.asRead_index (ha : a.AsRead .suffix) (hb : b.AsRead .assign) :
    (index s a b).AsRead .suffix :=
  asRead_of_children ⟨trivial, nofun⟩ rfl (by simpa [children] using ⟨⟨_, ha⟩, ⟨_, hb⟩⟩)
    (by simp [spelled, bare, ha.spelled, hb.spelled])

theorem Expr.asRead_update (ha : a.AsRead .suffix) (hb : b.AsRead .assign)
    (hc : c.AsRead .assign) : (update s a b c).AsRead .suffix :=
  asRead_of_children ⟨trivial, nofun⟩ rfl
    (by simpa [children] using ⟨⟨_, ha⟩, ⟨_, hb⟩, ⟨_, hc⟩⟩)
    (by simp [spelled, bare, ha.spelled, hb.spelled, hc.spelled])

theorem Expr.asRead_assert {p : Formula} (hp : p.AsRead .lowest) :
    (assert s p).AsRead .suffix :=
  asRead_of_children ⟨hp.legible, by rintro _ ⟨⟩; exact hp.spelled⟩ rfl (by simp [children])
    (by simp [spelled, bare, hp.spelled])

theorem Expr.asRead_assume {p : Formula} (hp : p.AsRead .lowest) :
    (assume s p).AsRead .suffix :=
  asRead_of_children ⟨hp.legible, by rintro _ ⟨⟩; exact hp.spelled⟩ rfl (by simp [children])
    (by simp [spelled, bare, hp.spelled])

end

/-! ## Formulas -/

section
variable (s : Span) {p q r : Formula} {x : Ident}

theorem Formula.asRead_int (n : UInt64) : (int s n).AsRead .suffix :=
  ⟨trivial, rfl⟩

theorem Formula.asRead_bool (b : Bool) : (bool s b).AsRead .suffix :=
  ⟨trivial, rfl⟩

theorem Formula.asRead_frameAll : (frameAll s).AsRead .suffix :=
  ⟨trivial, rfl⟩

theorem Formula.asRead_fieldsEqual : (fieldsEqual s).AsRead .suffix :=
  ⟨trivial, rfl⟩

theorem Formula.asRead_lookup (hx : x.Legible) (hname : x.name ∉ objectNames) :
    (lookup s x).AsRead .suffix :=
  ⟨⟨hx, hname⟩, rfl⟩

theorem Formula.asRead_paren (hp : p.AsRead .lowest) : (paren s p).AsRead .suffix :=
  ⟨hp.legible, by simp [spelled, bare, hp.spelled]⟩

theorem Formula.asRead_quant (q : Quantifier) {ps : List Param} (hps : ∀ x ∈ ps, x.name.Legible)
    (hp : p.AsRead .lowest) : (quant s q ps p).AsRead .lowest :=
  ⟨⟨hps, hp.legible⟩, by simp [spelled, bare, FormulaPrec.wrap, hp.spelled]⟩

theorem Formula.asRead_not (hp : p.AsRead .not) : (unary s .not p).AsRead .not :=
  ⟨hp.legible, by simp [spelled, bare, FormulaPrec.wrap, hp.spelled]⟩

/-- The operations that are words. -/
theorem Formula.asRead_unary {op : FormulaUnaryOp} (hop : op ≠ .not) (hp : p.AsRead .lowest) :
    (unary s op p).AsRead .suffix := by
  refine ⟨hp.legible, ?_⟩
  cases op with
  | not => exact absurd rfl hop
  | tobits | isBits => simp [spelled, bare, hp.spelled]

theorem Formula.asRead_binary (op : FormulaOp) (hp : p.AsRead op.precs.2.1)
    (hq : q.AsRead op.precs.2.2) : (binary s op p q).AsRead op.precs.1 :=
  ⟨⟨hp.legible, hq.legible⟩,
    by simp [spelled, bare, FormulaPrec.wrap, hp.spelled, hq.spelled]⟩

theorem Formula.asRead_call (hx : x.Legible) (hname : x.name ∉ calledNames)
    {args : List Formula} (h : ∀ p ∈ args, p.AsRead .lowest) :
    (call s x args).AsRead .suffix :=
  ⟨⟨hx, hname, legibleList_asRead h⟩,
    by simp [spelled, bare, spelledList_asRead h]⟩

theorem Formula.asRead_index (hp : p.AsRead .suffix) (hq : q.AsRead .lowest) :
    (index s p q).AsRead .suffix :=
  ⟨⟨hp.legible, hq.legible⟩, by simp [spelled, bare, hp.spelled, hq.spelled]⟩

theorem Formula.asRead_update (hp : p.AsRead .suffix) (hq : q.AsRead .lowest)
    (hr : r.AsRead .lowest) : (update s p q r).AsRead .suffix :=
  ⟨⟨hp.legible, hq.legible, hr.legible⟩,
    by simp [spelled, bare, hp.spelled, hq.spelled, hr.spelled]⟩

theorem Formula.asRead_env {cs : List Expr} (h : ∀ c ∈ cs, c.AsRead .lowest) :
    (env s cs).AsRead .suffix :=
  ⟨Expr.legibleContexts_asRead h,
    by simp [spelled, bare, Expr.spelledContexts_asRead h]⟩

theorem Formula.asRead_sameObject {a b : ObjectTerm} (ha : a.AsRead) (hb : b.AsRead) :
    (sameObject s a b).AsRead .suffix :=
  ⟨⟨ha.legible, hb.legible⟩, by simp [spelled, bare, ha.spelled, hb.spelled]⟩

theorem Formula.asRead_independence {h : HeapTerm} (hh : h.AsRead) (hp : p.AsRead .lowest)
    (hq : q.AsRead .lowest) : (independence s h p q).AsRead .suffix :=
  ⟨⟨hh.legible, hp.legible, hq.legible⟩,
    by simp [spelled, bare, hh.spelled, hp.spelled, hq.spelled]⟩

theorem Formula.asRead_objectIs_named {o : ObjectTerm} (ho : o.AsRead) (hx : x.Legible)
    (hname : x.name ≠ "invalid") : (objectIs s o (.named x)).AsRead .suffix :=
  ⟨⟨ho.legible, hx, hname⟩, by simp [spelled, bare, ho.spelled]⟩

theorem Formula.asRead_objectIs_invalid {o : ObjectTerm} (ho : o.AsRead) :
    (objectIs s o .invalid).AsRead .suffix :=
  ⟨ho.legible, by simp [spelled, bare, ho.spelled]⟩

theorem Formula.asRead_field {o : ObjectTerm} (ho : o.AsRead) (hx : x.Legible) :
    (field s o x).AsRead .suffix :=
  ⟨⟨ho.legible, hx⟩, by simp [spelled, bare, ho.spelled]⟩

theorem Formula.asRead_frame (hp : p.AsRead .lowest) (hq : q.AsRead .lowest) :
    (frame s p q).AsRead .suffix :=
  ⟨⟨hp.legible, hq.legible⟩, by simp [spelled, bare, hp.spelled, hq.spelled]⟩

theorem Formula.asRead_frameHeap {h k : HeapTerm} (hh : h.AsRead) (hk : k.AsRead)
    (hp : p.AsRead .lowest) (hq : q.AsRead .lowest) :
    (frameHeap s h k p q).AsRead .suffix :=
  ⟨⟨hh.legible, hk.legible, hp.legible, hq.legible⟩,
    by simp [spelled, bare, hh.spelled, hk.spelled, hp.spelled, hq.spelled]⟩

theorem Formula.asRead_fieldsEqualExcept {xs : List Ident} (h : ∀ x ∈ xs, x.Legible) :
    (Formula.fieldsEqualExcept s xs).AsRead .suffix :=
  ⟨h, rfl⟩

theorem ObjectTerm.asRead_side (side : Side) : (ObjectTerm.side side).AsRead :=
  ⟨trivial, rfl⟩

theorem ObjectTerm.asRead_inHeap {h : HeapTerm} (hh : h.AsRead) (hp : p.AsRead .lowest) :
    (inHeap h p).AsRead :=
  ⟨⟨hh.legible, hp.legible⟩, by simp [ObjectTerm.spelled, ObjectTerm.bare, hh.spelled, hp.spelled]⟩

theorem HeapTerm.asRead_side (side : Side) : (HeapTerm.side side).AsRead :=
  ⟨trivial, rfl⟩

theorem HeapTerm.asRead_inHeap {h : HeapTerm} (hh : h.AsRead) (hp : p.AsRead .lowest) :
    (h.inHeap p).AsRead :=
  ⟨⟨hh.legible, hp.legible⟩, by simp [spelled, bare, hh.spelled, hp.spelled]⟩

end

/-! ## Bounds -/

section
variable (s : Span) {a b : Bound} {x : Ident}

theorem Bound.asRead_int (n : UInt64) : (int s n).AsRead .primary :=
  ⟨trivial, rfl⟩

theorem Bound.asRead_lookup (hx : x.Legible) : (lookup s x).AsRead .primary :=
  ⟨hx, rfl⟩

theorem Bound.asRead_paren (hb : b.AsRead .lowest) : (paren s b).AsRead .primary :=
  ⟨hb.legible, by simp [spelled, bare, hb.spelled]⟩

theorem Bound.asRead_call (hx : x.Legible) {args : List Bound}
    (h : ∀ b ∈ args, b.AsRead .lowest) : (call s x args).AsRead .primary :=
  ⟨⟨hx, (legibleList_iff args).2 fun b hb => (h b hb).legible⟩,
    by simp [spelled, bare, spelledList_asRead h]⟩

theorem Bound.asRead_env {cs : List Expr} (h : ∀ c ∈ cs, c.AsRead .lowest) :
    (env s cs).AsRead .primary :=
  ⟨Expr.legibleContexts_asRead h,
    by simp [spelled, bare, Expr.spelledContexts_asRead h]⟩

theorem Bound.asRead_binary (op : BoundOp) (ha : a.AsRead op.precs.2.1)
    (hb : b.AsRead op.precs.2.2) : (binary s op a b).AsRead op.precs.1 :=
  ⟨⟨ha.legible, hb.legible⟩,
    by simp [spelled, bare, BoundPrec.wrap, ha.spelled, hb.spelled]⟩

end

end GameHop
