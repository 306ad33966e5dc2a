import GameHop.Proofs.Reading.Bounds
import GameHop.Proofs.Reading.Readable

/-!
Terms without some of their parentheses. `dropParens` leaves out any choice of the parentheses that
carry no label, in all parts of a term.
-/

namespace GameHop

/-- Which of the parentheses of a term to leave out, by the addresses of their nodes. The parts of a
    node are numbered from zero; the parts of a list are its first element and the others. -/
abbrev Choice := List Nat → Bool

namespace Choice

/-- The choice in a part of a node. -/
def part (drop : Choice) (i : Nat) : Choice :=
  fun address => drop (i :: address)

/-- All parentheses. -/
def all : Choice :=
  fun _ => true

@[simp] theorem part_all (i : Nat) : all.part i = all := rfl

@[simp] theorem all_apply (address : List Nat) : all address = true := rfl

end Choice

mutual

/-- The expression without the unlabelled parentheses of a choice. -/
def Expr.dropParens (drop : Choice) : Expr → Expr
  | .int s n => .int s n
  | .bool s b => .bool s b
  | .lookup s x => .lookup s x
  | .paren s none e =>
    if drop [] then e.dropParens (drop.part 0) else .paren s none (e.dropParens (drop.part 0))
  | .paren s (some l) e => .paren s (some l) (e.dropParens (drop.part 0))
  | .seq s a b => .seq s (a.dropParens (drop.part 0)) (b.dropParens (drop.part 1))
  | .assign s x e => .assign s x (e.dropParens (drop.part 0))
  | .ternary s a b c =>
    .ternary s (a.dropParens (drop.part 0)) (b.dropParens (drop.part 1)) (c.dropParens (drop.part 2))
  | .unary s op e => .unary s op (e.dropParens (drop.part 0))
  | .binary s op a b => .binary s op (a.dropParens (drop.part 0)) (b.dropParens (drop.part 1))
  | .call s f args => .call s f (Expr.dropParensList (drop.part 0) args)
  | .invoke s t m cs args =>
    .invoke s (t.dropParens (drop.part 0)) m cs (Expr.dropParensList (drop.part 1) args)
  | .new s o => .new s (o.dropParens (drop.part 0))
  | .index s a b => .index s (a.dropParens (drop.part 0)) (b.dropParens (drop.part 1))
  | .update s a b c =>
    .update s (a.dropParens (drop.part 0)) (b.dropParens (drop.part 1)) (c.dropParens (drop.part 2))
  | .assert s p => .assert s (p.dropParens (drop.part 0))
  | .assume s p => .assume s (p.dropParens (drop.part 0))
  | .ellipsis s => .ellipsis s
  | .hole s => .hole s

def Expr.dropParensList (drop : Choice) : List Expr → List Expr
  | [] => []
  | e :: es => e.dropParens (drop.part 0) :: Expr.dropParensList (drop.part 1) es

def Object.dropParens (drop : Choice) : Object → Object
  | ⟨c, fields, methods⟩ =>
    ⟨c, Field.dropParensList (drop.part 0) fields, Method.dropParensList (drop.part 1) methods⟩

def Field.dropParensList (drop : Choice) : List Field → List Field
  | [] => []
  | ⟨s, x, value⟩ :: fs =>
    ⟨s, x, value.dropParens (drop.part 0)⟩ :: Field.dropParensList (drop.part 1) fs

def Method.dropParensList (drop : Choice) : List Method → List Method
  | [] => []
  | ⟨s, m, ps, body⟩ :: ms =>
    ⟨s, m, ps, body.dropParens (drop.part 0)⟩ :: Method.dropParensList (drop.part 1) ms

/-- The formula without the parentheses of a choice. -/
def Formula.dropParens (drop : Choice) : Formula → Formula
  | .int s n => .int s n
  | .bool s b => .bool s b
  | .lookup s x => .lookup s x
  | .paren s p =>
    if drop [] then p.dropParens (drop.part 0) else .paren s (p.dropParens (drop.part 0))
  | .quant s q ps p => .quant s q ps (p.dropParens (drop.part 0))
  | .unary s op p => .unary s op (p.dropParens (drop.part 0))
  | .binary s op p q => .binary s op (p.dropParens (drop.part 0)) (q.dropParens (drop.part 1))
  | .call s f args => .call s f (Formula.dropParensList (drop.part 0) args)
  | .index s p q => .index s (p.dropParens (drop.part 0)) (q.dropParens (drop.part 1))
  | .update s p q r =>
    .update s (p.dropParens (drop.part 0)) (q.dropParens (drop.part 1)) (r.dropParens (drop.part 2))
  | .env s cs => .env s (Expr.dropParensList (drop.part 0) cs)
  | .sameObject s a b => .sameObject s (a.dropParens (drop.part 0)) (b.dropParens (drop.part 1))
  | .independence s h p q =>
    .independence s (h.dropParens (drop.part 0)) (p.dropParens (drop.part 1))
      (q.dropParens (drop.part 2))
  | .objectIs s o c => .objectIs s (o.dropParens (drop.part 0)) c
  | .field s o x => .field s (o.dropParens (drop.part 0)) x
  | .frameAll s => .frameAll s
  | .frame s p q => .frame s (p.dropParens (drop.part 0)) (q.dropParens (drop.part 1))
  | .frameHeap s h k p q =>
    .frameHeap s (h.dropParens (drop.part 0)) (k.dropParens (drop.part 1))
      (p.dropParens (drop.part 2)) (q.dropParens (drop.part 3))
  | .fieldsEqual s => .fieldsEqual s
  | .fieldsEqualExcept s xs => .fieldsEqualExcept s xs

def Formula.dropParensList (drop : Choice) : List Formula → List Formula
  | [] => []
  | p :: ps => p.dropParens (drop.part 0) :: Formula.dropParensList (drop.part 1) ps

def ObjectTerm.dropParens (drop : Choice) : ObjectTerm → ObjectTerm
  | .side s => .side s
  | .inHeap h p => .inHeap (h.dropParens (drop.part 0)) (p.dropParens (drop.part 1))

def HeapTerm.dropParens (drop : Choice) : HeapTerm → HeapTerm
  | .side s => .side s
  | .inHeap h p => .inHeap (h.dropParens (drop.part 0)) (p.dropParens (drop.part 1))

end

mutual

/-- The bound without the parentheses of a choice. -/
def Bound.dropParens (drop : Choice) : Bound → Bound
  | .int s n => .int s n
  | .lookup s x => .lookup s x
  | .paren s b =>
    if drop [] then b.dropParens (drop.part 0) else .paren s (b.dropParens (drop.part 0))
  | .call s f args => .call s f (Bound.dropParensList (drop.part 0) args)
  | .env s cs => .env s (Expr.dropParensList (drop.part 0) cs)
  | .binary s op a b => .binary s op (a.dropParens (drop.part 0)) (b.dropParens (drop.part 1))

def Bound.dropParensList (drop : Choice) : List Bound → List Bound
  | [] => []
  | b :: bs => b.dropParens (drop.part 0) :: Bound.dropParensList (drop.part 1) bs

end

/-! ## Whole expressions stay whole -/

theorem Expr.mem_dropParensList {es : List Expr} {drop : Choice} {c : Expr}
    (hc : c ∈ dropParensList drop es) : ∃ e ∈ es, ∃ drop, c = e.dropParens drop := by
  induction es generalizing drop with
  | nil => cases hc
  | cons e es ih =>
    rcases List.mem_cons.1 hc with rfl | hc
    · exact ⟨e, List.mem_cons_self, _, rfl⟩
    · obtain ⟨a, ha, hdrop⟩ := ih hc
      exact ⟨a, List.mem_cons_of_mem _ ha, hdrop⟩

theorem Field.mem_dropParensList {fs : List Field} {drop : Choice} {g : Field}
    (hg : g ∈ dropParensList drop fs) :
    ∃ f ∈ fs, ∃ drop, g.value = f.value.dropParens drop := by
  induction fs generalizing drop with
  | nil => cases hg
  | cons f fs ih =>
    obtain ⟨s, x, value⟩ := f
    rcases List.mem_cons.1 hg with rfl | hg
    · exact ⟨_, List.mem_cons_self, _, rfl⟩
    · obtain ⟨a, ha, hdrop⟩ := ih hg
      exact ⟨a, List.mem_cons_of_mem _ ha, hdrop⟩

theorem Method.mem_dropParensList {ms : List Method} {drop : Choice} {n : Method}
    (hn : n ∈ dropParensList drop ms) :
    ∃ m ∈ ms, ∃ drop, n.body = m.body.dropParens drop := by
  induction ms generalizing drop with
  | nil => cases hn
  | cons m ms ih =>
    obtain ⟨s, x, ps, body⟩ := m
    rcases List.mem_cons.1 hn with rfl | hn
    · exact ⟨_, List.mem_cons_self, _, rfl⟩
    · obtain ⟨a, ha, hdrop⟩ := ih hn
      exact ⟨a, List.mem_cons_of_mem _ ha, hdrop⟩

theorem Expr.holeFree_dropParens {e : Expr} (h : e.HoleFree) :
    ∀ drop, (e.dropParens drop).HoleFree := by
  induction e using inductNode with
  | step e ih =>
    obtain ⟨hroot, hchildren⟩ := (e.holeFree_iff).1 h
    have ih : ∀ c ∈ e.children, ∀ drop, (c.dropParens drop).HoleFree :=
      fun c hc => ih c hc (hchildren c hc)
    intro drop
    cases e with
    | paren s l a =>
      have ha := ih a (by simp [children]) (drop.part 0)
      cases l with
      | none =>
        simp only [dropParens]
        split
        · exact ha
        · exact (holeFree_iff _).2 ⟨rfl, by simpa [children] using ha⟩
      | some l =>
        exact (holeFree_iff _).2 ⟨rfl, by simpa [children, dropParens] using ha⟩
    | call s f args =>
      refine (holeFree_iff _).2 ⟨rfl, fun c hc => ?_⟩
      obtain ⟨a, ha, d, rfl⟩ := mem_dropParensList hc
      exact ih a ha d
    | invoke s t m cs args =>
      refine (holeFree_iff _).2 ⟨rfl, fun c hc => ?_⟩
      rcases List.mem_cons.1 hc with rfl | hc
      · exact ih t (by simp [children]) _
      · obtain ⟨a, ha, d, rfl⟩ := mem_dropParensList hc
        exact ih a (by simp [children, ha]) d
    | new s o =>
      obtain ⟨cls, fs, ms⟩ := o
      refine (holeFree_iff _).2 ⟨rfl, ?_⟩
      simp only [dropParens, Object.dropParens, children, List.forall_mem_append,
        List.forall_mem_map] at ih ⊢
      refine ⟨fun g hg => ?_, fun n hn => ?_⟩
      · obtain ⟨f, hf, d, hd⟩ := Field.mem_dropParensList hg
        exact hd ▸ ih.1 f hf d
      · obtain ⟨m, hm, d, hd⟩ := Method.mem_dropParensList hn
        exact hd ▸ ih.2 m hm d
    | hole s => cases hroot
    | _ =>
      refine (holeFree_iff _).2 ⟨rfl, ?_⟩
      simp only [children, dropParens, List.forall_mem_cons] at ih ⊢
      simp [ih]

attribute [local simp] Expr.dropParens Expr.dropParensList Object.dropParens Field.dropParensList
  Method.dropParensList Formula.dropParens Formula.dropParensList ObjectTerm.dropParens
  HeapTerm.dropParens Bound.dropParens Bound.dropParensList

/-! ## Legible terms stay legible -/

section
attribute [local simp] Expr.Legible Expr.LegibleList Expr.LegibleContexts Object.Legible
  Field.LegibleList Method.LegibleList Formula.Legible Formula.LegibleList ObjectTerm.Legible
  HeapTerm.Legible Bound.Legible Bound.LegibleList

theorem Expr.legible_dropParens (e : Expr) : e.Legible → ∀ drop, (e.dropParens drop).Legible := by
  -- one motive for each kind of term, and for each kind of list
  apply @Expr.rec (fun e => e.Legible → ∀ drop, (e.dropParens drop).Legible)
    (fun o => o.Legible → ∀ drop, (o.dropParens drop).Legible)
    (fun f => f.value.Legible → ∀ drop, (f.value.dropParens drop).Legible)
    (fun m => m.body.Legible → ∀ drop, (m.body.dropParens drop).Legible)
    (fun p => p.Legible → ∀ drop, (p.dropParens drop).Legible)
    (fun o => o.Legible → ∀ drop, (o.dropParens drop).Legible)
    (fun h => h.Legible → ∀ drop, (h.dropParens drop).Legible)
    (fun es => (LegibleList es → ∀ drop, LegibleList (dropParensList drop es)) ∧
      (LegibleContexts es → ∀ drop, LegibleContexts (dropParensList drop es)))
    (fun fs => Field.LegibleList fs → ∀ drop, Field.LegibleList (Field.dropParensList drop fs))
    (fun ms => Method.LegibleList ms → ∀ drop, Method.LegibleList (Method.dropParensList drop ms))
    (fun ps => Formula.LegibleList ps → ∀ drop, Formula.LegibleList (Formula.dropParensList drop ps))
  all_goals
    intros
    try casesm* Field, Method, Option Ident, ClassRef
    all_goals simp_all [apply_ite Expr.Legible, apply_ite Formula.Legible, holeFree_dropParens]

theorem Formula.legible_dropParens (p : Formula) (h : p.Legible) (drop : Choice) :
    (p.dropParens drop).Legible :=
  (Expr.assert .nowhere p).legible_dropParens h fun address => drop address.tail

theorem Expr.legibleContexts_dropParens (cs : List Expr) (h : LegibleContexts cs) (drop : Choice) :
    LegibleContexts (dropParensList drop cs) :=
  (Formula.env .nowhere cs).legible_dropParens h fun address => drop address.tail

mutual

theorem Bound.legible_dropParens (b : Bound) (h : b.Legible) (drop : Choice) :
    (b.dropParens drop).Legible := by
  cases b <;>
    simp_all [apply_ite Bound.Legible, Bound.legible_dropParens, Bound.legibleList_dropParens,
      Expr.legibleContexts_dropParens]

theorem Bound.legibleList_dropParens (bs : List Bound) (h : Bound.LegibleList bs) (drop : Choice) :
    Bound.LegibleList (dropParensList drop bs) := by
  cases bs <;> simp_all [Bound.legible_dropParens, Bound.legibleList_dropParens]

end

end

/-! ## Places -/

attribute [local simp] Expr.bare Expr.bareList Object.bare Field.bareList Method.bareList Formula.bare
  Formula.bareList ObjectTerm.bare HeapTerm.bare Bound.bare Bound.bareList

theorem Expr.dropParens_bare (e : Expr) :
    ∀ drop, e.bare.dropParens drop = (e.dropParens drop).bare := by
  apply @Expr.rec (fun e => ∀ drop, e.bare.dropParens drop = (e.dropParens drop).bare)
    (fun o => ∀ drop, o.bare.dropParens drop = (o.dropParens drop).bare)
    (fun f => ∀ drop, f.value.bare.dropParens drop = (f.value.dropParens drop).bare)
    (fun m => ∀ drop, m.body.bare.dropParens drop = (m.body.dropParens drop).bare)
    (fun p => ∀ drop, p.bare.dropParens drop = (p.dropParens drop).bare)
    (fun o => ∀ drop, o.bare.dropParens drop = (o.dropParens drop).bare)
    (fun h => ∀ drop, h.bare.dropParens drop = (h.dropParens drop).bare)
    (fun es => ∀ drop, dropParensList drop (bareList es) = bareList (dropParensList drop es))
    (fun fs => ∀ drop,
      Field.dropParensList drop (Field.bareList fs) = Field.bareList (Field.dropParensList drop fs))
    (fun ms => ∀ drop,
      Method.dropParensList drop (Method.bareList ms) = Method.bareList (Method.dropParensList drop ms))
    (fun ps => ∀ drop, Formula.dropParensList drop (Formula.bareList ps) =
      Formula.bareList (Formula.dropParensList drop ps))
  all_goals
    intros
    try casesm* Field, Method, Option Ident
    all_goals simp_all [apply_ite Expr.bare, apply_ite Formula.bare]

theorem Formula.dropParens_bare (p : Formula) (drop : Choice) :
    p.bare.dropParens drop = (p.dropParens drop).bare :=
  (Expr.assert.inj ((Expr.assert .nowhere p).dropParens_bare fun address => drop address.tail)).2

theorem Expr.dropParensList_bare (es : List Expr) (drop : Choice) :
    dropParensList drop (bareList es) = bareList (dropParensList drop es) :=
  (Formula.env.inj ((Formula.env .nowhere es).dropParens_bare fun address => drop address.tail)).2

mutual

theorem Bound.dropParens_bare (b : Bound) (drop : Choice) :
    b.bare.dropParens drop = (b.dropParens drop).bare := by
  cases b <;>
    simp [Bound.dropParens_bare, Bound.dropParensList_bare, apply_ite bare, Expr.dropParensList_bare]

theorem Bound.dropParensList_bare (bs : List Bound) (drop : Choice) :
    dropParensList drop (bareList bs) = bareList (dropParensList drop bs) := by
  cases bs <;> simp [Bound.dropParens_bare, Bound.dropParensList_bare]

end

/-! ## Spelled terms -/

theorem ExprPrec.dropParens_wrap (least own : ExprPrec) (e : Expr) :
    (least.wrap own e).dropParens .all = e.dropParens .all := by
  unfold wrap
  split <;> rfl

theorem FormulaPrec.dropParens_wrap (least own : FormulaPrec) (p : Formula) :
    (least.wrap own p).dropParens .all = p.dropParens .all := by
  unfold wrap
  split <;> rfl

theorem BoundPrec.dropParens_wrap (least own : BoundPrec) (b : Bound) :
    (least.wrap own b).dropParens .all = b.dropParens .all := by
  unfold wrap
  split <;> rfl

attribute [local simp] Expr.spelled Expr.spelledList Expr.spelledContexts Object.spelled
  Field.spelledList Method.spelledList Formula.spelled Formula.spelledList ObjectTerm.spelled
  HeapTerm.spelled Bound.spelled Bound.spelledList ExprPrec.dropParens_wrap
  FormulaPrec.dropParens_wrap BoundPrec.dropParens_wrap

/-- **A term and what it spells differ in parentheses only.** -/
theorem Expr.dropParens_spelled (e : Expr) :
    ∀ least, (e.spelled least).dropParens .all = (e.dropParens .all).bare := by
  apply @Expr.rec (fun e => ∀ least, (e.spelled least).dropParens .all = (e.dropParens .all).bare)
    (fun o => o.spelled.dropParens .all = (o.dropParens .all).bare)
    (fun f => ∀ least, (f.value.spelled least).dropParens .all = (f.value.dropParens .all).bare)
    (fun m => ∀ least, (m.body.spelled least).dropParens .all = (m.body.dropParens .all).bare)
    (fun p => ∀ least, (p.spelled least).dropParens .all = (p.dropParens .all).bare)
    (fun o => o.spelled.dropParens .all = (o.dropParens .all).bare)
    (fun h => h.spelled.dropParens .all = (h.dropParens .all).bare)
    (fun es => dropParensList .all (spelledList es) = bareList (dropParensList .all es) ∧
      dropParensList .all (spelledContexts es) = bareList (dropParensList .all es))
    (fun fs => Field.dropParensList .all (Field.spelledList fs) =
      Field.bareList (Field.dropParensList .all fs))
    (fun ms => Method.dropParensList .all (Method.spelledList ms) =
      Method.bareList (Method.dropParensList .all ms))
    (fun ps => Formula.dropParensList .all (Formula.spelledList ps) =
      Formula.bareList (Formula.dropParensList .all ps))
  all_goals
    intros
    try casesm* Field, Method, Option Ident, UnaryOp, FormulaUnaryOp
    all_goals simp_all

theorem Formula.dropParens_spelled (p : Formula) :
    (p.spelled .lowest).dropParens .all = (p.dropParens .all).bare :=
  (Expr.assert.inj ((Expr.assert .nowhere p).dropParens_spelled .lowest)).2

theorem Expr.dropParensList_spelledContexts (cs : List Expr) :
    dropParensList .all (spelledContexts cs) = bareList (dropParensList .all cs) :=
  (Formula.env.inj (Formula.env .nowhere cs).dropParens_spelled).2

mutual

theorem Bound.dropParens_spelled (b : Bound) (least : BoundPrec) :
    (b.spelled least).dropParens .all = (b.dropParens .all).bare := by
  cases b <;>
    simp [Bound.dropParens_spelled, Bound.dropParensList_spelled, Expr.dropParensList_spelledContexts]

theorem Bound.dropParensList_spelled (bs : List Bound) :
    dropParensList .all (spelledList bs) = bareList (dropParensList .all bs) := by
  cases bs <;> simp [Bound.dropParens_spelled, Bound.dropParensList_spelled]

end

end GameHop
