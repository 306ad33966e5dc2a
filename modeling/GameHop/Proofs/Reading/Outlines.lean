import GameHop.Check.Proof

/-!
Outlines: the places of a phrase and of its parts. An outline is sound for a text if its places are cut at
characters, and parts lie in their phrase, one after the other (`Outline.Sound`).
-/

namespace GameHop

/-- Whether a text can be cut before its byte `n`. -/
def Boundary (source : String) (n : Nat) : Prop :=
  ∃ before after, source = before ++ after ∧ n = before.utf8ByteSize

theorem boundary_zero (source : String) : Boundary source 0 :=
  ⟨"", source, by simp, rfl⟩

structure Span.Fits (source : String) (s : Span) : Prop where
  start : Boundary source s.offset
  stop : Boundary source s.stop

theorem Span.fits_nowhere (source : String) : Span.nowhere.Fits source :=
  ⟨boundary_zero source, boundary_zero source⟩

/-- A span and what lies in it. -/
inductive Outline where
  | node (span : Span) (parts : List Outline)

namespace Outline

def span : Outline → Span
  | node s _ => s

/-- What has no parts. -/
def leaf (s : Span) : Outline :=
  node s []

@[simp] theorem span_leaf (s : Span) : (leaf s).span = s := rfl

def Before (a b : Outline) : Prop :=
  a.span.stop ≤ b.span.offset

structure In (s : Span) (o : Outline) : Prop where
  start : s.offset ≤ o.span.offset
  stop : o.span.stop ≤ s.stop

/-- Whether all places are places of the text, and parts lie in order in what they are parts of. -/
inductive Sound (source : String) : Outline → Prop
  | node {s : Span} {parts : List Outline} : s.Fits source → parts.Pairwise Before →
      (∀ o ∈ parts, o.In s) → (∀ o ∈ parts, Sound source o) → Sound source (node s parts)

theorem Sound.fits {source : String} {o : Outline} (h : o.Sound source) : o.span.Fits source := by
  cases h with
  | node hs => exact hs

theorem sound_leaf {source : String} {s : Span} (h : s.Fits source) : (leaf s).Sound source :=
  .node h .nil (List.forall_mem_nil _) (List.forall_mem_nil _)

end Outline

open Outline

/-! ## Terms -/

def Ident.outline (x : Ident) : Outline :=
  leaf x.span

def Param.outline (p : Param) : Outline :=
  node p.span [p.name.outline]

def ClassRef.parts : ClassRef → List Outline
  | .named c => [c.outline]
  | .invalid => []

mutual

/-- The outlines of what an expression is made of. -/
def Expr.parts : Expr → List Outline
  | .int _ _ | .bool _ _ | .ellipsis _ | .hole _ => []
  | .lookup _ x => [x.outline]
  | .paren _ l e => l.toList.map Ident.outline ++ [node e.span e.parts]
  | .assign _ x e => [x.outline] ++ [node e.span e.parts]
  | .unary _ _ e => [node e.span e.parts]
  | .seq _ a b | .binary _ _ a b | .index _ a b => [node a.span a.parts] ++ [node b.span b.parts]
  | .ternary _ a b c | .update _ a b c =>
    [node a.span a.parts] ++ [node b.span b.parts] ++ [node c.span c.parts]
  | .call _ f args => [f.outline] ++ Expr.outlines args
  | .invoke _ t m cs args =>
    [node t.span t.parts] ++ [m.outline] ++ cs.map Ident.outline ++ Expr.outlines args
  | .new _ o => o.parts
  | .assert _ p | .assume _ p => [node p.span p.parts]

def Expr.outlines : List Expr → List Outline
  | [] => []
  | e :: es => node e.span e.parts :: Expr.outlines es

def Object.parts : Object → List Outline
  | ⟨c, fs, ms⟩ => c.toList.map Ident.outline ++ Field.outlines fs ++ Method.outlines ms

def Field.outlines : List Field → List Outline
  | [] => []
  | ⟨s, x, e⟩ :: fs => node s ([x.outline] ++ [node e.span e.parts]) :: Field.outlines fs

def Method.outlines : List Method → List Outline
  | [] => []
  | ⟨s, m, ps, e⟩ :: ms =>
    node s ([m.outline] ++ ps.map Param.outline ++ [node e.span e.parts]) :: Method.outlines ms

/-- The outlines of what a formula is made of. -/
def Formula.parts : Formula → List Outline
  | .int _ _ | .bool _ _ | .frameAll _ | .fieldsEqual _ => []
  | .lookup _ x => [x.outline]
  | .paren _ p | .unary _ _ p => [node p.span p.parts]
  | .quant _ _ ps p => ps.map Param.outline ++ [node p.span p.parts]
  | .binary _ _ p q | .index _ p q | .frame _ p q => [node p.span p.parts] ++ [node q.span q.parts]
  | .update _ p q r => [node p.span p.parts] ++ [node q.span q.parts] ++ [node r.span r.parts]
  | .call _ f args => [f.outline] ++ Formula.outlines args
  | .env _ cs => Expr.outlines cs
  | .sameObject _ a b => a.parts ++ b.parts
  | .independence _ h p q => h.parts ++ [node p.span p.parts] ++ [node q.span q.parts]
  | .objectIs _ o c => o.parts ++ c.parts
  | .field _ o x => o.parts ++ [x.outline]
  | .frameHeap _ h k p q => h.parts ++ k.parts ++ [node p.span p.parts] ++ [node q.span q.parts]
  | .fieldsEqualExcept _ xs => xs.map Ident.outline

def Formula.outlines : List Formula → List Outline
  | [] => []
  | p :: ps => node p.span p.parts :: Formula.outlines ps

def ObjectTerm.parts : ObjectTerm → List Outline
  | .side _ => []
  | .inHeap h p => h.parts ++ [node p.span p.parts]

def HeapTerm.parts : HeapTerm → List Outline
  | .side _ => []
  | .inHeap h p => h.parts ++ [node p.span p.parts]

end

def Expr.outline (e : Expr) : Outline :=
  node e.span e.parts

def Formula.outline (p : Formula) : Outline :=
  node p.span p.parts

def Field.outline (f : Field) : Outline :=
  node f.span ([f.name.outline] ++ [f.value.outline])

def Method.outline (m : Method) : Outline :=
  node m.span ([m.name.outline] ++ m.params.map Param.outline ++ [m.body.outline])

theorem Expr.outlines_eq (es : List Expr) : outlines es = es.map outline := by
  induction es with
  | nil => rfl
  | cons e es ih => exact congrArg (e.outline :: ·) ih

theorem Formula.outlines_eq (ps : List Formula) : outlines ps = ps.map outline := by
  induction ps with
  | nil => rfl
  | cons p ps ih => exact congrArg (p.outline :: ·) ih

theorem Field.outlines_eq (fs : List Field) : outlines fs = fs.map outline := by
  induction fs with
  | nil => rfl
  | cons f fs ih =>
    obtain ⟨s, x, e⟩ := f
    exact congrArg (outline ⟨s, x, e⟩ :: ·) ih

theorem Method.outlines_eq (ms : List Method) : outlines ms = ms.map outline := by
  induction ms with
  | nil => rfl
  | cons m ms ih =>
    obtain ⟨s, x, ps, e⟩ := m
    exact congrArg (outline ⟨s, x, ps, e⟩ :: ·) ih

mutual

/-- The outlines of what a bound is made of. -/
def Bound.parts : Bound → List Outline
  | .int _ _ => []
  | .lookup _ x => [x.outline]
  | .paren _ b => [node b.span b.parts]
  | .call _ f args => [f.outline] ++ Bound.outlines args
  | .env _ cs => Expr.outlines cs
  | .binary _ _ a b => [node a.span a.parts] ++ [node b.span b.parts]

def Bound.outlines : List Bound → List Outline
  | [] => []
  | b :: bs => node b.span b.parts :: Bound.outlines bs

end

def Bound.outline (b : Bound) : Outline :=
  node b.span b.parts

theorem Bound.outlines_eq (bs : List Bound) : outlines bs = bs.map outline := by
  induction bs with
  | nil => rfl
  | cons b bs ih => exact congrArg (b.outline :: ·) ih

/-! ## Developments -/

def Statement.outline (s : Statement) : Outline :=
  node s.span ([s.name.outline] ++ s.params.map Param.outline ++ [s.left.outline] ++
    s.bound.toList.map Bound.outline ++ [s.right.outline])

def BisimScope.parts : BisimScope → List Outline
  | .invariant => []
  | .checkpoint l r => [l.outline] ++ [r.outline]

def BisimClause.outline (c : BisimClause) : Outline :=
  node c.span (c.scopes.flatMap BisimScope.parts ++ [c.claim.outline])

def Replacement.outline : Replacement → Outline
  | .fields s fs => node s (fs.map Field.outline)
  | .method m => m.outline

def Target.parts : Target → List Outline
  | .expr e => [e.outline]
  | .changed rs => rs.map Replacement.outline

mutual

/-- The outlines of what a step is made of. -/
def Tactic.parts : Tactic → List Outline
  | .subgoal s bound target proof =>
    bound.toList.map Bound.outline ++ target.parts ++ Tactic.outlines proof ++ [leaf s.closing]
  | .symmetry _ | .giveUp _ | .trivial _ | .auto _ => []
  | .bisim _ clauses => (clauses.getD []).map BisimClause.outline
  | .rewrite _ x => [x.outline]
  | .hybrid _ x a b => [x.outline] ++ [a.outline] ++ [b.outline]
  | .unfold _ xs | .inline _ xs => xs.map Ident.outline

def Tactic.outlines : List Tactic → List Outline
  | [] => []
  | t :: ts => node t.span t.parts :: Tactic.outlines ts

end

def Tactic.outline (t : Tactic) : Outline :=
  node t.span t.parts

theorem Tactic.outlines_eq (ts : List Tactic) : outlines ts = ts.map outline := by
  induction ts with
  | nil => rfl
  | cons t ts ih => exact congrArg (t.outline :: ·) ih

def Item.outline : Item → Outline
  | .imported i => node i.span (i.path.map Ident.outline)
  | .constant c => node c.span [c.name.outline]
  | .function f =>
    node f.span ([f.name.outline] ++ f.params.map Param.outline ++ f.body.toList.map Expr.outline)
  | .postulate p => node p.span [p.claim.outline]
  | .proved t => node t.span ([t.statement.outline] ++ Tactic.outlines t.proof ++ [leaf t.span.closing])
  | .assumed s => s.outline

end GameHop
