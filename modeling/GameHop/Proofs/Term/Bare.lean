import GameHop.Printer.Term
import Mathlib.Data.List.Basic

/-!
Terms without places. Two terms are equal up to places iff their bare forms are equal. The layout of
a term does not depend on places (`Expr.layout_bare`).
-/

namespace GameHop

/-- The identifier without its place. -/
def Ident.bare (x : Ident) : Ident :=
  .plain x.name

@[simp] theorem Ident.name_bare (x : Ident) : x.bare.name = x.name := rfl

theorem Ident.bare_inj {x y : Ident} : x.bare = y.bare ↔ x.name = y.name := by
  refine ⟨fun h => by simpa using congrArg name h, fun h => ?_⟩
  rw [bare, h, bare]

/-- The parameter without its places. -/
def Param.bare (p : Param) : Param :=
  ⟨.nowhere, p.name.bare, p.ty⟩

def ClassRef.bare : ClassRef → ClassRef
  | named c => named c.bare
  | invalid => invalid

mutual

/-- The expression without its places. -/
def Expr.bare : Expr → Expr
  | .int _ n => .int .nowhere n
  | .bool _ b => .bool .nowhere b
  | .lookup _ x => .lookup .nowhere x.bare
  | .paren _ l e => .paren .nowhere (l.map Ident.bare) e.bare
  | .seq _ a b => .seq .nowhere a.bare b.bare
  | .assign _ x e => .assign .nowhere x.bare e.bare
  | .ternary _ a b c => .ternary .nowhere a.bare b.bare c.bare
  | .unary _ op e => .unary .nowhere op e.bare
  | .binary _ op a b => .binary .nowhere op a.bare b.bare
  | .call _ f args => .call .nowhere f.bare (Expr.bareList args)
  | .invoke _ t m cs args =>
    .invoke .nowhere t.bare m.bare (cs.map Ident.bare) (Expr.bareList args)
  | .new _ o => .new .nowhere o.bare
  | .index _ a b => .index .nowhere a.bare b.bare
  | .update _ a b c => .update .nowhere a.bare b.bare c.bare
  | .assert _ p => .assert .nowhere p.bare
  | .assume _ p => .assume .nowhere p.bare
  | .ellipsis _ => .ellipsis .nowhere
  | .hole _ => .hole .nowhere

def Expr.bareList : List Expr → List Expr
  | [] => []
  | e :: es => e.bare :: Expr.bareList es

def Object.bare : Object → Object
  | ⟨c, fields, methods⟩ => ⟨c.map Ident.bare, Field.bareList fields, Method.bareList methods⟩

def Field.bareList : List Field → List Field
  | [] => []
  | ⟨_, x, value⟩ :: fs => ⟨.nowhere, x.bare, value.bare⟩ :: Field.bareList fs

def Method.bareList : List Method → List Method
  | [] => []
  | ⟨_, m, ps, body⟩ :: ms =>
    ⟨.nowhere, m.bare, ps.map Param.bare, body.bare⟩ :: Method.bareList ms

/-- The formula without its places. -/
def Formula.bare : Formula → Formula
  | .int _ n => .int .nowhere n
  | .bool _ b => .bool .nowhere b
  | .lookup _ x => .lookup .nowhere x.bare
  | .paren _ p => .paren .nowhere p.bare
  | .quant _ q ps p => .quant .nowhere q (ps.map Param.bare) p.bare
  | .unary _ op p => .unary .nowhere op p.bare
  | .binary _ op p q => .binary .nowhere op p.bare q.bare
  | .call _ f args => .call .nowhere f.bare (Formula.bareList args)
  | .index _ p q => .index .nowhere p.bare q.bare
  | .update _ p q r => .update .nowhere p.bare q.bare r.bare
  | .env _ cs => .env .nowhere (Expr.bareList cs)
  | .sameObject _ a b => .sameObject .nowhere a.bare b.bare
  | .independence _ h p q => .independence .nowhere h.bare p.bare q.bare
  | .objectIs _ o c => .objectIs .nowhere o.bare c.bare
  | .field _ o x => .field .nowhere o.bare x.bare
  | .frameAll _ => .frameAll .nowhere
  | .frame _ p q => .frame .nowhere p.bare q.bare
  | .frameHeap _ h k p q => .frameHeap .nowhere h.bare k.bare p.bare q.bare
  | .fieldsEqual _ => .fieldsEqual .nowhere
  | .fieldsEqualExcept _ xs => .fieldsEqualExcept .nowhere (xs.map Ident.bare)

def Formula.bareList : List Formula → List Formula
  | [] => []
  | p :: ps => p.bare :: Formula.bareList ps

def ObjectTerm.bare : ObjectTerm → ObjectTerm
  | .side s => .side s
  | .inHeap h p => .inHeap h.bare p.bare

def HeapTerm.bare : HeapTerm → HeapTerm
  | .side s => .side s
  | .inHeap h p => .inHeap h.bare p.bare

end

/-! ## Lists -/

theorem Expr.bareList_eq (es : List Expr) : bareList es = es.map bare := by
  induction es with
  | nil => rfl
  | cons e es ih => rw [bareList, ih, List.map_cons]

theorem Field.bareList_eq (fs : List Field) :
    bareList fs = fs.map fun f => ⟨.nowhere, f.name.bare, f.value.bare⟩ := by
  induction fs with
  | nil => rfl
  | cons f fs ih =>
    obtain ⟨s, x, value⟩ := f
    rw [bareList, ih, List.map_cons]

theorem Method.bareList_eq (ms : List Method) :
    bareList ms =
      ms.map fun m => ⟨.nowhere, m.name.bare, m.params.map Param.bare, m.body.bare⟩ := by
  induction ms with
  | nil => rfl
  | cons m ms ih =>
    obtain ⟨s, x, ps, body⟩ := m
    rw [bareList, ih, List.map_cons]

theorem Formula.bareList_eq (ps : List Formula) : bareList ps = ps.map bare := by
  induction ps with
  | nil => rfl
  | cons p ps ih => rw [bareList, ih, List.map_cons]

/-! ## Bare terms are bare -/

@[simp] theorem Ident.bare_bare (x : Ident) : x.bare.bare = x.bare := rfl

@[simp] theorem Param.bare_bare (p : Param) : p.bare.bare = p.bare := rfl

@[simp] theorem ClassRef.bare_bare (c : ClassRef) : c.bare.bare = c.bare := by
  cases c <;> rfl

section
attribute [local simp] Expr.bare Expr.bareList Object.bare Field.bareList Method.bareList Formula.bare
  Formula.bareList ObjectTerm.bare HeapTerm.bare

@[simp] theorem Formula.bare_bare (p : Formula) : p.bare.bare = p.bare := by
  -- one motive for each kind of term, and for each kind of list
  apply @Formula.rec (fun e => e.bare.bare = e.bare) (fun o => o.bare.bare = o.bare)
    (fun f => f.value.bare.bare = f.value.bare) (fun m => m.body.bare.bare = m.body.bare)
    (fun p => p.bare.bare = p.bare) (fun o => o.bare.bare = o.bare) (fun h => h.bare.bare = h.bare)
    (fun es => Expr.bareList (Expr.bareList es) = Expr.bareList es)
    (fun fs => Field.bareList (Field.bareList fs) = Field.bareList fs)
    (fun ms => Method.bareList (Method.bareList ms) = Method.bareList ms)
    (fun ps => bareList (bareList ps) = bareList ps)
  all_goals
    intros
    try casesm* Field, Method
    simp_all [Function.comp_def]

/-! ## Layouts -/

theorem Layout.idents_bare (xs : List Ident) : idents (xs.map Ident.bare) = idents xs := by
  simp [idents, Function.comp_def]

theorem Layout.classHints_bare (cs : List Ident) :
    classHints (cs.map Ident.bare) = classHints cs := by
  cases cs with
  | nil => rfl
  | cons c cs =>
    have := idents_bare (c :: cs)
    simpa [classHints] using this

theorem Layout.formals_bare (ps : List Param) :
    formals (ps.map Param.bare) = formals ps := by
  simp [formals, Function.comp_def, Param.bare]

theorem Method.isEmpty_bareList (ms : List Method) : (bareList ms).isEmpty = ms.isEmpty := by
  rw [bareList_eq, List.isEmpty_map]

attribute [local simp] ClassRef.bare Expr.layout Expr.layouts Expr.contextLayout Object.layout
  Field.layouts Method.layout Method.layouts Formula.layout Formula.layouts ObjectTerm.layout
  HeapTerm.layout Layout.label Layout.classHints_bare Layout.formals_bare Layout.idents_bare
  Method.isEmpty_bareList

theorem Expr.layout_bare (e : Expr) :
    ∀ depth position, e.bare.layout depth position = e.layout depth position := by
  apply @Expr.rec (fun e => ∀ depth position, e.bare.layout depth position = e.layout depth position)
    (fun o => ∀ depth, o.bare.layout depth = o.layout depth)
    (fun f => ∀ depth position, f.value.bare.layout depth position = f.value.layout depth position)
    (fun m => ∀ depth position, m.body.bare.layout depth position = m.body.layout depth position)
    (fun p => ∀ least, p.bare.layout least = p.layout least) (fun o => o.bare.layout = o.layout)
    (fun h => h.bare.layout = h.layout)
    (fun es => (∀ depth, layouts depth (bareList es) = layouts depth es) ∧
      contextLayout (bareList es) = contextLayout es)
    (fun fs => ∀ depth, Field.layouts depth (Field.bareList fs) = Field.layouts depth fs)
    (fun ms => ∀ depth, Method.layouts depth (Method.bareList ms) = Method.layouts depth ms)
    (fun ps => Formula.layouts (Formula.bareList ps) = Formula.layouts ps)
  all_goals
    intros
    try casesm* Field, Method, Option Ident, Position, UnaryOp, FormulaUnaryOp, ClassRef
    all_goals simp_all

theorem Formula.layout_bare (p : Formula) : p.bare.layout .lowest = p.layout .lowest := by
  simpa [Layout.parens] using (Expr.assert .nowhere p).layout_bare 0 .body

theorem Expr.contextLayout_bare (cs : List Expr) :
    contextLayout (bareList cs) = contextLayout cs := by
  simpa using (Formula.env .nowhere cs).layout_bare

end

/-- **The text of an expression does not depend on places.** -/
theorem Expr.text_bare (e : Expr) : e.bare.text = e.text := by
  rw [text, text, layout_bare]

end GameHop
