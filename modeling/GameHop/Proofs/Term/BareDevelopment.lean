import GameHop.Printer.Development
import GameHop.Proofs.Reading.AsRead
import GameHop.Proofs.Reading.Layouts

/-!
Developments without places. The text of a development is that of its bare form.
-/

namespace GameHop

/-! ## Bare forms -/

def Import.bare (i : Import) : Import :=
  ⟨.nowhere, i.path.map Ident.bare⟩

def Constant.bare (c : Constant) : Constant :=
  ⟨.nowhere, c.name.bare, c.ty⟩

def Function.bare (f : Function) : Function :=
  ⟨.nowhere, f.name.bare, f.isPure, f.isStatic, f.params.map Param.bare, f.result,
    f.body.map Expr.bare⟩

def Postulate.bare (p : Postulate) : Postulate :=
  ⟨.nowhere, p.claim.bare⟩

def Statement.bare (s : Statement) : Statement :=
  ⟨.nowhere, s.name.bare, s.params.map Param.bare, s.left.bare, s.bound.map Bound.bare,
    s.right.bare⟩

def BisimScope.bare : BisimScope → BisimScope
  | .invariant => .invariant
  | .checkpoint left right => .checkpoint left.bare right.bare

def BisimClause.bare (c : BisimClause) : BisimClause :=
  ⟨.nowhere, c.scopes.map BisimScope.bare, c.claim.bare⟩

def Replacement.bare : Replacement → Replacement
  | .fields _ fs => .fields .nowhere (fs.map Field.bare)
  | .method m => .method m.bare

def Target.bare : Target → Target
  | .expr e => .expr e.bare
  | .changed changes => .changed (changes.map Replacement.bare)

mutual

/-- The step without its places. -/
def Tactic.bare : Tactic → Tactic
  | .subgoal _ bound target proof =>
    .subgoal .nowhere (bound.map Bound.bare) target.bare (Tactic.bareList proof)
  | .symmetry _ => .symmetry .nowhere
  | .giveUp _ => .giveUp .nowhere
  | .trivial _ => .trivial .nowhere
  | .auto _ => .auto .nowhere
  | .bisim _ clauses => .bisim .nowhere (clauses.map (List.map BisimClause.bare))
  | .rewrite _ fact => .rewrite .nowhere fact.bare
  | .hybrid _ fact start stop => .hybrid .nowhere fact.bare start.bare stop.bare
  | .unfold _ functions => .unfold .nowhere (functions.map Ident.bare)
  | .inline _ names => .inline .nowhere (names.map Ident.bare)

def Tactic.bareList : List Tactic → List Tactic
  | [] => []
  | t :: ts => t.bare :: Tactic.bareList ts

end

def Theorem.bare (t : Theorem) : Theorem :=
  ⟨.nowhere, t.statement.bare, Tactic.bareList t.proof⟩

def Item.bare : Item → Item
  | .imported i => .imported i.bare
  | .constant c => .constant c.bare
  | .function f => .function f.bare
  | .postulate p => .postulate p.bare
  | .proved t => .proved t.bare
  | .assumed s => .assumed s.bare

/-- The development without its places. -/
def Development.bare (d : Development) : Development :=
  d.map Item.bare

theorem Tactic.bareList_eq (ts : List Tactic) : bareList ts = ts.map bare := by
  induction ts with
  | nil => rfl
  | cons t ts ih => rw [bareList, ih, List.map_cons]

/-! ## Layouts -/

theorem Layout.distance_bare (b : Option Bound) :
    distance (b.map Bound.bare) = distance b := by
  cases b with
  | none => rfl
  | some b => simp only [Option.map_some, distance, Bound.layout_bare]

theorem Statement.layout_bare (s : Statement) : s.bare.layout = s.layout := by
  simp only [layout, bare, Ident.name_bare, Layout.formals_bare,
    Layout.distance_bare, Expr.layout_bare]

theorem BisimScope.layout_bare (s : BisimScope) : s.bare.layout = s.layout := by
  cases s <;> rfl

theorem BisimClause.layout_bare (c : BisimClause) : c.bare.layout = c.layout := by
  simp only [layout, bare, List.isEmpty_map, List.map_map,
    Function.comp_def, BisimScope.layout_bare, Formula.layout_bare]

theorem Field.layouts_map_bare (depth : Nat) (fs : List Field) :
    layouts depth (fs.map bare) = layouts depth fs := by
  simp [layouts_eq, bare, Function.comp_def, Expr.layout_bare]

theorem Method.layout_bare (depth : Nat) (m : Method) : m.bare.layout depth = m.layout depth := by
  obtain ⟨s, x, ps, body⟩ := m
  simp only [layout, bare, Ident.name_bare, Layout.formals_bare, Expr.layout_bare]

theorem Replacement.layout_bare (depth : Nat) (r : Replacement) :
    r.bare.layout depth = r.layout depth := by
  cases r with
  | fields s fs => simp only [layout, bare, Field.layouts_map_bare]
  | method m => exact m.layout_bare depth

theorem Target.layout_bare (depth : Nat) (t : Target) : t.bare.layout depth = t.layout depth := by
  cases t with
  | expr e => exact e.layout_bare depth _
  | changed changes =>
    simp only [layout, bare, List.map_map, Function.comp_def,
      Replacement.layout_bare]

theorem Layout.named_bare (k : Keyword) (xs : List Ident) :
    named k (xs.map Ident.bare) = named k xs := by
  cases xs with
  | nil => rfl
  | cons x xs =>
    have hnames := idents_bare (x :: xs)
    rw [List.map_cons] at hnames ⊢
    simp only [named, hnames]

mutual

theorem Tactic.layout_bare : ∀ (t : Tactic) (depth : Nat), t.bare.layout depth = t.layout depth
  | .subgoal _ _ _ proof, depth => by
    simp only [layout, bare, Layout.distance_bare, Target.layout_bare,
      layouts_bare proof]
  | .symmetry _, _ | .giveUp _, _ | .trivial _, _ | .auto _, _ | .bisim _ none, _
  | .rewrite _ _, _ => rfl
  | .bisim _ (some clauses), depth => by
    simp only [layout, bare, Option.map_some, List.map_map, Function.comp_def,
      BisimClause.layout_bare]
  | .hybrid _ _ _ _, _ => by
    simp only [layout, bare, Ident.name_bare, Bound.layout_bare]
  | .unfold _ functions, _ => Layout.named_bare .unfold_ functions
  | .inline _ names, _ => Layout.named_bare .inline_ names

theorem Tactic.layouts_bare : ∀ (ts : List Tactic) (depth : Nat),
    layouts depth (bareList ts) = layouts depth ts
  | [], _ => rfl
  | t :: ts, depth => by
    simp only [layouts, bareList, t.layout_bare, layouts_bare ts]

end

theorem Function.layout_bare (f : Function) : f.bare.layout = f.layout := by
  obtain ⟨s, x, isPure, isStatic, ps, result, body⟩ := f
  have hformals := Layout.formals_bare ps
  cases body with
  | none =>
    simp only [layout, bare, hformals]
    rfl
  | some body =>
    simp only [layout, bare, hformals, Option.map_some, Expr.layout_bare]
    rfl

theorem Layout.dotted_bare (xs : List Ident) :
    dotted (xs.map Ident.bare) = dotted xs := by
  fun_induction dotted xs with
  | case1 => rfl
  | case2 x => rfl
  | case3 x y rest ih => exact congrArg (ident x.name ++ sym .dot ++ ·) ih

theorem Item.layout_bare (i : Item) : i.bare.layout = i.layout := by
  cases i with
  | imported i => simp only [layout, bare, Import.bare, Layout.dotted_bare]
  | constant c => rfl
  | function f => exact f.layout_bare
  | postulate p => simp only [layout, bare, Postulate.bare, Formula.layout_bare]
  | proved t =>
    simp only [layout, bare, Theorem.bare, Statement.layout_bare, Tactic.layouts_bare]
  | assumed s => simp only [layout, bare, Statement.layout_bare]

/-- **Places do not show in the text of a development.** -/
theorem Development.text_bare (d : Development) : d.bare.text = d.text := by
  suffices hlayout : d.bare.layout = d.layout from congrArg Layout.text hlayout
  fun_induction layout d with
  | case1 => rfl
  | case2 i => exact congrArg (· ++ Layout.newline 0) i.layout_bare
  | case3 i j rest ih =>
    simp only [bare, List.map_cons, layout, Item.layout_bare] at ih ⊢
    rw [ih]

end GameHop
