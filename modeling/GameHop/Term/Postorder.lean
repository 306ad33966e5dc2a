import GameHop.Term.Tree

/-!
The nodes of an expression in the order in which a bottom-up traversal meets them: each node after
its children, and children from left to right.
-/

namespace GameHop

mutual

/-- All nodes, each after its children. -/
def Expr.postorder : Expr → List Expr
  | .paren s l e => e.postorder ++ [.paren s l e]
  | .seq s a b => a.postorder ++ b.postorder ++ [.seq s a b]
  | .assign s x e => e.postorder ++ [.assign s x e]
  | .ternary s a b c => a.postorder ++ b.postorder ++ c.postorder ++ [.ternary s a b c]
  | .unary s op e => e.postorder ++ [.unary s op e]
  | .binary s op a b => a.postorder ++ b.postorder ++ [.binary s op a b]
  | .call s f args => Expr.postorderList args ++ [.call s f args]
  | .invoke s target m cs args =>
    target.postorder ++ Expr.postorderList args ++ [.invoke s target m cs args]
  | .new s ⟨className, fields, methods⟩ =>
    Expr.postorderFields fields ++ Expr.postorderMethods methods ++
      [.new s ⟨className, fields, methods⟩]
  | .index s a b => a.postorder ++ b.postorder ++ [.index s a b]
  | .update s a b c => a.postorder ++ b.postorder ++ c.postorder ++ [.update s a b c]
  | .int s n => [.int s n]
  | .bool s b => [.bool s b]
  | .lookup s x => [.lookup s x]
  | .assert s p => [.assert s p]
  | .assume s p => [.assume s p]
  | .ellipsis s => [.ellipsis s]
  | .hole s => [.hole s]

def Expr.postorderList : List Expr → List Expr
  | [] => []
  | e :: es => e.postorder ++ Expr.postorderList es

def Expr.postorderFields : List Field → List Expr
  | [] => []
  | ⟨_, _, value⟩ :: fs => value.postorder ++ Expr.postorderFields fs

def Expr.postorderMethods : List Method → List Expr
  | [] => []
  | ⟨_, _, _, body⟩ :: ms => body.postorder ++ Expr.postorderMethods ms

end

theorem Expr.postorderList_eq (es : List Expr) :
    Expr.postorderList es = es.flatMap Expr.postorder := by
  induction es with
  | nil => rfl
  | cons e es ih => simp [Expr.postorderList, ih]

theorem Expr.postorderFields_eq (fs : List Field) :
    Expr.postorderFields fs = (fs.map (·.value)).flatMap Expr.postorder := by
  induction fs with
  | nil => rfl
  | cons f fs ih =>
    obtain ⟨s, x, v⟩ := f
    simp [Expr.postorderFields, ih]

theorem Expr.postorderMethods_eq (ms : List Method) :
    Expr.postorderMethods ms = (ms.map (·.body)).flatMap Expr.postorder := by
  induction ms with
  | nil => rfl
  | cons m ms ih =>
    obtain ⟨s, x, ps, b⟩ := m
    simp [Expr.postorderMethods, ih]

/-- The nodes are those of the children, and then the root. -/
theorem Expr.postorder_eq (e : Expr) : e.postorder = e.children.flatMap Expr.postorder ++ [e] := by
  cases e with
  | new s o =>
    obtain ⟨className, fields, methods⟩ := o
    simp [Expr.postorder, Expr.children, Expr.postorderFields_eq, Expr.postorderMethods_eq]
  | _ => simp [Expr.postorder, Expr.children, Expr.postorderList_eq]

end GameHop
