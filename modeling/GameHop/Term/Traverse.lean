import GameHop.Term.Basic

/-!
Bottom-up traversals. `bottomUpM` visits every node of an expression after its children, from left
to right, and puts what the visit gives in the place of the node.
-/

namespace GameHop

mutual

/-- Visits each node after its children; enters methods if `enter` is set. -/
def Expr.bottomUpM {m : Type → Type} [Monad m] (enter : Bool) (visit : Expr → m Expr) :
    Expr → m Expr
  | .paren s l e => do visit (.paren s l (← e.bottomUpM enter visit))
  | .seq s a b => do
    let a ← a.bottomUpM enter visit
    let b ← b.bottomUpM enter visit
    visit (.seq s a b)
  | .assign s x e => do visit (.assign s x (← e.bottomUpM enter visit))
  | .ternary s a b c => do
    let a ← a.bottomUpM enter visit
    let b ← b.bottomUpM enter visit
    let c ← c.bottomUpM enter visit
    visit (.ternary s a b c)
  | .unary s op e => do visit (.unary s op (← e.bottomUpM enter visit))
  | .binary s op a b => do
    let a ← a.bottomUpM enter visit
    let b ← b.bottomUpM enter visit
    visit (.binary s op a b)
  | .call s f args => do visit (.call s f (← Expr.bottomUpListM enter visit args))
  | .invoke s target f cs args => do
    let target ← target.bottomUpM enter visit
    let args ← Expr.bottomUpListM enter visit args
    visit (.invoke s target f cs args)
  | .new s ⟨className, fields, methods⟩ => do
    let fields ← Expr.bottomUpFieldsM enter visit fields
    let methods ← if enter then Expr.bottomUpMethodsM enter visit methods else pure methods
    visit (.new s ⟨className, fields, methods⟩)
  | .index s a b => do
    let a ← a.bottomUpM enter visit
    let b ← b.bottomUpM enter visit
    visit (.index s a b)
  | .update s a b c => do
    let a ← a.bottomUpM enter visit
    let b ← b.bottomUpM enter visit
    let c ← c.bottomUpM enter visit
    visit (.update s a b c)
  | .int s n => visit (.int s n)
  | .bool s b => visit (.bool s b)
  | .lookup s x => visit (.lookup s x)
  | .assert s p => visit (.assert s p)
  | .assume s p => visit (.assume s p)
  | .ellipsis s => visit (.ellipsis s)
  | .hole s => visit (.hole s)

def Expr.bottomUpListM {m : Type → Type} [Monad m] (enter : Bool) (visit : Expr → m Expr) :
    List Expr → m (List Expr)
  | [] => pure []
  | e :: es => do
    let e ← e.bottomUpM enter visit
    let es ← Expr.bottomUpListM enter visit es
    return e :: es

def Expr.bottomUpFieldsM {m : Type → Type} [Monad m] (enter : Bool) (visit : Expr → m Expr) :
    List Field → m (List Field)
  | [] => pure []
  | ⟨s, x, value⟩ :: fs => do
    let value ← value.bottomUpM enter visit
    let fs ← Expr.bottomUpFieldsM enter visit fs
    return ⟨s, x, value⟩ :: fs

def Expr.bottomUpMethodsM {m : Type → Type} [Monad m] (enter : Bool) (visit : Expr → m Expr) :
    List Method → m (List Method)
  | [] => pure []
  | ⟨s, x, ps, body⟩ :: ms => do
    let body ← body.bottomUpM enter visit
    let ms ← Expr.bottomUpMethodsM enter visit ms
    return ⟨s, x, ps, body⟩ :: ms

end

/-- Replaces each node by what `visit` makes of it, after its children. -/
def Expr.bottomUp (enter : Bool) (visit : Expr → Expr) (e : Expr) : Expr :=
  Id.run (e.bottomUpM enter fun e => pure (visit e))

end GameHop
