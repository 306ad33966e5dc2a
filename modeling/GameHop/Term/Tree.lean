import GameHop.Term.Basic

/-!
Expressions as trees. The children of a node are its direct subexpressions in the order of
evaluation: for an object literal first the initial values of its fields, then the bodies of its
methods.
-/

namespace GameHop

namespace Expr

def children : Expr → List Expr
  | int _ _ | bool _ _ | lookup _ _ | assert _ _ | assume _ _ | ellipsis _ | hole _ => []
  | paren _ _ e | unary _ _ e | assign _ _ e => [e]
  | seq _ a b | binary _ _ a b | index _ a b => [a, b]
  | ternary _ a b c | update _ a b c => [a, b, c]
  | call _ _ args => args
  | invoke _ target _ _ args => target :: args
  | new _ o => o.fields.map (·.value) ++ o.methods.map (·.body)

end Expr

/-- The fields with other initial values, as far as there are some. -/
def Field.withValues (fs : List Field) (values : List Expr) : List Field :=
  List.zipWith (fun f v => { f with value := v }) fs values

/-- The methods with other bodies, as far as there are some. -/
def Method.withBodies (ms : List Method) (bodies : List Expr) : List Method :=
  List.zipWith (fun m b => { m with body := b }) ms bodies

namespace Expr

/-- The same node with other children. A list of another length changes nothing. -/
def withChildren : Expr → List Expr → Expr
  | paren s l _, [e] => paren s l e
  | unary s op _, [e] => unary s op e
  | assign s x _, [e] => assign s x e
  | seq s _ _, [a, b] => seq s a b
  | binary s op _ _, [a, b] => binary s op a b
  | index s _ _, [a, b] => index s a b
  | ternary s _ _ _, [a, b, c] => ternary s a b c
  | update s _ _ _, [a, b, c] => update s a b c
  | call s f _, args => call s f args
  | invoke s _ m cs _, target :: args => invoke s target m cs args
  | new s o, es =>
    new s { o with
      fields := Field.withValues o.fields es
      methods := Method.withBodies o.methods (es.drop o.fields.length) }
  | e, _ => e

/-! ## Paths -/

def at? (e : Expr) : List Nat → Option Expr
  | [] => some e
  | i :: path => e.children[i]?.bind (·.at? path)

/-- The tree with another subtree at a path. -/
def replaceAt? (e : Expr) (path : List Nat) (replacement : Expr) : Option Expr :=
  match path with
  | [] => some replacement
  | i :: path => do
    let child ← e.children[i]?
    let child' ← child.replaceAt? path replacement
    return e.withChildren (e.children.set i child')
termination_by path.length

/-- The tree with a hole at a path. -/
def holeAt? (e : Expr) (path : List Nat) : Option Expr :=
  e.replaceAt? path (.hole .nowhere)

/-! ## Laws -/

end Expr

private theorem withValues_self (fs : List Field) (rest : List Expr) :
    Field.withValues fs (fs.map (·.value) ++ rest) = fs := by
  induction fs with
  | nil => simp [Field.withValues]
  | cons f fs ih =>
    obtain ⟨s, x, v⟩ := f
    simpa [Field.withValues] using ih

private theorem withBodies_self (ms : List Method) :
    Method.withBodies ms (ms.map (·.body)) = ms := by
  induction ms with
  | nil => simp [Method.withBodies]
  | cons m ms ih =>
    obtain ⟨s, x, ps, b⟩ := m
    simpa [Method.withBodies] using ih

theorem Expr.withChildren_children (e : Expr) : e.withChildren e.children = e := by
  cases e with
  | new s o =>
    obtain ⟨className, fields, methods⟩ := o
    have h : (fields.map (·.value) ++ methods.map (·.body)).drop fields.length =
        methods.map (·.body) := by simp
    simp only [Expr.children, Expr.withChildren, withValues_self, h, withBodies_self]
  | _ => rfl

theorem Expr.replaceAt_isSome (e r : Expr) (path : List Nat) :
    (e.replaceAt? path r).isSome = (e.at? path).isSome := by
  induction path generalizing e with
  | nil => simp [Expr.replaceAt?, Expr.at?]
  | cons i path ih =>
    simp only [Expr.replaceAt?, Expr.at?, Option.bind_eq_bind]
    cases h : e.children[i]? with
    | none => rfl
    | some c =>
      have hc := ih c
      simp only [Option.bind_some]
      cases h' : c.replaceAt? path r <;> simp_all

end GameHop
