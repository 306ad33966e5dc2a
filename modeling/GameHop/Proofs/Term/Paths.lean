import GameHop.Proofs.Term.Children
import GameHop.Term.Names

/-!
Paths in expressions.
-/

namespace GameHop

/-! ## Laws -/

theorem Expr.at?_append (e : Expr) (p q : List Nat) :
    e.at? (p ++ q) = (e.at? p).bind (·.at? q) := by
  induction p generalizing e with
  | nil => rfl
  | cons i p ih =>
    simp only [List.cons_append, at?]
    cases e.children[i]? with
    | none => rfl
    | some c => exact ih c

theorem Expr.replaceAt?_nil (e r : Expr) : e.replaceAt? [] r = some r := by
  rw [replaceAt?]

theorem Expr.replaceAt?_cons (e r : Expr) (i : Nat) (p : List Nat) :
    e.replaceAt? (i :: p) r = e.children[i]?.bind fun c =>
      (c.replaceAt? p r).map fun c' => e.withChildren (e.children.set i c') := by
  rw [replaceAt?]
  cases e.children[i]? with
  | none => rfl
  | some c => cases h : c.replaceAt? p r <;> simp [h]

theorem Expr.replaceAt?_append (e r : Expr) (p q : List Nat) :
    e.replaceAt? (p ++ q) r =
      (e.at? p).bind fun c => (c.replaceAt? q r).bind fun c' => e.replaceAt? p c' := by
  induction p generalizing e with
  | nil => simp [at?, replaceAt?_nil]
  | cons i p ih =>
    rw [List.cons_append, replaceAt?_cons, at?]
    cases hc : e.children[i]? with
    | none => rfl
    | some c =>
      simp only [Option.bind_some]
      rw [ih c]
      cases c.at? p with
      | none => rfl
      | some d =>
        cases hd : d.replaceAt? q r <;> simp [hd, replaceAt?_cons, hc]

/-! ## Focuses -/

/-- Whether `plug` puts expressions at the path into one and the same program. -/
structure Focuses (plug : Expr → Expr) (path : List Nat) : Prop where
  at?_plug : ∀ e, (plug e).at? path = some e
  replaceAt?_plug : ∀ e r, (plug e).replaceAt? path r = some (plug r)

theorem Focuses.root : Focuses id [] :=
  ⟨fun _ => rfl, fun e r => e.replaceAt?_nil r⟩

theorem Focuses.comp {plug inner : Expr → Expr} {path path' : List Nat} (h : Focuses plug path)
    (h' : Focuses inner path') : Focuses (fun e => plug (inner e)) (path ++ path') where
  at?_plug e := by
    rw [Expr.at?_append, h.at?_plug, Option.bind_some, h'.at?_plug]
  replaceAt?_plug e r := by
    rw [Expr.replaceAt?_append, h.at?_plug, Option.bind_some, h'.replaceAt?_plug, Option.bind_some,
      h.replaceAt?_plug]

/-- The focus on a child of a node. -/
theorem Expr.focuses_child (e : Expr) (before after : List Expr)
    (h : before.length + 1 + after.length = e.children.length) :
    Focuses (fun c => e.withChildren (before ++ c :: after)) [before.length] := by
  have hlength : ∀ c, (before ++ c :: after).length = e.children.length := by
    intro c
    simp only [List.length_append, List.length_cons]
    omega
  have hchildren : ∀ c, (e.withChildren (before ++ c :: after)).children = before ++ c :: after :=
    fun c => e.children_withChildren _ (hlength c)
  have hget : ∀ c, (before ++ c :: after)[before.length]? = some c := by simp
  constructor
  · intro c
    simp only [at?, hchildren, hget, Option.bind_some]
  · intro c r
    have hset : (before ++ c :: after).set before.length r = before ++ r :: after := by simp
    simp only [replaceAt?_cons, hchildren, hget, Option.bind_some, replaceAt?_nil,
      Option.map_some, hset]
    rw [withChildren_withChildren _ _ _ (hlength c) (hlength r)]

/-! ## Order -/

/-- Whether a bottom-up traversal from left to right meets the first path before the second: paths
    below a node come before the node, and after those below the nodes to its left. -/
def Path.Before : List Nat → List Nat → Prop
  | [], _ => False
  | _ :: _, [] => True
  | i :: p, j :: q => i < j ∨ (i = j ∧ Path.Before p q)

theorem Path.before_append (path p q : List Nat) :
    Path.Before (path ++ p) (path ++ q) ↔ Path.Before p q := by
  induction path with
  | nil => rfl
  | cons i path ih => simp [Path.Before, ih]

/-- A node that comes later is neither the same nor below. -/
theorem Path.Before.not_isPrefix {p q : List Nat} (h : Path.Before p q) : ¬ p <+: q := by
  rintro ⟨r, rfl⟩
  have : Path.Before (p ++ []) (p ++ r) := by rwa [List.append_nil]
  rw [before_append] at this
  exact this

/-! ## Bound names and methods -/

/-- The names that are bound at a child of a node and not at the node: the variables that the children
    before it assign; in an object also the fields before it, and the parameters of its method. -/
def Expr.boundBefore : Expr → Nat → List String
  | .new _ o, i =>
    (o.fields.take i).flatMap (fun f => f.value.assigned ++ [f.name.name]) ++
      if i < o.fields.length then []
      else (o.methods[i - o.fields.length]?.map fun m => m.params.map (·.name.name)).getD []
  | e, i => (e.children.take i).flatMap Expr.assigned

/-- The names that are bound at the node at a path when its children have been left. -/
def Expr.boundAt (e : Expr) : List Nat → List String
  | [] => e.assigned
  | i :: path => e.boundBefore i ++ (e.children[i]?.map fun c => c.boundAt path).getD []

/-- Whether the child is the body of a method. -/
def Expr.isBody : Expr → Nat → Bool
  | .new _ o, i => o.fields.length ≤ i
  | _, _ => false

/-- Whether the path enters the body of a method. -/
def Expr.entersMethod (e : Expr) : List Nat → Bool
  | [] => false
  | i :: path => e.isBody i || (e.children[i]?.map fun c => c.entersMethod path).getD false

end GameHop
