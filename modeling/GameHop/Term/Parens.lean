import GameHop.Term.Bound

/-!
Formulas and bounds without their parentheses. Grouping is in the tree; a printer puts back the
parentheses that the grouping needs.
-/

namespace GameHop

mutual

/-- Drops the parentheses around operands, map keys, arguments and scopes of quantifiers. What heaps,
    objects, frames and contexts hold stays as it is. -/
def Formula.stripParens : Formula → Formula
  | .paren _ inner => inner.stripParens
  | .quant s q ps body => .quant s q ps body.stripParens
  | .unary s op inner => .unary s op inner.stripParens
  | .binary s op left right => .binary s op left.stripParens right.stripParens
  | .call s f args => .call s f (Formula.stripParensList args)
  | .index s map key => .index s map.stripParens key.stripParens
  | .update s map key value => .update s map.stripParens key.stripParens value.stripParens
  | p => p

def Formula.stripParensList : List Formula → List Formula
  | [] => []
  | p :: ps => p.stripParens :: Formula.stripParensList ps

end

mutual

/-- Drops the parentheses around operands and arguments. -/
def Bound.stripParens : Bound → Bound
  | .paren _ inner => inner.stripParens
  | .call s f args => .call s f (Bound.stripParensList args)
  | .binary s op left right => .binary s op left.stripParens right.stripParens
  | b => b

def Bound.stripParensList : List Bound → List Bound
  | [] => []
  | b :: bs => b.stripParens :: Bound.stripParensList bs

end

end GameHop
