import GameHop.Parser.Development
import GameHop.Printer.Development
import GameHop.Proofs.Reading.Mirrors

/-!
How formulas begin. A clause of a bisimulation is taken to begin with a list of scopes if its first
two tokens look like one.
-/

namespace GameHop

/-- The function whose call the text of a formula begins with. -/
def Formula.headCall? : Formula → Option String
  | .call _ f _ => some f.name
  | .binary _ _ p _ | .index _ p _ | .update _ p _ _ => p.headCall?
  | _ => none

namespace Parser

/-- Whether the tokens begin with the call that the formula begins with. -/
def BeginsWithCall (ks : List TokenKind) (p : Formula) : Prop :=
  ∀ f ∈ p.headCall?, ∃ rs, ks = .ident f :: .sym .lParen :: rs

theorem beginsWithCall_of_none {p : Formula} (h : p.headCall? = none) (ks : List TokenKind) :
    BeginsWithCall ks p := by
  intro f hf
  rw [h] at hf
  cases hf

/-! ## Scopes -/

/-- Whether the tokens look as if a list of scopes came next. -/
def startsScope : List TokenKind → Bool
  | .ident x :: .sym .comma :: _ | .ident x :: .sym .colon :: _ => x == "invariant"
  | .ident x :: .sym .lParen :: _ => x == "checkpoint"
  | _ => false

theorem run_atBisimScope (i : Input) :
    StateT.run atBisimScope i = .ok (startsScope i.kinds, i) := by
  obtain ⟨prev, _ | ⟨⟨k, s⟩, _ | ⟨⟨k', s'⟩, rest⟩⟩⟩ := i
  · rfl
  · cases k <;> rfl
  · cases k with
    | ident x =>
      cases k' with
      | sym y => cases y <;> rfl
      | _ => rfl
    | _ => rfl

/-- Whether a token does not make a name before it the beginning of a scope or of a call. -/
def FollowsName (next : Option TokenKind) : Prop :=
  next ≠ some (.sym .comma) ∧ next ≠ some (.sym .colon) ∧ next ≠ some (.sym .lParen)

theorem followsName_op (op : FormulaOp) : FollowsName (some (.sym op.sym)) := by
  rcases op with op | op | op <;> cases op <;> simp [FollowsName, FormulaOp.sym] <;> decide

theorem startsScope_of_second {x : String} {ks : List TokenKind} (h : FollowsName ks.head?) :
    startsScope (.ident x :: ks) = false := by
  obtain ⟨hcomma, hcolon, hparen⟩ := h
  unfold startsScope
  split <;> simp_all

theorem startsScope_call {x : String} (hx : x ≠ "checkpoint") (ks : List TokenKind) :
    startsScope (.ident x :: .sym .lParen :: ks) = false :=
  beq_false_of_ne hx

theorem startsScope_place {l : Layout} {rs : List TokenKind}
    (h : startsScope (l.kinds ++ rs) = false) (least prec : FormulaPrec) :
    startsScope ((least.place prec l).kinds ++ rs) = false := by
  unfold FormulaPrec.place Layout.parensIf
  split
  · rfl
  · exact h

end Parser

open GameHop.Parser

theorem ObjectTerm.startsScope_layout (o : ObjectTerm) {rs : List TokenKind}
    (hrs : FollowsName rs.head?) : startsScope (o.layout.kinds ++ rs) = false := by
  cases o with
  | side s => exact startsScope_of_second hrs
  | inHeap h p => exact startsScope_call (by decide) _

/-- **A formula that does not begin with a call of `checkpoint` does not look like a scope.** -/
theorem Formula.startsScope_layout : ∀ (p : Formula), p.headCall? ≠ some "checkpoint" →
    ∀ (least : FormulaPrec) (rs : List TokenKind), FollowsName rs.head? →
      startsScope ((p.layout least).kinds ++ rs) = false
  | .int _ _, _, _, _, _ | .bool _ _, _, _, _, _ | .paren _ _, _, _, _, _
  | .unary _ .tobits _, _, _, _, _ | .unary _ .isBits _, _, _, _, _ | .env _ _, _, _, _, _
  | .independence _ _ _ _, _, _, _, _ | .frameAll _, _, _, _, _ | .frame _ _ _, _, _, _, _
  | .frameHeap _ _ _ _ _, _, _, _, _ | .fieldsEqual _, _, _, _, _
  | .fieldsEqualExcept _ _, _, _, _, _ => rfl
  | .quant _ _ _ _, _, least, _, _ => startsScope_place rfl least .lowest
  | .unary _ .not _, _, least, _, _ => startsScope_place rfl least .not
  | .lookup _ _, _, _, _, hrs => startsScope_of_second hrs
  | .binary _ op p q, hp, least, rs, _ => by
    refine startsScope_place ?_ least op.precs.1
    rw [Layout.kinds_infixed, List.append_assoc]
    exact p.startsScope_layout hp _ _ (followsName_op op)
  | .call _ f _, hf, _, _, _ => startsScope_call (fun h => hf (congrArg some h)) _
  | .index _ p q, hp, _, rs, _ => by
    simp only [layout, Layout.kinds_append, Layout.kinds_sym, List.append_assoc]
    exact p.startsScope_layout hp _ _ (by simp [FollowsName])
  | .update _ p q r, hp, _, rs, _ => by
    simp only [layout, Layout.kinds_append, Layout.kinds_sym, List.append_assoc]
    exact p.startsScope_layout hp _ _ (by simp [FollowsName])
  | .sameObject _ _ _, _, _, _, _ => startsScope_call (by decide) _
  | .objectIs _ o _, _, _, rs, _ => by
    simp only [layout, Layout.kinds_append, Layout.kinds_space, Layout.kinds_word,
      List.append_assoc, List.nil_append]
    exact o.startsScope_layout (by simp [FollowsName])
  | .field _ o _, _, _, rs, _ => by
    simp only [layout, Layout.kinds_append, Layout.kinds_sym, List.append_assoc]
    exact o.startsScope_layout (by simp [FollowsName])

end GameHop
