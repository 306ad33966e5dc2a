import GameHop.Program.Draft

/-!
Formulas as boolean terms. A variable of the formula stands for a term of the program: a name that a
quantifier binds stands for itself unless `vars` says otherwise.
-/

namespace GameHop.Program

/-- The two objects that a formula of a bisimulation relates. -/
structure ObjectPair where
  leftHeap : Term
  rightHeap : Term
  leftMemory : Term
  rightMemory : Term
  leftFields : List String
  rightFields : List String

namespace ObjectPair

/-- Both objects between two calls of methods. -/
def current (leftFields rightFields : List String) : ObjectPair :=
  ⟨.name "heap1", .name "heap2", .name "objectMemory1", .name "objectMemory2", leftFields,
    rightFields⟩

/-- Both objects in the states kept under two labels. -/
def atCheckpoints (p : ObjectPair) (left right : String) : ObjectPair :=
  let l := Term.index (.name "checkpoints1") (.name (checkpointId left))
  let r := Term.index (.name "checkpoints2") (.name (checkpointId right))
  ⟨.index l (.name "checkpointHeap"), .index r (.name "checkpointHeap"),
    .index l (.name "checkpointMemory"), .index r (.name "checkpointMemory"),
    p.leftFields, p.rightFields⟩

def heap (p : ObjectPair) : Side → Term
  | .left => p.leftHeap
  | .right => p.rightHeap

def memory (p : ObjectPair) : Side → Term
  | .left => p.leftMemory
  | .right => p.rightMemory

/-- A field of the left object and a field of the right one hold the same value. -/
def fieldsAgree (p : ObjectPair) (left right : String) : Term :=
  .equal (.index p.leftMemory (.name (fieldAttr left)))
    (.index p.rightMemory (.name (fieldAttr right)))

/-- The fields agree position by position. -/
def allFieldsAgree (p : ObjectPair) : Term :=
  match p.leftFields.zip p.rightFields with
  | [] => .bool true
  | pairs => .conj (pairs.map fun (l, r) => p.fieldsAgree l r)

/-- The fields that both objects have, except some. -/
def commonFields (p : ObjectPair) (excluded : List String) : List String :=
  p.leftFields.filter fun f => p.rightFields.contains f && !excluded.contains f

end ObjectPair

/-- What the names of a formula stand for. -/
structure FormulaContext where
  env : Environment
  require : String → Build Unit
  vars : List (String × Term)
  /-- The objects that the formula may relate. -/
  objects : Option ObjectPair

namespace FormulaContext

def termOf (ctx : FormulaContext) (x : String) : Term :=
  (ctx.vars.lookup x).getD (.name x)

def fail {α : Type} (ctx : FormulaContext) (f : Fault) : Build α :=
  throw (ctx.env.fault f)

def pair (ctx : FormulaContext) : Build ObjectPair :=
  match ctx.objects with
  | some p => return p
  | none => ctx.fail .outsideBisim

def pureFunction (ctx : FormulaContext) (f : String) : Build Function := do
  match ctx.env.functions.get? f with
  | none => ctx.fail (.functionNotDeclared f)
  | some decl => if decl.isPure then return decl else ctx.fail .impureFormulaCall

end FormulaContext

/-- The parameters of a quantifier with their types. -/
def quantified (params : List Param) : List (String × Ty) :=
  params.map fun p => (p.name.name, p.ty.getD .bits)

end GameHop.Program

namespace GameHop

open Program

mutual

def Formula.value (ctx : FormulaContext) : Formula → Build Value
  | .int _ n => return ⟨.integer, .int n⟩
  | .bool _ b => return ⟨.boolean, .bool b⟩
  | .lookup _ x => do
    match ← Build.typeOf? x.name with
    | none => ctx.fail (.notDeclared x.name)
    | some ty => return ⟨.ofTy ty, ctx.termOf x.name⟩
  | .paren _ p => do
    let v ← p.value ctx
    return ⟨v.sort, .paren v.term⟩
  | .quant _ q params p => do
    let body ← Build.inFrame .logical (quantified params) do
      let v ← p.value ctx
      orInternal v.toBoolean
    return ⟨.boolean, .quant q ((quantified params).map fun (x, ty) => (x, .ofTy ty)) body⟩
  | .unary _ op p => do
    let v ← p.value ctx
    match op with
    | .not => return ⟨.boolean, .not (← orInternal v.toBoolean)⟩
    | .tobits => return ⟨.bitstring, ← orInternal v.toBitstring⟩
    | .isBits => return ⟨.boolean, .call "isBits" [← orInternal v.toValue]⟩
  | .binary _ (.logic op) a b => do
    let a ← orInternal (← a.value ctx).toBoolean
    let b ← orInternal (← b.value ctx).toBoolean
    return ⟨.boolean, .binary (.logic op) a b⟩
  | .binary _ (.compare op) a b => do
    let a ← a.value ctx
    let b ← b.value ctx
    let sort := comparisonSort op a.sort b.sort
    let l ← orInternal (a.coerce sort)
    let r ← orInternal (b.coerce sort)
    return ⟨.boolean, .binary (.compare op) l r⟩
  | .binary _ (.arith op) a b => do
    let a ← a.value ctx
    let b ← b.value ctx
    let l ← orInternal a.toInteger
    let r ← orInternal b.toInteger
    return ⟨.integer, .binary (.arith op) l r⟩
  | .call _ f args => do
    let decl ← ctx.pureFunction f.name
    let actuals ← Formula.arguments ctx decl 0 args
    return ⟨decl.resultSort, .call f.name actuals⟩
  | .index _ m k => do
    let m ← m.value ctx
    let k ← k.value ctx
    let map ← orInternal m.toMemory
    let key ← orInternal k.toBitstring
    return ⟨.value, .index map key⟩
  | .update _ m k v => do
    let m ← m.value ctx
    let k ← k.value ctx
    let v ← v.value ctx
    let map ← orInternal m.toMemory
    let key ← orInternal k.toBitstring
    let val ← orInternal v.toValue
    return ⟨.memory, .store map key val⟩
  | .env s contexts => do
    let id ← Build.internExpr (Formula.env s contexts).text
    return ⟨.expr, .name id⟩
  | .sameObject _ a b => do
    let a ← a.value ctx
    let b ← b.value ctx
    return ⟨.boolean, .same a.term b.term⟩
  | .independence _ h a b => do
    let h ← h.term ctx
    let a ← orInternal (← a.value ctx).toObjectId
    let b ← orInternal (← b.value ctx).toObjectId
    return ⟨.boolean, .implies (.onState "objectValid" [h, a])
      (.call "objectValid" [.index (.onState "invokeSplit" [h, b]) (.name "heapLeft"), a])⟩
  | .objectIs _ o cls => do
    let o ← o.value ctx
    let id ← match cls with
      | .named c => do
        ctx.require c.name
        pure c.name
      | .invalid => pure "internal.invalidClassId"
    return ⟨.boolean, .equal (.index o.term (.name "objectClassIdAttr")) (.name id)⟩
  | .field _ o x => do
    let o ← o.value ctx
    let memory ← orInternal o.toMemory
    return ⟨.value, .index memory (.name (fieldAttr x.name))⟩
  | .frameAll _ => do
    let p ← ctx.pair
    return ⟨.boolean, .same p.leftHeap p.rightHeap⟩
  | .frame _ a b => do
    let p ← ctx.pair
    let a ← orInternal (← a.value ctx).toObjectId
    let b ← orInternal (← b.value ctx).toObjectId
    return ⟨.boolean, .frame p.leftHeap p.rightHeap a b⟩
  | .frameHeap _ h k a b => do
    let h ← h.term ctx
    let k ← k.term ctx
    let a ← orInternal (← a.value ctx).toObjectId
    let b ← orInternal (← b.value ctx).toObjectId
    return ⟨.boolean, .frame h k a b⟩
  | .fieldsEqual _ => do
    let p ← ctx.pair
    return ⟨.boolean, p.allFieldsAgree⟩
  | .fieldsEqualExcept _ excluded => do
    let p ← ctx.pair
    match p.commonFields (excluded.map (·.name)) with
    | [] => ctx.fail .noCommonFields
    | fields => return ⟨.boolean, .conj (fields.map fun f => p.fieldsAgree f f)⟩

def Formula.arguments (ctx : FormulaContext) (f : Function) (i : Nat) :
    List Formula → Build (List Term)
  | [] => return []
  | p :: ps => do
    let v ← p.value ctx
    let t ← orInternal (v.coerce (f.paramSort i))
    let ts ← Formula.arguments ctx f (i + 1) ps
    return t :: ts

/-- An object: the memory of a side, or an object of a heap. -/
def ObjectTerm.value (ctx : FormulaContext) : ObjectTerm → Build Value
  | .side s => do return ⟨.memory, (← ctx.pair).memory s⟩
  | .inHeap h p => do
    let h ← h.term ctx
    let id ← orInternal (← p.value ctx).toObjectId
    return ⟨.object, .index (.call "invokeSplit" [h, id]) (.name "targetObject")⟩

/-- A heap: that of a side, or the part of it that an object reaches. -/
def HeapTerm.term (ctx : FormulaContext) : HeapTerm → Build Term
  | .side s => do return (← ctx.pair).heap s
  | .inHeap h p => do
    let h ← h.term ctx
    let id ← orInternal (← p.value ctx).toObjectId
    return .index (.call "invokeSplit" [h, id]) (.name "heapRight")

end

def Formula.claim (ctx : FormulaContext) (p : Formula) : Build Term := do
  let v ← p.value ctx
  orInternal v.toBoolean

end GameHop
