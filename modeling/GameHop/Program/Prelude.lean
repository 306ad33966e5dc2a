/-!
What every verification program starts with: sorts, coercions, objects, heaps and their laws.
-/

namespace GameHop.Program.Prelude

/-- Values: bit strings, object identities, memories, numbers and truth values inside values. -/
def values : List String := [
  "type T;",
  "const defaultValue : T;",
  "type Bitstring;",
  "function toBitstring(T) returns (Bitstring);",
  "function fromBitstring(Bitstring) returns (T);",
  "axiom (forall b: Bitstring :: toBitstring(fromBitstring(b)) == b);",
  "const nil : Bitstring;",
  "axiom (defaultValue == fromBitstring(nil));",
  "type ObjectId;",
  "function toObjectId(T) returns (ObjectId);",
  "function fromObjectId(ObjectId) returns (T);",
  "axiom (forall id: ObjectId :: toObjectId(fromObjectId(id)) == id);",
  "function freshObjectId(ObjectId, Heap): ObjectId;",
  "type Memory = [Bitstring]T;",
  "function toMemory(T) returns (Memory);",
  "function fromMemory(Memory) returns(T);",
  "axiom (forall m:Memory :: toMemory(fromMemory(m)) == m);",
  "axiom (forall m:Memory :: toBitstring(fromMemory(m)) != nil);",
  "axiom (forall v:Bitstring :: toMemory(defaultValue)[v]==defaultValue);",
  "function toInt(Bitstring) : int;",
  "function fromInt(int) returns (Bitstring);",
  "axiom (forall n:int :: toInt(fromInt(n)) == n);",
  "axiom(fromInt(0) == nil);",
  "axiom (forall n : int :: n != 0 ==> fromInt(n) != nil);",
  "axiom (forall n1 : int, n2 : int :: n1 != n2 ==> fromInt(n1) != fromInt(n2));",
  "axiom (forall n1 : Bitstring, n2 : Bitstring :: n1 != n2 ==> toInt(n1) != toInt(n2));",
  "function fromBool(bool) returns (Bitstring);",
  "axiom(fromBool(false) == nil);",
  "axiom(fromBool(true) != nil);",
  "function toReal(Bitstring) returns (real);",
  "function fromReal(real) returns (Bitstring);",
  "function real_pow(real, real) : real;",
  "axiom (forall r1: real, r2 : real :: real(0) <= r1 ==> real(0) <= real_pow(r1, r2));",
  "axiom (forall a : real, b : real :: real(0) <= a ==> real(0) <= b ==> real(0) <= a / b);"]

/-- Objects and heaps. A heap splits at an object into the object, the part that the object reaches, and
    the rest. -/
def objects : List String := [
  "type FunctionState;",
  "type MethodRef;",
  "type ObjAttr kind;",
  "type Object = <kind>[ObjAttr kind] kind;",
  "type Heap;",
  "type ClassId;",
  "type Expr;",
  "const unique internal.invalidClassId : ClassId;",
  "const unique objectIdAttr : ObjAttr ObjectId;",
  "const unique objectMemoryAttr : ObjAttr Memory;",
  "const unique objectClassIdAttr : ObjAttr ClassId;",
  "const emptyObject : Object;",
  "function fromExpr(Expr) returns (T);",
  "type SplitHeapAttribute kind;",
  "type SplitHeap = <kind>[SplitHeapAttribute kind] kind;",
  "const unique heapLeft : SplitHeapAttribute Heap;",
  "const unique heapRight : SplitHeapAttribute Heap;",
  "const unique targetObject : SplitHeapAttribute Object;",
  "function invokeSplit(Heap, ObjectId) : SplitHeap;",
  "function assembleHeap(SplitHeap) : Heap;",
  "function addObject(Heap, Object) : Heap;",
  "function objectValid(Heap, ObjectId) : bool;",
  "axiom (forall id:ObjectId, h : Heap, o : Object :: objectValid(h, id) ==> (id != o[objectIdAttr]) ==> (objectValid(addObject(h, o), id) && invokeSplit(addObject(h, o), id)[targetObject] == invokeSplit(h, id)[targetObject]));",
  "axiom (forall h : Heap, id : ObjectId :: objectValid(h, id) <==> (invokeSplit(h, id)[targetObject][objectClassIdAttr] != internal.invalidClassId));"]

/-- Frames: when two objects of two heaps reach equal parts, and what keeps them so. -/
def frames : List String := [
  "function frame(Heap, Heap, ObjectId, ObjectId) returns (bool);",
  "axiom (forall h:Heap, x:ObjectId :: frame(h, h, x, x));",
  "axiom (forall h1:Heap, h2:Heap, o1:ObjectId, o2:ObjectId :: frame(h1, h2, o1, o2) ==> (",
  "    o1 == o2 &&",
  "    invokeSplit(h1, o1)[targetObject] == invokeSplit(h2, o2)[targetObject]  &&",
  "    invokeSplit(h1, o1)[heapRight] == invokeSplit(h2, o2)[heapRight]));",
  "axiom (forall h1 : Heap, h2 : Heap, id1 : ObjectId, id2 : ObjectId, s1 : SplitHeap, s2 : SplitHeap ::",
  "    frame(h1, h2, id1, id2) ==>",
  "    s1[heapLeft] == invokeSplit(h1, id1)[heapLeft] ==>",
  "    s2[heapLeft] == invokeSplit(h2, id2)[heapLeft] ==>",
  "    s1[targetObject][objectIdAttr] == invokeSplit(h1, id1)[targetObject][objectIdAttr]  ==>",
  "    s2[targetObject][objectIdAttr] == invokeSplit(h2, id2)[targetObject][objectIdAttr] ==>",
  "    s1[targetObject] == s2[targetObject]==>",
  "    s1[heapRight] == s2[heapRight] ==>",
  "    frame(assembleHeap(s1), assembleHeap(s2), id1, id2)",
  ");",
  "axiom (forall h1 : Heap, h2 : Heap, id1 : ObjectId, id2 : ObjectId, id1' : ObjectId, id2' : ObjectId, s1 : SplitHeap, s2 : SplitHeap ::",
  "    frame(h1, h2, id1, id2) ==>",
  "    frame(h1, h2, id1', id2') ==> ",
  "    s1[heapLeft] == invokeSplit(h1, id1')[heapLeft] ==>",
  "    s2[heapLeft] == invokeSplit(h2, id2')[heapLeft] ==>",
  "    s1[targetObject][objectIdAttr] == invokeSplit(h1, id1')[targetObject][objectIdAttr] ==>",
  "    s2[targetObject][objectIdAttr] == invokeSplit(h1, id2')[targetObject][objectIdAttr]  ==>",
  "    s1[targetObject] == s2[targetObject] ==>",
  "    s1[heapRight] == s2[heapRight] ==>",
  "    frame(assembleHeap(s1), assembleHeap(s2), id1, id2)",
  ");",
  "axiom (forall h1 : Heap, h2 : Heap, id1 : ObjectId, id2 : ObjectId, s1 : SplitHeap, id1' : ObjectId ::",
  "    frame(h1, h2, id1, id2) ==>",
  "    id1' != id1 ==>",
  "    id1' != id2 ==>",
  "    s1[heapLeft] == invokeSplit(h1, id1')[heapLeft] ==>",
  "    s1[heapRight] == invokeSplit(h1, id1')[heapRight] ==>",
  "    s1[targetObject][objectIdAttr] == id1' ==>",
  "    frame(assembleHeap(s1), h2, id1, id2));",
  "axiom (forall h1 : Heap, h2 : Heap, id1 : ObjectId, id2 : ObjectId, s2 : SplitHeap, id2' : ObjectId ::",
  "    frame(h1, h2, id1, id2) ==>",
  "    id2' != id1 ==>",
  "    id2' != id2 ==>",
  "    s2[heapLeft] == invokeSplit(h2, id2')[heapLeft] ==>",
  "    s2[heapRight] == invokeSplit(h2, id2')[heapRight] ==>",
  "    s2[targetObject][objectIdAttr] == id2' ==>",
  "    frame(h1, assembleHeap(s2), id1, id2));",
  "axiom(forall h1 : Heap, h2 : Heap, id1 : ObjectId, id2 : ObjectId, id' : ObjectId ::",
  "    frame(invokeSplit(h1, id')[heapRight], h2, id1, id2) ==>",
  "    objectValid(invokeSplit(h1, id1)[heapLeft], id') ==>",
  "    frame(h1, h2, id1, id2)",
  ");",
  "axiom(forall h1 : Heap, h2 : Heap, id1 : ObjectId, id2 : ObjectId, id' : ObjectId ::",
  "    frame(h1, invokeSplit(h2, id')[heapRight], id1, id2) ==>",
  "    objectValid(invokeSplit(h2, id2)[heapLeft], id') ==>",
  "    frame(h1, h2, id1, id2)",
  ");",
  "axiom(forall h1 : Heap, h2 : Heap, id1 : ObjectId, id2 : ObjectId, id' : ObjectId ::",
  "    frame(h1, h2, id1, id2) ==>",
  "    objectValid(invokeSplit(h1, id1)[heapLeft], id') ==>",
  "    frame(invokeSplit(h1, id')[heapRight], h2, id1, id2)",
  ");",
  "axiom(forall h1 : Heap, h2 : Heap, id1 : ObjectId, id2 : ObjectId, id' : ObjectId ::",
  "    frame(h1, h2, id1, id2) ==>",
  "    objectValid(invokeSplit(h2, id2)[heapLeft], id') ==>",
  "    frame(h1, invokeSplit(h2, id')[heapRight], id1, id2)",
  ");"]

/-- Reachability in split and extended heaps. -/
def reachability : List String := [
  "axiom (forall h : Heap, id1 : ObjectId, o2 : Object ::",
  "    o2[objectClassIdAttr] != internal.invalidClassId ==>    id1 != o2[objectIdAttr] ==>    objectValid(invokeSplit(addObject(h, o2), id1)[heapLeft], o2[objectIdAttr]));",
  "",
  "axiom (forall h : Heap, id1 : ObjectId, id2 : ObjectId, o : Object ::",
  "    objectValid(invokeSplit(h, id2)[heapLeft], id1) ==> o[objectIdAttr] != id2 ==> objectValid(invokeSplit(addObject(h, o), id2)[heapLeft], id1));",
  "axiom (forall h : Heap, id1 : ObjectId, id2 : ObjectId, id3 : ObjectId ::",
  "    objectValid(invokeSplit(h, id2)[heapLeft], id1) ==>",
  "    objectValid(invokeSplit(h, id3)[heapLeft], id1) ==>",
  "    objectValid(invokeSplit(invokeSplit(h, id3)[heapLeft], id2)[heapLeft], id1)",
  "    );",
  "axiom (forall s : SplitHeap, id1 : ObjectId, id2 : ObjectId ::",
  "    objectValid(invokeSplit(s[heapLeft], id1)[heapLeft], id2) ==>",
  "    objectValid(invokeSplit(assembleHeap(s), id1)[heapLeft], id2)",
  ");",
  "axiom (forall s : SplitHeap, id : ObjectId :: s[targetObject][objectIdAttr] == id ==> invokeSplit(assembleHeap(s), id) == s);",
  "axiom (forall s : SplitHeap, h : Heap :: !objectValid(s[heapLeft], freshObjectId(s[targetObject][objectIdAttr], h)));",
  "axiom (forall s : SplitHeap, id : ObjectId, id' : ObjectId :: id != id' ==> s[targetObject][objectClassIdAttr] != internal.invalidClassId ==> s[targetObject][objectIdAttr] == id ==> (!objectValid(s[heapLeft], id')) ==> objectValid(invokeSplit(assembleHeap(s), id')[heapLeft], id));",
  "axiom (forall h : Heap, id : ObjectId, id' : ObjectId :: id != id' ==> objectValid(invokeSplit(h, id')[heapLeft], id) ==> !objectValid(invokeSplit(h, id)[heapLeft], id'));",
  "axiom (forall h1 : Heap, h2 : Heap, id1 : ObjectId, id2 : ObjectId, o : Object :: frame(h1, h2, id1, id2) ==> (o[objectIdAttr] != id1) ==> frame(addObject(h1, o), h2, id1, id2));",
  "axiom (forall h1 : Heap, h2 : Heap, id1 : ObjectId, id2 : ObjectId, o : Object :: frame(h1, h2, id1, id2) ==> (o[objectIdAttr] != id2) ==> frame(h1, addObject(h2, o), id1, id2));",
  "axiom (forall h1 : Heap, h2 : Heap, id1 : ObjectId, id2 : ObjectId, o : Object :: frame(h1, h2, id1, id2) ==> frame(invokeSplit(addObject(h1, o), o[objectIdAttr])[heapRight], h2, id1, id2));",
  "axiom (forall h1 : Heap, h2 : Heap, id1 : ObjectId, id2 : ObjectId, o : Object :: frame(h1, h2, id1, id2) ==> frame(h1, invokeSplit(addObject(h2, o), o[objectIdAttr])[heapRight], id1, id2));",
  "axiom (forall h:Heap, o:Object :: invokeSplit(addObject(h, o), o[objectIdAttr])[targetObject] == o);",
  "axiom (forall h : Heap, id : ObjectId, id' : ObjectId :: (objectValid(invokeSplit(h, id')[heapLeft], id) && invokeSplit(invokeSplit(h, id')[heapLeft], id)[targetObject] == invokeSplit(h, id)[targetObject]) || id==id' || (!objectValid(invokeSplit(h, id')[heapLeft], id) && invokeSplit(invokeSplit(h, id')[heapRight], id)[targetObject] == invokeSplit(h, id)[targetObject]));",
  "axiom (forall s : SplitHeap, id : ObjectId :: objectValid(s[heapLeft], id) ==> (objectValid(assembleHeap(s), id) && invokeSplit(assembleHeap(s), id)[targetObject] == invokeSplit(s[heapLeft], id)[targetObject]));",
  "axiom (forall s : SplitHeap, id : ObjectId :: !objectValid(s[heapLeft], id) ==> id != s[targetObject][objectIdAttr] ==> (invokeSplit(assembleHeap(s), id)[targetObject] == invokeSplit(s[heapRight], id)[targetObject]));",
  "axiom (forall s : SplitHeap, id : ObjectId :: !objectValid(s[heapLeft], id) ==> id != s[targetObject][objectIdAttr] ==> (objectValid(assembleHeap(s), id)==objectValid(s[heapRight], id) && invokeSplit(assembleHeap(s), id)[targetObject] == invokeSplit(s[heapRight], id)[targetObject]));",
  "axiom (forall h:Heap, id : ObjectId :: objectValid(h, id) ==> invokeSplit(h, id)[targetObject][objectIdAttr] == id);",
  "axiom (forall h:Heap, id : ObjectId :: !objectValid(invokeSplit(h, id)[heapLeft], id));",
  "axiom (forall id : ObjectId, h:Heap :: !objectValid(h, freshObjectId(id, h)));",
  "axiom (forall id : ObjectId, h : Heap :: freshObjectId(id, h) != id);"]

/-- Values that are bit strings. -/
def bits : List String := [
  "function isBits(T) : bool;",
  "axiom (forall x : Bitstring :: isBits(fromBitstring(x)));",
  "axiom (forall h:Heap, x : T :: isBits(x) ==> !objectValid(h, toObjectId(x)));",
  "axiom (forall x1 : T, x2 : T :: isBits(x1) ==> isBits(x2) ==> toBitstring(x1) == toBitstring(x2) ==> x1==x2);"]

/-- Checkpoints keep a state under a label. -/
def checkpoints : List String := [
  "type CheckpointAttr kind;",
  "const unique checkpointHeap : CheckpointAttr Heap;",
  "const unique checkpointSplitHeap : CheckpointAttr SplitHeap;",
  "const unique checkpointMemory : CheckpointAttr Memory;",
  "const unique checkpointValue : CheckpointAttr T;",
  "const unique checkpointFunctionState : CheckpointAttr FunctionState;",
  "const unique checkpointValid : CheckpointAttr bool;",
  "type Checkpoint = <kind>[CheckpointAttr kind]kind;",
  "type CheckpointId;",
  "type Checkpoints = [CheckpointId]Checkpoint;",
  "const unique initCheckpoints : Checkpoints;",
  "axiom (forall id : CheckpointId :: !initCheckpoints[id][checkpointValid]);"]

/-- The state: that of the current run, and those of the two sides of a proof. -/
def state : List String := [
  "var functionState : FunctionState;",
  "var heap : Heap;",
  "var heap1 : Heap;",
  "var heap2 : Heap;",
  "var objectMemory : Memory;",
  "var objectMemory1 : Memory;",
  "var objectMemory2 : Memory;",
  "var checkpoints : Checkpoints;",
  "var checkpoints1 : Checkpoints;",
  "var checkpoints2 : Checkpoints;",
  "const emptyCheckpoint : Checkpoint;"]

def lines : List String :=
  values ++ objects ++ frames ++ reachability ++ bits ++ checkpoints ++ state

def text : String :=
  String.join (lines.map (· ++ "\n"))

end GameHop.Program.Prelude
