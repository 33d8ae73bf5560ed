import PointsTo.Memo
import PointsTo.Objects
import PointsTo.Program.Hierarchy
import PointsTo.Store

namespace PointsTo

structure Scene where
  hierarchy : Hierarchy
  objects : Objects

namespace Scene

variable (c : Scene)

def class? (id : Int) : Option Class := do
  c.hierarchy.class? (← c.objects.type? id)

def classTarget? (subsignature : String) (k : Class) : Option Method :=
  (c.hierarchy.dispatch k subsignature).filter (!·.isNative)

def receiverTarget? (subsignature : String) (id : Int) : Option Method :=
  (c.class? id).bind (c.classTarget? subsignature)

def receiverTargets (subsignature : String) (ids : List Int) : List Method :=
  (ids.filterMap (c.receiverTarget? subsignature)).eraseDups

-- If the class of no receiver has an answer, the declared method stands in unless it is abstract.
-- Native methods are never run.
def targets (call : Invoke) (receivers : ObjectSet) : List Method :=
  match c.hierarchy.resolve call.method with
  | none => []
  | some declared =>
    let fallback := if declared.isAbstract then [] else [declared]
    if declared.isNative then []
    else if call.kind.isDirect then fallback
    else match c.receiverTargets declared.subsignature receivers.toList with
      | [] => fallback
      | found => found

def classes : List (Int × Class) :=
  c.objects.ids.filterMap fun id => (c.class? id).map (id, ·)

end Scene

def pick {α : Type} : List Int → List (Int × α) → List α
  | [], _ => []
  | key :: keys, table => match table.dropWhile (·.1 < key) with
    | (k, a) :: rest => if k = key then a :: pick keys rest else pick keys ((k, a) :: rest)
    | [] => []

def ascends : List Method → Bool
  | a :: b :: rest => a.id < b.id && ascends (b :: rest)
  | _ => true

-- There are no repetitions to look for if the numbers ascend or descend.
def distinct (ms : List Method) : List Method :=
  if ascends ms || ascends ms.reverse then ms else ms.eraseDups

-- What a reference means does not change while a program is analysed, so it is found out once: the
-- declared method, and what each object makes of it, ascending.
structure Link where
  declared : Option Method
  answers : Thunk (List (Int × Method))

namespace Link

def ofRef (c : Scene) (classes : Thunk (List (Int × Class))) (ref : MethodRef) : Link :=
  let declared := c.hierarchy.resolve ref
  { declared
    answers := .mk fun _ => match declared with
      | none => []
      | some m => classes.get.filterMap fun (id, k) =>
        (c.classTarget? m.subsignature k).map (id, ·) }

def targets (l : Link) (kind : CallKind) (receivers : ObjectSet) : List Method :=
  match l.declared with
  | none => []
  | some declared =>
    let fallback := if declared.isAbstract then [] else [declared]
    if declared.isNative then []
    else if kind.isDirect then fallback
    else match distinct (pick receivers.toList l.answers.get) with
      | [] => fallback
      | found => found

def ofScene (c : Scene) : MethodRef → Link :=
  ofRef c (.mk fun _ => c.classes)

end Link
end PointsTo
