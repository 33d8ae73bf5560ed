import PointsTo.Program.Stmt

namespace PointsTo

structure Modifiers where
  isStatic : Bool := false
  isAbstract : Bool := false
  isNative : Bool := false
deriving DecidableEq

namespace Modifiers

def ofBits (n : Nat) : Modifiers where
  isStatic := n.testBit 0
  isAbstract := n.testBit 1
  isNative := n.testBit 2

def words (m : Modifiers) : List String :=
  (if m.isStatic then ["static"] else []) ++
  (if m.isAbstract then ["abstract"] else []) ++
  (if m.isNative then ["native"] else [])

def text (m : Modifiers) : String :=
  " ".intercalate m.words

end Modifiers

-- Variables and statements are only ever added, so what was handed out earlier stays valid.
structure Method where
  id : Nat
  owner : String
  name : String
  modifiers : Modifiers
  -- Takes the place of the computed subsignature unless it is empty.
  givenSubsignature : String := ""
  receiver : Option Var := none
  params : List Var := []
  vars : List Var := []
  body : List Stmt := []

@[noinline]
def Method.decEqParts (a b : Method) (h : a.id = b.id) : Decidable (a = b) :=
  decidable_of_iff (a.owner = b.owner ∧ a.name = b.name ∧ a.modifiers = b.modifiers ∧
    a.givenSubsignature = b.givenSubsignature ∧ a.receiver = b.receiver ∧ a.params = b.params ∧
    a.vars = b.vars ∧ a.body = b.body) (by cases a; cases b; simp_all)

-- Methods are equal when all their parts are. Almost always the numbers settle it.
instance : DecidableEq Method := fun a b => withPtrEqDecEq a b fun _ =>
  if h : a.id = b.id then a.decEqParts b h else isFalse fun e => h (congrArg Method.id e)

structure ReceiverMismatch where
  kind : CallKind
  method : MethodRef
  base : Option Var
deriving DecidableEq

def ReceiverMismatch.message (e : ReceiverMismatch) : String :=
  e.kind.text ++ " call to " ++ e.method.text ++ " with receiver " ++ Stmt.indexText e.base

namespace Method

def isStatic (m : Method) : Bool :=
  m.modifiers.isStatic

def isAbstract (m : Method) : Bool :=
  m.modifiers.isAbstract

def isNative (m : Method) : Bool :=
  m.modifiers.isNative

def hasBody (m : Method) : Bool :=
  !m.isAbstract && !m.isNative && !m.body.isEmpty

def subsignature (m : Method) : String :=
  if m.givenSubsignature = "" then m.name ++ "(" ++ ",".intercalate (m.params.map Var.type) ++ ")"
  else m.givenSubsignature

def ref (m : Method) : MethodRef where
  owner := m.owner
  subsignature := m.subsignature

def text (m : Method) : String :=
  m.ref.text

def nextVar (m : Method) (name type : String) (const : Option Literal := none) : Var where
  owner := some m.id
  index := m.vars.length
  name
  type
  const

def addVar (m : Method) (name type : String) (const : Option Literal := none) : Method :=
  { m with vars := m.vars ++ [m.nextVar name type const] }

def addParam (m : Method) (name type : String) : Method :=
  { m.addVar name type with params := m.params ++ [m.nextVar name type] }

def nextInt (m : Method) (n : Int) : Var :=
  m.nextVar ("%intconst" ++ toString m.vars.length) "int" (some (.int n))

def addInt (m : Method) (n : Int) : Method :=
  { m with vars := m.vars ++ [m.nextInt n] }

def setSubsignature (m : Method) (subsignature : String) : Method :=
  { m with givenSubsignature := subsignature }

def emit (m : Method) (s : Stmt) : Method :=
  { m with body := m.body ++ [s] }

def nextSite (m : Method) : Site where
  method := m.id
  ordinal := m.body.length

def emitAlloc (m : Method) (lhs : Var) (type : String) : Method :=
  m.emit (.alloc m.nextSite lhs type)

def emitInvoke (m : Method) (call : Invoke) : Except ReceiverMismatch Method :=
  if call.isStatic = call.base.isNone then .ok (m.emit (.invoke call))
  else .error ⟨call.kind, call.method, call.base⟩

def declare (id : Nat) (owner name : String) (modifiers : Modifiers) (types : List String) :
    Method :=
  let m : Method := { id, owner, name, modifiers }
  let m := if modifiers.isStatic then m
    else { m.addVar "this" owner with receiver := some (m.nextVar "this" owner) }
  types.zipIdx.foldl (fun m (type, i) => m.addParam ("p" ++ toString i) type) m

def returned (m : Method) : List Var :=
  m.body.filterMap fun
    | .ret value => value
    | _ => none

def references (m : Method) : List MethodRef :=
  m.body.filterMap fun
    | .invoke call => some call.method
    | _ => none

def returnsReceiver (m : Method) : Bool :=
  match m.receiver with
  | some v => v ∈ m.returned
  | none => false

def listing (m : Method) : String :=
  let words := String.join (m.modifiers.words.map (· ++ " "))
  let line := fun (s, i) => "  " ++ toString i ++ ": " ++ Stmt.text s ++ "\n"
  words ++ m.text ++ "\n" ++ String.join (m.body.zipIdx.map line)

end Method
end PointsTo
