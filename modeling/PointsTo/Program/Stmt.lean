import PointsTo.Program.Literal
import PointsTo.Table

namespace PointsTo

def absentText : String := "<nil>"

-- A variable is told apart from the others of its method by its position, never by its name.
structure Var where
  index : Nat
  owner : Option Nat
  name : String
  type : String
  const : Option Literal := none

@[noinline]
def Var.decEqParts (v w : Var) (h : v.index = w.index) : Decidable (v = w) :=
  decidable_of_iff (v.owner = w.owner ∧ v.name = w.name ∧ v.type = w.type ∧ v.const = w.const)
    (by cases v; cases w; simp_all)

-- Variables are equal when all their parts are. Mostly the positions settle it.
instance : DecidableEq Var := fun v w => withPtrEqDecEq v w fun _ =>
  if h : v.index = w.index then v.decEqParts w h else isFalse fun e => h (congrArg Var.index e)

instance : Coded Var where
  code v := 4096 * v.owner.getD 0 + v.index

namespace Var

def absent : Var where
  owner := none
  index := 0
  name := absentText
  type := ""

def text (v : Var) : String :=
  match v.const with
  | some c => c.text
  | none => v.name

def int64? (v : Var) : Option Int :=
  v.const.bind Literal.int64?

end Var

structure FieldRef where
  owner : String
  name : String
deriving DecidableEq

def FieldRef.text (f : FieldRef) : String :=
  f.owner ++ "." ++ f.name

structure MethodRef where
  owner : String
  subsignature : String
deriving DecidableEq

namespace MethodRef

def name (r : MethodRef) : String :=
  String.ofList (r.subsignature.toList.takeWhile (· != '('))

def text (r : MethodRef) : String :=
  "<" ++ r.owner ++ ": " ++ r.subsignature ++ ">"

end MethodRef

inductive CallKind where
  | static
  | virtual
  | interface
  | special
  -- A kind without a name of its own is bound like a virtual call.
  | other (code : Nat)
deriving DecidableEq

namespace CallKind

def ofCode : Nat → CallKind
  | 0 => static
  | 1 => virtual
  | 2 => interface
  | 3 => special
  | n => other n

def text : CallKind → String
  | static => "invokestatic"
  | virtual => "invokevirtual"
  | interface => "invokeinterface"
  | special => "invokespecial"
  | other code => "CallKind(" ++ toString code ++ ")"

def isDirect : CallKind → Bool
  | static | special => true
  | _ => false

end CallKind

structure Invoke where
  result : Option Var
  kind : CallKind
  method : MethodRef
  base : Option Var
  args : List Var
deriving DecidableEq

namespace Invoke

def isStatic (call : Invoke) : Bool :=
  call.kind = .static

-- One of the arguments is left out.
def unprintable : String :=
  "%!v(PANIC=String method: runtime error: invalid memory address or nil pointer dereference)"

def text (call : Invoke) : String :=
  if .absent ∈ call.args then unprintable
  else
    let result := match call.result with
      | some v => v.text ++ " = "
      | none => ""
    let base := match call.base with
      | some v => v.text ++ "."
      | none => ""
    result ++ call.kind.text ++ " " ++ call.method.text ++ " " ++ base ++ call.method.name ++
      "(" ++ ", ".intercalate (call.args.map Var.text) ++ ")"

end Invoke

-- A method, and a number that tells its allocations apart: two statements that read the same are
-- still two allocations.
structure Site where
  ordinal : Nat
  method : Nat
deriving DecidableEq

inductive Stmt where
  | alloc (site : Site) (lhs : Var) (type : String)
  | literal (lhs : Var) (value : Literal)
  | copy (lhs rhs : Var)
  | cast (lhs rhs : Var) (type : String)
  | loadField (lhs : Var) (base : Option Var) (field : FieldRef)
  | storeField (base : Option Var) (field : FieldRef) (rhs : Var)
  | loadArray (lhs base : Var) (index : Option Var)
  | storeArray (base : Var) (index : Option Var) (rhs : Var)
  | invoke (call : Invoke)
  | ret (value : Option Var)
  | branch (cond : Var)
  | jump
  | throw (value : Var)
  | nop (note : String)
deriving DecidableEq

namespace Stmt

def isStatic? : Stmt → Option Bool
  | .loadField _ base _ => some base.isNone
  | .storeField base _ _ => some base.isNone
  | .invoke call => some call.isStatic
  | _ => none

def indexText : Option Var → String
  | some v => v.text
  | none => absentText

def text : Stmt → String
  | .alloc _ lhs type => lhs.text ++ " = new " ++ type
  | .literal lhs value => lhs.text ++ " = " ++ value.text
  | .copy lhs rhs => lhs.text ++ " = " ++ rhs.text
  | .cast lhs rhs type => lhs.text ++ " = (" ++ type ++ ") " ++ rhs.text
  | .loadField lhs none field => lhs.text ++ " = " ++ field.text
  | .loadField lhs (some base) field => lhs.text ++ " = " ++ base.text ++ "." ++ field.name
  | .storeField none field rhs => field.text ++ " = " ++ rhs.text
  | .storeField (some base) field rhs => base.text ++ "." ++ field.name ++ " = " ++ rhs.text
  | .loadArray lhs base index => lhs.text ++ " = " ++ base.text ++ "[" ++ indexText index ++ "]"
  | .storeArray base index rhs => base.text ++ "[" ++ indexText index ++ "] = " ++ rhs.text
  | .invoke call => call.text
  | .ret none => "return"
  | .ret (some v) => "return " ++ v.text
  | .branch cond => "if " ++ cond.text ++ " goto ..."
  | .jump => "goto ..."
  | .throw value => "throw " ++ value.text
  | .nop note => if note = "" then "nop" else "nop // " ++ note

end Stmt
end PointsTo
