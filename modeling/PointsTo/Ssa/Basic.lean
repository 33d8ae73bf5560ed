import PointsTo.Program.Literal

namespace PointsTo.Ssa

inductive Member where
  | function (name : String) (fn : Nat)
  | type (name : String) (type : Nat)
  | other (name : String)
deriving DecidableEq

def Member.name : Member → String
  | function name _ | type name _ | other name => name

structure Package where
  path : String
  name : String
  members : List Member := []
deriving DecidableEq

def Package.function? (p : Package) (name : String) : Option Nat :=
  p.members.findSome? fun
    | .function n fn => if n = name then some fn else none
    | _ => none

def Package.isMain (p : Package) : Bool :=
  p.name = "main" && (p.function? "main").isSome

inductive TypeKind where
  | pointer (elem : Nat)
  | slice
  | array
  | map
  | chan
  | basic
  | signature
  | tuple
  | struct (fields : List String)
  | interface (methods : List String)
  -- `methodSet` holds the functions of the method set of the pointer to the type.
  | named (params args : Nat) (methodSet : List Nat)
  | other
deriving DecidableEq

structure Ty where
  text : String
  kind : TypeKind
  underlying : Nat
deriving DecidableEq

inductive ValueKind where
  | const (value : Option Literal)
  | global (pkg : Nat)
  | function (fn : Nat)
  | builtin
  | param
  | freevar
  | reg
deriving DecidableEq

structure Value where
  name : String
  type : Nat
  kind : ValueKind
deriving DecidableEq

structure Call where
  -- Without a method, `value` itself is called.
  method : Option String
  value : Nat
  args : List Nat
  text : String
deriving DecidableEq

inductive Instr where
  | alloc (v : Nat)
  | make (v : Nat) (operands : List Nat)
  | makeInterface (v x : Nat)
  | load (v addr : Nat)
  | receive (v chan : Nat)
  | send (chan x : Nat)
  | store (addr x : Nat)
  | fieldAddr (v x field : Nat)
  | indexAddr (v x index : Nat)
  | field (v x field : Nat)
  | index (v x index : Nat)
  | lookup (v x index : Nat)
  | mapUpdate (map key x : Nat)
  | next (v iter : Nat) (isString : Bool)
  | phi (v : Nat) (edges : List Nat)
  | convert (v x : Nat) (others : List Nat)
  | typeAssert (v x asserted : Nat)
  | call (v : Option Nat) (call : Call)
  | ret (results : List Nat)
  | branch (cond : Nat)
  | jump
  | panic (x : Nat)
  | debugRef (operands : List Nat)
  | other (v : Option Nat) (operands : List Nat)
deriving DecidableEq

namespace Instr

def operands : Instr → List Nat
  | alloc _ | jump => []
  | make _ l | phi _ l | ret l | debugRef l | other _ l => l
  | makeInterface _ x | next _ x _ | typeAssert _ x _ | branch x | panic x => [x]
  | load _ x | receive _ x | fieldAddr _ x _ | field _ x _ => [x]
  | send x y | store x y | indexAddr _ x y | index _ x y | lookup _ x y => [x, y]
  | mapUpdate x y z => [x, y, z]
  | convert _ x l => x :: l
  | call _ c => c.value :: c.args

def result? : Instr → Option Nat
  | alloc v | make v _ | makeInterface v _ | load v _ | receive v _ => some v
  | fieldAddr v .. | indexAddr v .. | field v .. | index v .. | lookup v .. => some v
  | next v .. | phi v _ | convert v .. | typeAssert v .. => some v
  | call v _ | other v _ => v
  | send .. | store .. | mapUpdate .. | ret _ | branch _ | jump | panic _ | debugRef _ => none

end Instr

structure Function where
  name : String
  text : String
  pkg : Option Nat
  isSynthetic : Bool
  isNested : Bool
  hasBlocks : Bool
  recv : Option Nat
  -- Names and types of the declared parameters, without the receiver.
  signature : List (String × String)
  params : List Nat := []
  blocks : List (List Instr) := []
deriving DecidableEq

-- Packages, types, functions and values are referred to by their positions in these tables.
structure Program where
  roots : List Nat
  packages : List Package
  types : List Ty
  functions : List Function
  values : List Value
deriving DecidableEq

namespace Program

variable (p : Program)

def package (i : Nat) : Package :=
  p.packages.getD i ⟨"", "", []⟩

def type (i : Nat) : Ty :=
  p.types.getD i ⟨"", .other, i⟩

def function (i : Nat) : Function :=
  p.functions.getD i ⟨"", "", none, false, false, false, none, [], [], []⟩

def value (i : Nat) : Value :=
  p.values.getD i ⟨"", 0, .reg⟩

def underlyingKind (t : Nat) : TypeKind :=
  (p.type (p.type t).underlying).kind

def deref (t : Nat) : Nat :=
  match p.underlyingKind t with
  | .pointer elem => elem
  | _ => t

def isAggregate (t : Nat) : Bool :=
  match p.underlyingKind t with
  | .struct _ | .array => true
  | _ => false

def isNamed (t : Nat) : Bool :=
  match (p.type t).kind with
  | .named .. => true
  | _ => false

def isReference (t : Nat) : Bool :=
  let isRef : TypeKind → Bool
    | .pointer _ | .map | .chan | .slice | .interface _ | .signature => true
    | _ => false
  if p.isNamed t then isRef (p.underlyingKind t) else isRef (p.type t).kind

def typeText (t : Nat) : String :=
  (p.type t).text

def typeOf (v : Nat) : Nat :=
  (p.value v).type

def fieldName (t field : Nat) : String :=
  match p.underlyingKind t with
  | .struct fields => fields.getD field ""
  | _ => ""

end Program
end PointsTo.Ssa
