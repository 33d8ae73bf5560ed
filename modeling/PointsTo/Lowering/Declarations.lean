import PointsTo.Objects
import PointsTo.Ssa.Basic

namespace PointsTo.Lowering

inductive Error where
  | noMainPackage
  | duplicateClass (e : DuplicateClass)
  | receiverMismatch (e : ReceiverMismatch)
  -- Declarations are nested in each other, or bodies found, more often than is possible.
  | unfinished
deriving DecidableEq

def Error.message : Error → String
  | .noMainPackage => "no main package"
  | .duplicateClass e => e.message
  | .receiverMismatch e => e.message
  | .unfinished => "the program has no end"

structure Source where
  ssa : Ssa.Program
  markers : Markers

structure State where
  program : Program := {}
  methods : List (Nat × Nat) := []
  vars : List (Nat × Var) := []
  queue : List Nat := []
  globals : List Nat := []

namespace State

def methodId? (st : State) (fn : Nat) : Option Nat :=
  st.methods.lookup fn

def method? (st : State) (fn : Nat) : Option Method :=
  (st.methodId? fn).bind st.program.method?

def addClass (st : State) (c : Class) : Except Error State :=
  match st.program.addClass c with
  | .ok program => .ok { st with program }
  | .error e => .error (.duplicateClass e)

def ensureClass (st : State) (name : String) : Except Error State :=
  if (st.program.class? name).isSome then .ok st else st.addClass { name }

def insertMethod (st : State) (owner : String) (m : Method) : State :=
  { st with program := st.program.insertMethod owner m }

def nextMethod (st : State) (owner name : String) (modifiers : Modifiers) (subsignature : String) :
    Method :=
  (st.program.nextMethod owner name modifiers []).setSubsignature subsignature

def addMethod (st : State) (owner name : String) (modifiers : Modifiers) : State :=
  st.insertMethod owner (st.nextMethod owner name modifiers name)

def useGlobal (st : State) (g : Nat) : State :=
  if g ∈ st.globals then st else { st with globals := st.globals ++ [g] }

end State

variable (src : Source)

def Source.isRoot (pkg : Option Nat) : Bool :=
  match pkg with
  | some pkg => pkg ∈ src.ssa.roots
  | none => false

-- Wrappers belong to no package.
def Source.hasBody (fn : Nat) : Bool :=
  let f := src.ssa.function fn
  f.hasBlocks && (src.isRoot f.pkg || (f.pkg.isNone && f.isSynthetic))

def Source.isMarker (fn : Nat) : Bool :=
  let f := src.ssa.function fn
  !f.hasBlocks && !f.isNested && src.isRoot f.pkg && f.recv.isNone &&
    (f.name = src.markers.alloc || f.name = src.markers.test)

def sharedClass : String := "<shared>"

def Source.owner (fn : Nat) : String :=
  let f := src.ssa.function fn
  match f.recv, f.pkg with
  | some recv, _ => src.ssa.typeText (src.ssa.deref recv)
  | none, some pkg => (src.ssa.package pkg).path
  | none, none => sharedClass

def withParams (signature : List (String × String)) (m : Method) : Method :=
  signature.zipIdx.foldl (fun m ((name, type), i) =>
    m.addParam (if name = "" || name = "_" then "p" ++ toString i else name) type) m

-- The subsignature is the name, or the full name if the name is taken.
def functionMethod (fn : Nat) (st : State) : Method :=
  let f := src.ssa.function fn
  let isTaken := (st.program.declared? (src.owner fn) f.name).isSome
  withParams f.signature (st.nextMethod (src.owner fn) f.name { isStatic := f.recv.isNone }
    (if isTaken then f.text else f.name))

def declareFunction (fn : Nat) (st : State) : State :=
  { st.insertMethod (src.owner fn) (functionMethod src fn st) with
    methods := (fn, st.program.methods.length) :: st.methods
    queue := if src.hasBody fn then st.queue ++ [fn] else st.queue }

def declareOnce (fn : Nat) (st : State) : State :=
  if (st.methodId? fn).isSome then st else declareFunction src fn st

-- A type with parameters has no methods of its own.
def Source.methodSet (t : Nat) : List Nat :=
  match (src.ssa.type t).kind with
  | .named params args methods => if 0 < params && args = 0 then [] else methods
  | _ => []

mutual

-- A package is a class with its functions as static methods, a named type a class with the methods
-- of the pointers to it. They are declared when they are first needed.
def declareClass : (fuel : Nat) → (t : Nat) → State → Except Error State
  | 0, _, _ => .error .unfinished
  | fuel + 1, t, st =>
    let name := src.ssa.typeText t
    if (st.program.class? name).isSome then .ok st
    else match src.ssa.underlyingKind t with
      | .interface methods => do
        let st ← st.addClass { name, isInterface := true }
        return methods.foldl (fun st m => st.addMethod name m { isAbstract := true }) st
      | _ => do
        let st ← st.addClass { name }
        (src.methodSet t).foldlM (fun st fn => declareMethod fuel fn st) st

-- Declaring the class may have declared the method too.
def declareMethod : (fuel : Nat) → (fn : Nat) → State → Except Error State
  | 0, _, _ => .error .unfinished
  | fuel + 1, fn, st =>
    if (st.methodId? fn).isSome then .ok st
    else
      let withOwner := match (src.ssa.function fn).recv with
        | some recv => declareClass fuel (src.ssa.deref recv) st
        | none => st.ensureClass (src.owner fn)
      withOwner.map (declareOnce src fn)

end

-- Each class that is declared inside of another one has a new name, so that the nesting is no
-- deeper than twice the number of types.
def Source.depth : Nat :=
  2 * src.ssa.types.length + 4

def useClass (t : Nat) (st : State) : Except Error State :=
  declareClass src src.depth t st

def useMethod (fn : Nat) (st : State) : Except Error State :=
  declareMethod src src.depth fn st

def declareMember (st : State) : Ssa.Member → Except Error State
  | .function _ fn => useMethod src fn st
  | .type _ t => if src.ssa.isNamed t then useClass src t st else .ok st
  | .other _ => .ok st

def declarePackage (st : State) (pkg : Nat) : Except Error State := do
  let p := src.ssa.package pkg
  p.members.foldlM (declareMember src) (← st.ensureClass p.path)

end PointsTo.Lowering
