import PointsTo.Lowering.Body

namespace PointsTo.Lowering

structure Result where
  program : Program
  -- The functions that the program starts with, and the methods that allocate globals.
  starts : List (Option Method)
  methods : List (Nat × Nat)
  vars : List (Nat × Var)

namespace Result

def entries (r : Result) : List Method :=
  r.starts.filterMap id

def method? (r : Result) (fn : Nat) : Option Method :=
  (r.methods.lookup fn).bind r.program.method?

def var? (r : Result) (v : Nat) : Option Var :=
  r.vars.lookup v

end Result

-- Bodies may put further functions in the queue. No function is in it twice, so there are at most
-- as many bodies as functions.
def lowerBodies (src : Source) : (fuel : Nat) → State → Except Error State
  | 0, _ => .error .unfinished
  | fuel + 1, st =>
    match st.queue with
    | [] => .ok st
    | fn :: rest => do lowerBodies src fuel (← lowerBody src fn { st with queue := rest })

def globalsName : String := "<globals>"

-- A global is a static field that holds the address of its cell.
def addCell (src : Source) (m : Method) (g : Nat) : Method :=
  let v := src.ssa.value g
  let type := src.ssa.typeText v.type
  let name := "&" ++ v.name
  let x := m.nextVar name type
  ((m.addVar name type).emitAlloc x (src.ssa.typeText (src.ssa.deref v.type))).emit
    (.storeField none (Build.globalField src g) x)

def globalsMethod (src : Source) (path : String) (globals : List Nat) (st : State) : Method :=
  (globals.foldl (addCell src)
    (st.nextMethod path globalsName { isStatic := true } globalsName)).emit (.ret none)

def packageOf (ssa : Ssa.Program) (g : Nat) : Option Nat :=
  match (ssa.value g).kind with
  | .global pkg => some pkg
  | _ => none

def lowerGlobals (src : Source) (st : State) (pkg : Nat) : Except Error State := do
  let path := (src.ssa.package pkg).path
  let st ← st.ensureClass path
  let globals := st.globals.filter fun g => packageOf src.ssa g = some pkg
  return st.insertMethod path (globalsMethod src path globals st)

def byPath (ssa : Ssa.Program) (pkgs : List Nat) : List Nat :=
  pkgs.mergeSort fun a b => (ssa.package a).path ≤ (ssa.package b).path

def usedPackages (src : Source) (st : State) : List Nat :=
  byPath src.ssa (st.globals.filterMap (packageOf src.ssa)).eraseDups

def withMarkers (mk : Markers) (st : State) : Except Error State := do
  let st ← st.addClass { name := mk.owner }
  return [mk.alloc, mk.test].foldl
    (fun st name => st.addMethod mk.owner name { isStatic := true, isNative := true }) st

def declareAll (src : Source) : Except Error State := do
  (byPath src.ssa src.ssa.roots).foldlM (declarePackage src) (← withMarkers src.markers {})

def mains (ssa : Ssa.Program) : List Nat :=
  ssa.roots.filter fun pkg => (ssa.package pkg).isMain

def startFunctions (ssa : Ssa.Program) : List Nat :=
  (mains ssa).flatMap fun pkg => ["init", "main"].filterMap (ssa.package pkg).function?

-- The globals in use are known after all bodies, so the methods that allocate them come last.
def finish (src : Source) (st : State) : Except Error Result := do
  let used := usedPackages src st
  let count := st.program.methods.length
  let done ← used.foldlM (lowerGlobals src) st
  return {
    program := done.program
    starts := (startFunctions src.ssa).map done.method? ++
      (List.range' count used.length).map done.program.method?
    methods := done.methods
    vars := done.vars }

def source (ssa : Ssa.Program) (markers : Markers) : Source where
  ssa
  markers := markers.orStandard

def lower (ssa : Ssa.Program) (markers : Markers) : Except Error Result :=
  if (mains ssa).isEmpty then .error .noMainPackage
  else do
    let st ← declareAll (source ssa markers)
    let st ← lowerBodies (source ssa markers) (ssa.functions.length + 1) st
    finish (source ssa markers) st

end PointsTo.Lowering
