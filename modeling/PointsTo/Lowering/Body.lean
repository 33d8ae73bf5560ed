import PointsTo.Lowering.Declarations

namespace PointsTo.Lowering

structure Body where
  shared : State
  method : Method
  locals : List (Nat × Var) := []

abbrev Build := StateT Body (Except Error)

namespace Build

variable (src : Source)

def emit (s : Stmt) : Build Unit :=
  modify fun b => { b with method := b.method.emit s }

def invoke (call : Invoke) : Build Unit := fun b =>
  match b.method.emitInvoke call with
  | .ok method => .ok ((), { b with method })
  | .error e => .error (.receiverMismatch e)

def updateShared (f : State → State) : Build Unit :=
  modify fun b => { b with shared := f b.shared }

def declare (f : State → Except Error State) : Build Unit := fun b => do
  let shared ← f b.shared
  return ((), { b with shared })

def newVar (name type : String) (const : Option Literal := none) : Build Var :=
  modifyGet fun b =>
    (b.method.nextVar name type const, { b with method := b.method.addVar name type const })

def setLocal (v : Nat) (x : Var) : Build Unit :=
  modify fun b => { b with locals := (v, x) :: b.locals }

def bind (v : Nat) (x : Var) : Build Unit := do
  setLocal v x
  updateShared fun st => { st with vars := (v, x) :: st.vars }

def globalField (g : Nat) : FieldRef :=
  let value := src.ssa.value g
  let path := match value.kind with
    | .global pkg => (src.ssa.package pkg).path
    | _ => ""
  ⟨path, value.name⟩

-- A global is loaded into a variable where it is first used.
def freshValue (v : Nat) : Build Var := do
  let val := src.ssa.value v
  let type := src.ssa.typeText val.type
  match val.kind with
  | .const c =>
    let x ← newVar val.name type c
    setLocal v x
    return x
  | .global _ =>
    let x ← newVar val.name type
    updateShared (·.useGlobal v)
    setLocal v x
    emit (.loadField x none (globalField src v))
    return x
  | .function _ | .builtin =>
    let x ← newVar val.name type
    setLocal v x
    return x
  | .param | .freevar | .reg =>
    let x ← newVar val.name type
    bind v x
    return x

def value (v : Nat) : Build Var := do
  match (← get).locals.lookup v with
  | some x => return x
  | none => freshValue src v

def values (vs : List Nat) : Build (List Var) :=
  vs.mapM (value src)

def temp (v : Nat) : Build Var :=
  newVar "%tmp" (src.ssa.typeText (src.ssa.typeOf v))

def copy (v x : Nat) : Build Unit := do
  let lhs ← value src v
  emit (.copy lhs (← value src x))

def alloc (v t : Nat) : Build Unit := do
  if src.ssa.isNamed t then declare (useClass src t)
  let lhs ← value src v
  modify fun b => { b with method := b.method.emitAlloc lhs (src.ssa.typeText t) }

def pointee (addr : Nat) : FieldRef :=
  ⟨src.ssa.typeText (src.ssa.deref (src.ssa.typeOf addr)), "*"⟩

def channel (c : Nat) : FieldRef :=
  ⟨src.ssa.typeText (src.ssa.typeOf c), "<-"⟩

def structField (t field : Nat) : FieldRef :=
  ⟨src.ssa.typeText t, src.ssa.fieldName t field⟩

def isAccess (a : Nat) : Ssa.Instr → Bool
  | .store addr x => addr = a && x ≠ a
  | .load .. | .debugRef _ => true
  | _ => false

-- An address is fused with its uses if all of them load or store through it: they can access the
-- part itself. The address of a struct or an array is never fused.
def isFused (body : List Ssa.Instr) (a : Nat) : Bool :=
  !src.ssa.isAggregate (src.ssa.deref (src.ssa.typeOf a)) &&
    (body.filter (a ∈ ·.operands)).all (isAccess a)

def definition? (body : List Ssa.Instr) (v : Nat) : Option Ssa.Instr :=
  body.find? (·.result? = some v)

inductive Part where
  | field (base : Nat) (ref : FieldRef)
  | element (base index : Nat)

def fusedPart? (body : List Ssa.Instr) (addr : Nat) : Option Part :=
  match definition? body addr with
  | some (.fieldAddr _ x field) =>
    if isFused src body addr then
      some (.field x (structField src (src.ssa.deref (src.ssa.typeOf x)) field))
    else none
  | some (.indexAddr _ x index) => if isFused src body addr then some (.element x index) else none
  | _ => none

def load (body : List Ssa.Instr) (v addr : Nat) : Build Unit := do
  let lhs ← value src v
  match fusedPart? src body addr with
  | some (.field x ref) => emit (.loadField lhs (← value src x) ref)
  | some (.element x index) =>
    let base ← value src x
    emit (.loadArray lhs base (← value src index))
  | none =>
    let base ← value src addr
    if src.ssa.isAggregate (src.ssa.typeOf v) then emit (.copy lhs base)
    else emit (.loadField lhs base (pointee src addr))

def store (body : List Ssa.Instr) (addr x : Nat) : Build Unit := do
  let rhs ← value src x
  match fusedPart? src body addr with
  | some (.field base ref) => emit (.storeField (← value src base) ref rhs)
  | some (.element base index) =>
    let base ← value src base
    emit (.storeArray base (← value src index) rhs)
  | none =>
    let base ← value src addr
    if src.ssa.isAggregate (src.ssa.typeOf x) then emit (.copy base rhs)
    else emit (.storeField base (pointee src addr) rhs)

def commonLiteral? (vs : List Nat) : Option Literal := do
  let literals ← vs.mapM fun v => match (src.ssa.value v).kind with
    | .const c => c
    | _ => none
  match literals with
  | [] => none
  | c :: rest => if rest.all c.same then some c else none

def elements (dst : Var) (x : Nat) : Build Unit := do
  let tmp ← temp src x
  emit (.loadArray tmp (← value src x) none)
  emit (.storeArray dst none tmp)

def append (lhs : Var) (x : Nat) : List Nat → Build Unit
  | [] => do emit (.copy lhs (← value src x))
  | y :: _ => do
    emit (.copy lhs (← value src x))
    -- Loads with a literal index also see the elements of the appended slice.
    if src.ssa.underlyingKind (src.ssa.typeOf y) = .slice then emit (.copy lhs (← value src y))
    elements src lhs y

def builtin (lhs : Option Var) (name : String) (args : List Nat) : Build Unit := do
  match name, args with
  | "append", x :: rest =>
    match lhs with
    | some lhs => append src lhs x rest
    | none => append src (← temp src x) x rest
  | "copy", x :: y :: _ => elements src (← value src x) y
  | "ssa:wrapnilchk", x :: _ =>
    if let some lhs := lhs then emit (.copy lhs (← value src x))
  | _, _ => pure ()

def methodRef (fn : Nat) : Build MethodRef := do
  declare (useMethod src fn)
  return match (← get).shared.method? fn with
    | some m => m.ref
    | none => ⟨"", ""⟩

-- The first argument of a method is its receiver.
def callFunction (result : Option Var) (fn : Nat) (args : List Nat) : Build Unit := do
  if src.isMarker fn then
    let ref := ⟨src.markers.owner, (src.ssa.function fn).name⟩
    invoke ⟨result, .static, ref, none, ← values src args⟩
  else
    let ref ← methodRef src fn
    match (src.ssa.function fn).recv, args with
    | some _, receiver :: rest =>
      let base ← value src receiver
      invoke ⟨result, .special, ref, some base, ← values src rest⟩
    | _, args => invoke ⟨result, .static, ref, none, ← values src args⟩

def callInto (result : Option Var) (c : Ssa.Call) : Build Unit := do
  let callee := src.ssa.value c.value
  match c.method, callee.kind with
  | some name, _ =>
    declare (useClass src callee.type)
    let base ← value src c.value
    let args ← values src c.args
    invoke ⟨result, .interface, ⟨src.ssa.typeText callee.type, name⟩, some base, args⟩
  | none, .builtin => builtin src result callee.name c.args
  | none, .function fn => callFunction src result fn c.args
  | none, _ => emit (.nop c.text)

def call (v : Option Nat) (c : Ssa.Call) : Build Unit := do
  callInto src (← v.mapM (value src)) c

-- What pointers point to, elements and the contents of channels are fields: `*p` is the field `*`,
-- `x.f` the field `f`, `a[i]` and `m[k]` are elements, `<-ch` is the field `<-`. Structs and arrays
-- are identified with the objects that they were loaded from. Function values are not modelled.
def instr (body : List Ssa.Instr) : Ssa.Instr → Build Unit
  | .alloc v => alloc src v (src.ssa.deref (src.ssa.typeOf v))
  | .make v _ => alloc src v (src.ssa.typeOf v)
  | .makeInterface v x =>
    let t := src.ssa.typeOf x
    if src.ssa.isReference t || src.ssa.isAggregate t then copy src v x else alloc src v t
  | .load v addr => load src body v addr
  | .receive v c => do
    let lhs ← value src v
    emit (.loadField lhs (← value src c) (channel src c))
  | .send c x => do
    let base ← value src c
    emit (.storeField base (channel src c) (← value src x))
  | .store addr x => store src body addr x
  | .fieldAddr v x _ | .indexAddr v x _ => if isFused src body v then pure () else copy src v x
  | .field v x field =>
    if src.ssa.isAggregate (src.ssa.typeOf v) then copy src v x
    else do
      let lhs ← value src v
      emit (.loadField lhs (← value src x) (structField src (src.ssa.typeOf x) field))
  | .index v x index =>
    if src.ssa.isAggregate (src.ssa.typeOf v) then copy src v x
    else do
      let lhs ← value src v
      let base ← value src x
      emit (.loadArray lhs base (← value src index))
  | .lookup v x index =>
    if src.ssa.underlyingKind (src.ssa.typeOf x) = .map then do
      let lhs ← value src v
      let base ← value src x
      emit (.loadArray lhs base (← value src index))
    else pure ()
  | .mapUpdate map key x => do
    let base ← value src map
    let index ← value src key
    emit (.storeArray base index (← value src x))
  | .next v iter isString =>
    if isString then pure ()
    else do
      let lhs ← value src v
      emit (.loadArray lhs (← value src iter) none)
  | .phi v edges => do
    let lhs ← value src v
    match commonLiteral? src edges with
    | some c => emit (.literal lhs c)
    | none => edges.forM fun e => do emit (.copy lhs (← value src e))
  | .convert v x _ => copy src v x
  | .typeAssert v x asserted => do
    let lhs ← value src v
    emit (.cast lhs (← value src x) (src.ssa.typeText asserted))
  | .call v c => call src v c
  | .ret [] => emit (.ret none)
  | .ret results => results.forM fun r => do emit (.ret (← value src r))
  | .branch cond => do emit (.branch (← value src cond))
  | .jump => emit .jump
  | .panic x => do emit (.throw (← value src x))
  | .debugRef _ | .other .. => pure ()

def paramPairs (m : Method) (params : List Nat) : List (Nat × Var) :=
  match m.receiver, params with
  | some receiver, first :: rest => (first, receiver) :: rest.zip m.params
  | _, params => params.zip m.params

def function (f : Ssa.Function) : Build Unit := do
  (paramPairs (← get).method f.params).forM fun (v, x) => bind v x
  f.blocks.flatten.forM (instr src f.blocks.flatten)

end Build

def lowerBody (src : Source) (fn : Nat) (st : State) : Except Error State :=
  match st.method? fn with
  | none => .ok st
  | some m => do
    let (_, b) ← (Build.function src (src.ssa.function fn)).run { shared := st, method := m }
    return { b.shared with program := b.shared.program.modifyMethod m.id fun _ => b.method }

end PointsTo.Lowering
