import Mathlib.Logic.Function.Basic
import Mathlib.Logic.Relation
import PointsTo.Proofs.Run

namespace PointsTo.Analysis

-- An object at run time, with the allocation that created it.
structure Object where
  serial : Nat
  site   : Site
  type   : String
deriving DecidableEq

structure Activation where
  method : Method
  vars   : Var → Option Object := fun _ => none
  -- The calling activation and the variable that takes the result.
  caller : Option (Nat × Option Var) := none

structure World where
  activations : List Activation := []
  fields      : Object → String → Option Object := fun _ _ => none
  statics     : String → String → Option Object := fun _ _ => none
  -- An element is kept together with the key that it was stored with.
  elements    : Object → Int → Option (FieldKey × Object) := fun _ _ => none
  created     : Nat := 0

-- What executions are restricted to.
structure Discipline where
  -- The allocations that are executed.
  Creates    : Site → Prop
  -- The objects that calls are dispatched on.
  Dispatches : Object → Prop
  -- Whether an access with the first key reads what was stored with the second.
  Reads      : FieldKey → FieldKey → Prop

def Discipline.free : Discipline where
  Creates _    := True
  Dispatches _ := True
  Reads _ _    := True

-- Allocations have a number, calls are dispatched on objects whose number has their type, and an
-- access with a known index reads what was stored with that index.
def Problem.discipline (p : Problem) : Discipline where
  Creates site := ∃ id, p.scene.objects.id? site = some id
  Dispatches o :=
    ∃ id, p.scene.objects.id? o.site = some id ∧ p.scene.objects.type? id = some o.type
  Reads        := FieldKey.Reads

namespace World

-- Activation `i`, which is `a`, may execute `s`, which comes after `pre` in its body. Branches are
-- not modelled: any statement may be next, and an activation goes on after it has returned. Both
-- only add executions.
def Executes (w : World) (i : Nat) (a : Activation) (pre : List Stmt) (s : Stmt) : Prop :=
  w.activations[i]? = some a ∧ ∃ post, a.method.body = pre ++ s :: post

def assign (w : World) (i : Nat) (v : Var) (x : Option Object) : World :=
  { w with
    activations := w.activations.modify i fun a => { a with vars := Function.update a.vars v x } }

def storeField (w : World) (o : Object) (name : String) (x : Option Object) : World :=
  { w with fields := Function.update w.fields o (Function.update (w.fields o) name x) }

def storeStatic (w : World) (owner name : String) (x : Option Object) : World :=
  { w with statics := Function.update w.statics owner (Function.update (w.statics owner) name x) }

def storeElement (w : World) (o : Object) (j : Int) (x : Option (FieldKey × Object)) : World :=
  { w with elements := Function.update w.elements o (Function.update (w.elements o) j x) }

def start (w : World) (a : Activation) : World :=
  { w with activations := w.activations ++ [a] }

end World

-- The variables of a callee when it starts.
def passed (call : Invoke) (callee : Method) (vars : Var → Option Object) : Var → Option Object :=
  let env := match callee.receiver, call.base with
    | some v, some b => Function.update (fun _ => none) v (vars b)
    | _, _ => fun _ => none
  let pairs := callee.params.zip call.args
  pairs.foldl (fun env pa => Function.update env pa.1 (vars pa.2)) env

-- A direct call starts the declared method. Any other call starts what the class of the receiver
-- makes of it.
def Starts (p : Problem) (d : Discipline) (call : Invoke) (vars : Var → Option Object)
    (callee : Method) : Prop :=
  ∃ declared, p.scene.hierarchy.resolve call.method = some declared ∧ declared.isNative = false ∧
    if call.kind.isDirect then declared.isAbstract = false ∧ callee = declared
    else ∃ base o k, call.base = some base ∧ vars base = some o ∧ d.Dispatches o ∧
      p.scene.hierarchy.class? o.type = some k ∧
      p.scene.hierarchy.dispatch k declared.subsignature = some callee ∧ callee.isNative = false

inductive Step (p : Problem) (d : Discipline) (w : World) : World → Prop
  | alloc {i a pre site lhs type} : w.Executes i a pre (.alloc site lhs type) → d.Creates site →
    Step p d w ({ w with created := w.created + 1 }.assign i lhs (some ⟨w.created, site, type⟩))
  | literal {i a pre lhs value} : w.Executes i a pre (.literal lhs value) →
    Step p d w (w.assign i lhs none)
  | copy {i a pre lhs rhs} : w.Executes i a pre (.copy lhs rhs) →
    Step p d w (w.assign i lhs (a.vars rhs))
  | cast {i a pre lhs rhs type} : w.Executes i a pre (.cast lhs rhs type) →
    Step p d w (w.assign i lhs (a.vars rhs))
  | loadField {i a pre lhs base field o} : w.Executes i a pre (.loadField lhs (some base) field) →
    a.vars base = some o → Step p d w (w.assign i lhs (w.fields o field.name))
  | loadStatic {i a pre lhs field} : w.Executes i a pre (.loadField lhs none field) →
    Step p d w (w.assign i lhs (w.statics field.owner field.name))
  | storeField {i a pre base field rhs o} : w.Executes i a pre (.storeField (some base) field rhs) →
    a.vars base = some o → Step p d w (w.storeField o field.name (a.vars rhs))
  | storeStatic {i a pre field rhs} : w.Executes i a pre (.storeField none field rhs) →
    Step p d w (w.storeStatic field.owner field.name (a.vars rhs))
  | loadArray {i a pre lhs base index o} (j : Int) :
    w.Executes i a pre (.loadArray lhs base index) → a.vars base = some o →
    (∀ k x, w.elements o j = some (k, x) → d.Reads ((Constants.ofStmts pre).key index) k) →
    Step p d w (w.assign i lhs ((w.elements o j).map Prod.snd))
  | storeArray {i a pre base index rhs o} (j : Int) :
    w.Executes i a pre (.storeArray base index rhs) → a.vars base = some o →
    Step p d w (w.storeElement o j ((a.vars rhs).map ((Constants.ofStmts pre).key index, ·)))
  | invoke {i a pre call callee} : w.Executes i a pre (.invoke call) →
    Starts p d call a.vars callee → callee.hasBody →
    Step p d w (w.start
      { method := callee, vars := passed call callee a.vars, caller := some (i, call.result) })
  | ret {i a pre v j res} : w.Executes i a pre (.ret (some v)) → a.caller = some (j, some res) →
    Step p d w (w.assign j res (a.vars v))

-- Executions start from activations of roots with a body, with nothing set.
structure World.Initial (p : Problem) (w : World) : Prop where
  roots : ∀ a ∈ w.activations, a.method ∈ p.roots ∧ a.method.hasBody ∧ a = { method := a.method }
  unset : w = { activations := w.activations }

def World.Reachable (p : Problem) (d : Discipline) (w : World) : Prop :=
  ∃ w₀ : World, w₀.Initial p ∧ Relation.ReflTransGen (Step p d) w₀ w

end PointsTo.Analysis
