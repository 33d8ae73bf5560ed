import PointsTo.Analysis.Constants
import PointsTo.Analysis.Facts
import PointsTo.Targets

namespace PointsTo.Analysis

structure Finding where
  object : Option Int := none
  targets : List Method := []

-- A callee that returns its receiver, and of whose result nothing is known yet, returns what the
-- base of the call points to.
def Facts.returned (f : Facts) (call : Invoke) (callee : Method) : ObjectSet :=
  if call.result.isNone then ∅
  else
    let known := ObjectSet.unionAll (callee.returned.map f.points.get)
    match call.base with
    | some base =>
      if known.isEmpty && !call.isStatic && callee.returnsReceiver then f.points.get base else known
    | none => known

namespace Update

def bindReceiver (u : Update) (call : Invoke) (callee : Method) : Update :=
  match callee.receiver, call.base with
  | some receiver, some base => u.flow receiver base
  | _, _ => u

def bindParams (u : Update) (call : Invoke) (callee : Method) : Update :=
  (callee.params.zip call.args).foldl (fun u (param, arg) => u.flow param arg) u

-- The results of each callee are those at the moment when its variables have been bound.
def callAll (call : Invoke) (u : Update) (results : ObjectSet) : List Method → Update × ObjectSet
  | [] => (u, results)
  | callee :: rest =>
    let u := (u.bindReceiver call callee).bindParams call callee
    callAll call u (results.union (u.facts.returned call callee)) rest

end Update

namespace Facts

def invoke (f : Facts) (call : Invoke) (targets : List Method) : Update :=
  let (u, results) := Update.callAll call ⟨f, false⟩ ∅ (targets.filter Method.hasBody)
  match call.result with
  | some v => u.point v results
  | none => u

def receivers (f : Facts) (call : Invoke) : ObjectSet :=
  match call.base with
  | some v => f.points.get v
  | none => ∅

def step (cs : Constants) (f : Facts) (found : Finding) : Stmt → Update
  | .alloc _ lhs _ => match found.object with
    | some id => Update.point ⟨f, false⟩ lhs (.ofList [id])
    | none => ⟨f, false⟩
  | .copy lhs rhs => Update.flow ⟨f, false⟩ lhs rhs
  | .cast lhs rhs _ => Update.flow ⟨f, false⟩ lhs rhs
  | .loadField lhs base field =>
    Update.point ⟨f, false⟩ lhs (f.load (f.owners base field) (.field field.name))
  | .storeField base field rhs =>
    Update.putAll ⟨f, false⟩ (f.owners base field) (.field field.name) (f.points.get rhs)
  | .loadArray lhs base index =>
    Update.point ⟨f, false⟩ lhs (f.loadElement (f.points.get base).toList (cs.key index))
  | .storeArray base index rhs =>
    Update.putAll ⟨f, false⟩ (f.points.get base).toList (cs.key index) (f.points.get rhs)
  | .invoke call => f.invoke call found.targets
  | .literal .. | .ret _ | .branch _ | .jump | .throw _ | .nop _ => ⟨f, false⟩

end Facts
end PointsTo.Analysis
