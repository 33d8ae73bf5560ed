import PointsTo.Fields
import PointsTo.Program.Method

namespace PointsTo.Analysis

@[ext]
structure Facts where
  points : Store Var := ∅
  fields : Fields := ∅

namespace Facts

instance : EmptyCollection Facts := ⟨{}⟩

instance : Inhabited Facts := ⟨∅⟩

-- Without a base, the field belongs to the owner of the static fields.
def owners (f : Facts) (base : Option Var) (field : FieldRef) : List Int :=
  match base with
  | some v => (f.points.get v).toList
  | none => [Slot.staticOwner field.owner]

def load (f : Facts) (owners : List Int) (key : FieldKey) : ObjectSet :=
  .unionAll (owners.map fun o => f.fields.get ⟨o, key⟩)

-- The wildcard reads every element.
def loadElement (f : Facts) (owners : List Int) (key : FieldKey) : ObjectSet :=
  if key = .anyIndex then .unionAll (owners.map (Fields.elements f.fields))
  else f.load owners key

end Facts

@[ext]
structure Update where
  facts : Facts
  grown : Bool := false

namespace Update

def point (u : Update) (v : Var) (ids : ObjectSet) : Update :=
  if u.facts.points.grows v ids then
    { facts := { u.facts with points := u.facts.points.addAll v ids }, grown := true }
  else u

def flow (u : Update) (v w : Var) : Update :=
  u.point v (u.facts.points.get w)

def put (u : Update) (slot : Slot) (ids : ObjectSet) : Update :=
  if u.facts.fields.grows slot ids then
    { facts := { u.facts with fields := u.facts.fields.addAll slot ids }, grown := true }
  else u

def putAll (u : Update) (owners : List Int) (key : FieldKey) (ids : ObjectSet) : Update :=
  owners.foldl (fun u o => u.put ⟨o, key⟩ ids) u

end Update
end PointsTo.Analysis
