import PointsTo.ObjectSet
import PointsTo.Program.Basic

namespace PointsTo

-- A call of `alloc` labels the next allocation of its method; a call of `test` asks what a variable
-- may point to.
structure Markers where
  owner : String := ""
  alloc : String := ""
  test : String := ""
deriving DecidableEq

namespace Markers

def standard : Markers where
  owner := "Benchmark"
  alloc := "alloc"
  test := "test"

def orStandard (mk : Markers) : Markers where
  owner := if mk.owner = "" then standard.owner else mk.owner
  alloc := if mk.alloc = "" then standard.alloc else mk.alloc
  test := if mk.test = "" then standard.test else mk.test

def isCall (mk : Markers) (name : String) (call : Invoke) : Bool :=
  call.isStatic && call.method.owner = mk.owner && call.method.name = name

end Markers

inductive Mark where
  | label (id : Int)
  | query (id : Int) (v : Var)
  | alloc (site : Site) (type : String)
  | none
deriving DecidableEq

namespace Markers

-- A label is a positive integer literal; a query is an integer literal and a variable. Any other
-- call of a marker method means nothing.
def mark (mk : Markers) : Stmt → Mark
  | .invoke call =>
    if mk.isCall mk.alloc call then
      match call.args with
      | arg :: _ => match arg.int64? with
        | some id => if 0 < id then .label id else .none
        | none => .none
      | [] => .none
    else if mk.isCall mk.test call then
      match call.args with
      | arg :: v :: _ => match arg.int64? with
        | some id => .query id v
        | none => .none
      | _ => .none
    else .none
  | .alloc site _ type => .alloc site type
  | _ => .none

-- The label of `pending` goes to the first allocation.
def labelled : (pending : Option Int) → List Mark → List (Site × String × Option Int)
  | _, [] => []
  | _, .label id :: rest => labelled (some id) rest
  | pending, .alloc site type :: rest => (site, type, pending) :: labelled none rest
  | pending, .query .. :: rest => labelled pending rest
  | pending, .none :: rest => labelled pending rest

def queries (marks : List Mark) : List (Int × Var) :=
  marks.filterMap fun
    | .query id v => some (id, v)
    | _ => none

end Markers

structure Allocation where
  site : Site
  id : Int
  type : String
deriving DecidableEq

-- Every allocation without a label gets the next number below `last`.
def Allocation.number : (last : Int) → List (Site × String × Option Int) → List Allocation
  | _, [] => []
  | last, (site, type, some id) :: rest => ⟨site, id, type⟩ :: number last rest
  | last, (site, type, none) :: rest => ⟨site, last - 1, type⟩ :: number (last - 1) rest

structure Objects where
  allocations : List Allocation := []
  queries : List (Int × Var) := []
deriving DecidableEq

namespace Objects

-- Labels do not carry over from one method to the next.
def ofMethods (methods : List Method) (markers : Markers) : Objects :=
  let mk := markers.orStandard
  let marks := (methods.filter Method.hasBody).map fun m => m.body.map mk.mark
  { allocations := Allocation.number 0 (marks.flatMap (Markers.labelled none))
    queries := marks.flatMap Markers.queries }

variable (o : Objects)

def id? (site : Site) : Option Int :=
  (o.allocations.find? (·.site = site)).map Allocation.id

-- Allocations may share a label; the type is that of the last one.
def type? (id : Int) : Option String :=
  (o.allocations.findRev? (·.id = id)).map Allocation.type

def ids : List Int :=
  (ObjectSet.ofList (o.allocations.map Allocation.id)).toList

theorem mem_ids_of_type? {id : Int} {type : String} (h : o.type? id = some type) : id ∈ o.ids := by
  obtain ⟨a, ha, _⟩ := Option.map_eq_some_iff.mp h
  have hid := List.findRev?_eq_find?_reverse ▸ ha
  have : a.id = id := by simpa using List.find?_some hid
  have := List.mem_of_find?_eq_some hid
  exact ObjectSet.mem_ofList.mpr (List.mem_map.mpr ⟨a, by simpa using this, by assumption⟩)

def query? (id : Int) : Option Var :=
  (o.queries.findRev? (·.1 = id)).map Prod.snd

def queryIds : List Int :=
  (ObjectSet.ofList (o.queries.map Prod.fst)).toList

end Objects

def Program.objects (p : Program) (markers : Markers) : Objects :=
  .ofMethods p.methods markers

end PointsTo
