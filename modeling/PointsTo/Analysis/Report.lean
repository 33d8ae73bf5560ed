import PointsTo.Analysis.Settings

namespace PointsTo.Analysis

structure Result where
  queries : List (Int × List Int)
  reachable : List Method
  sweeps : Nat
  converged : Bool
  capped : Nat
  facts : Facts
  graph : CallGraph Method
  events : List Event

def Facts.answers (f : Facts) (o : Objects) : List (Int × List Int) :=
  o.queryIds.map fun id => (id, match o.query? id with
    | some v => (f.points.get v).observable
    | none => [])

def Problem.run (p : Problem) : Result :=
  let o := p.solve
  { queries := o.state.facts.answers p.scene.objects
    reachable := o.state.discovered
    sweeps := o.sweeps
    converged := o.converged
    capped := o.state.capped
    facts := o.state.facts
    graph := o.state.graph
    events := o.state.events.reverse }

def analyze (s : Settings) : Except SettingsError Result :=
  s.problem.map Problem.run

namespace Result

variable (r : Result)

def queryLine (query : Int × List Int) : String :=
  toString query.1 ++ " : " ++ ObjectSet.joinIds query.2 ++ "\n"

def text : String :=
  String.join (r.queries.map queryLine)

def written : String × Nat :=
  r.queries.foldl
    (fun (out, bytes) query => (out ++ queryLine query, bytes + (queryLine query).utf8ByteSize))
    ("", 0)

def log (level : Log.Level) : List Log.Entry :=
  (r.events.map Event.entry).filter fun e => level.keeps e.level

def varText (p : Program) (v : Var) : String :=
  let method := match v.owner.bind p.method? with
    | some m => m.text
    | none => absentText
  method ++ "/" ++ v.text

def varLines (p : Program) : List String :=
  let lines := r.facts.points.entries.map fun (v, ids) => varText p v ++ " -> " ++ ids.text
  lines.mergeSort fun a b => a ≤ b

def slotLines : List String :=
  (Fields.objects r.facts.fields).flatMap fun o =>
    (Fields.keysOf r.facts.fields o).map fun key =>
      toString o ++ "." ++ key.text ++ " -> " ++ (r.facts.fields.get ⟨o, key⟩).text

def dump (p : Program) : String :=
  String.join ((r.varLines p ++ r.slotLines).map (· ++ "\n"))

end Result
end PointsTo.Analysis
