import PointsTo.Analysis.Transfer
import PointsTo.Analysis.Worklist
import PointsTo.CallGraph
import PointsTo.Log

namespace PointsTo.Analysis

structure Problem where
  program : Program
  scene : Scene
  -- Without entries, all methods with a body are analysed.
  entries : List Method
  maxSweeps : Nat
  maxSteps : Nat
  links : Memo (Link.ofScene scene) :=
    .of (Link.ofRef scene (.mk fun _ => scene.classes)) program.references

def Problem.finding (p : Problem) (f : Facts) : Stmt → Finding
  | .alloc site _ _ => { object := p.scene.objects.id? site }
  | .invoke call => { targets := p.scene.targets call (f.receivers call) }
  | _ => {}

-- What a statement refers to does not depend on the facts. It is looked up once for each visit, and
-- only the rest (`Linked.finding`) at each step.
structure Linked where
  stmt : Stmt
  object : Option Int := none
  link : Option Link := none

namespace Linked

def ofStmt (p : Problem) (s : Stmt) : Linked :=
  match s with
  | .alloc site _ _ => { stmt := s, object := p.scene.objects.id? site }
  | .invoke call => { stmt := s, link := some (p.links.apply call.method) }
  | _ => { stmt := s }

def finding (l : Linked) (f : Facts) : Finding where
  object := l.object
  targets := match l.stmt, l.link with
    | .invoke call, some link => link.targets call.kind (f.receivers call)
    | _, _ => []

@[simp] theorem stmt_ofStmt (p : Problem) (s : Stmt) : (ofStmt p s).stmt = s := by
  cases s <;> rfl

end Linked

inductive Event where
  | swept (sweep methods : Nat) (grown : Bool)
  | changed (m : Method) (s : Stmt)
  | unnumbered (m : Method) (s : Stmt)
  | stepLimit (m : Method)
  | sweepLimit (sweeps : Nat)

namespace Event

def level : Event → Log.Level
  | swept .. => .debug
  | changed .. => .trace
  | unnumbered .. | stepLimit _ | sweepLimit _ => .warning

def message : Event → String
  | swept sweep methods grown =>
    "Sweep " ++ toString sweep ++ " over " ++ toString methods ++ " methods: changed=" ++
      (if grown then "true" else "false")
  | changed m s => m.text ++ ": " ++ s.text
  | unnumbered m s => "Allocation without an object id: " ++ s.text ++ " in " ++ m.text
  | stepLimit m => "Step limit reached in " ++ m.text ++ "; continuing with the next method"
  | sweepLimit n => "Stopped after " ++ toString n ++ " sweeps without reaching a fixed point"

def entry (e : Event) : Log.Entry where
  level := e.level
  component := some "pta"
  message := e.message

end Event

structure State where
  facts : Facts := ∅
  graph : CallGraph Method := {}
  -- In the order of their discovery; `fresh` are those discovered since the sweep began.
  swept : List Method := []
  fresh : List Method := []
  capped : Nat := 0
  -- Latest first.
  events : List Event := []

namespace State

def discovered (st : State) : List Method :=
  st.swept ++ st.fresh

def discover (st : State) (m : Method) : State :=
  if m ∈ st.swept ∨ m ∈ st.fresh then st else { st with fresh := st.fresh ++ [m] }

def report (st : State) (e : Event) : State :=
  { st with events := e :: st.events }

-- There is nothing to do if all are being swept, in their order.
def discoverAll (st : State) (ms : List Method) : State :=
  if ms.isSublist st.swept then st else ms.foldl discover st

theorem discoverAll_eq (st : State) (ms : List Method) :
    st.discoverAll ms = ms.foldl discover st := by
  unfold discoverAll
  split
  case isTrue h =>
    have known : ∀ m ∈ ms, m ∈ st.swept := (List.isSublist_iff_sublist.mp h).subset
    clear h
    induction ms with
    | nil => rfl
    | cons m rest ih =>
      have hm : st.discover m = st := if_pos (Or.inl (known m List.mem_cons_self))
      rw [List.foldl_cons, hm]
      exact ih fun b hb => known b (List.mem_cons_of_mem _ hb)
  case isFalse => rfl

-- When the analysis started from entries, callees with a body are to be analysed too.
def recordCalls (p : Problem) (caller : Method) (st : State) (callees : List Method) : State :=
  let st := { st with graph := st.graph.addEdges caller callees }
  if p.entries.isEmpty then st else st.discoverAll (callees.filter Method.hasBody)

def note (p : Problem) (m : Method) (st : State) (found : Finding) : Stmt → State
  | .invoke _ => st.recordCalls p m found.targets
  | .alloc site lhs type => match found.object with
    | some _ => st
    | none => st.report (.unnumbered m (.alloc site lhs type))
  | _ => st

def step (p : Problem) (m : Method) (cs : Constants) (st : State) (l : Linked) : State × Bool :=
  let found := l.finding st.facts
  let u := st.facts.step cs found l.stmt
  let st := { st.note p m found l.stmt with facts := u.facts }
  (if u.grown then st.report (.changed m l.stmt) else st, u.grown)

-- A visit processes the statements of a method in order, and the whole body again after each
-- statement that made a set larger.
def work (p : Problem) (m : Method) (body : List Linked) :
    (steps : Nat) → Worklist Linked → Constants → State → (changed : Bool) → State × Bool
  | 0, w, _, st, changed => match w.pop? body with
    | none => (st, changed)
    | some _ => ({ st with capped := st.capped + 1 }.report (.stepLimit m), changed)
  | steps + 1, w, cs, st, changed => match w.pop? body with
    | none => (st, changed)
    | some (l, w) =>
      let (st, grown) := st.step p m cs l
      work p m body steps (if grown then w.push else w) (cs.after l.stmt) st (changed || grown)

def visit (p : Problem) (st : State) (m : Method) : State × Bool :=
  if m.hasBody then
    let body := m.body.map (Linked.ofStmt p)
    work p m body p.maxSteps { rest := body } ∅ st false
  else (st, false)

def visitAll (p : Problem) : List Method → State → (changed : Bool) → State × Bool
  | [], st, changed => (st, changed)
  | m :: rest, st, changed =>
    let (st, grown) := st.visit p m
    visitAll p rest st (changed || grown)

-- A sweep visits the methods discovered before it. With entries, new methods count as a change.
def sweep (p : Problem) (st : State) : State × Bool :=
  let news := !p.entries.isEmpty && !st.fresh.isEmpty
  let methods := st.discovered
  visitAll p methods { st with swept := methods, fresh := [] } news

def start (p : Problem) : State :=
  let roots := if p.entries.isEmpty then p.program.methods.filter Method.hasBody else p.entries
  roots.foldl discover {}

end State

structure Outcome where
  state : State
  sweeps : Nat
  quiescent : Bool

def sweeps (p : Problem) : (left done : Nat) → State → Outcome
  | 0, done, st => { state := st.report (.sweepLimit done), sweeps := done, quiescent := false }
  | left + 1, done, st =>
    let (st, changed) := st.sweep p
    let st := st.report (.swept (done + 1) st.swept.length changed)
    if !changed && st.fresh.isEmpty then { state := st, sweeps := done + 1, quiescent := true }
    else sweeps p left (done + 1) st

def Problem.solve (p : Problem) : Outcome :=
  sweeps p p.maxSweeps 0 (State.start p)

-- The facts are a fixed point if the last sweep changed nothing and no visit was cut short.
def Outcome.converged (o : Outcome) : Bool :=
  o.quiescent && o.state.capped = 0

end PointsTo.Analysis
