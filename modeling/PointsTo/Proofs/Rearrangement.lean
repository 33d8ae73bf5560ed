import PointsTo.Proofs.Correspondence
import PointsTo.Proofs.LeastSolution

namespace PointsTo

-- The same statements for each method and the same methods for each class, in any order and any
-- number of times. A method that is found by its subsignature is found again.
structure Rearrangement where
  body        : Method → List Stmt
  methods     : Class → List Method
  mem_body    : ∀ {m s}, s ∈ body m ↔ s ∈ m.body
  mem_methods : ∀ {c m}, m ∈ methods c ↔ m ∈ c.methods
  first       : ∀ c sub, (methods c).find? (·.subsignature = sub) = c.method? sub

namespace Rearrangement

-- Permutations of the statements of each method.
def ofPerm (body : Method → List Stmt) (perm : ∀ m, (body m).Perm m.body) : Rearrangement where
  body
  methods     := Class.methods
  mem_body    := (perm _).mem_iff
  mem_methods := Iff.rfl
  first _ _   := rfl

variable (o : Rearrangement)

def method (m : Method) : Method :=
  { m with body := o.body m }

def classOf (c : Class) : Class :=
  { c with methods := (o.methods c).map o.method }

variable {o} {m : Method} {c : Class}

@[simp]
theorem isNative_method : (o.method m).isNative = m.isNative :=
  rfl

@[simp]
theorem isAbstract_method : (o.method m).isAbstract = m.isAbstract :=
  rfl

theorem mem_body_method {s : Stmt} : s ∈ (o.method m).body ↔ s ∈ m.body :=
  o.mem_body

@[simp]
theorem hasBody_method : (o.method m).hasBody = m.hasBody := by
  have : (o.body m).isEmpty = m.body.isEmpty := by
    rw [Bool.eq_iff_iff]
    simp [List.isEmpty_iff, List.eq_nil_iff_forall_not_mem, o.mem_body]
  simp [Method.hasBody, show (o.method m).body = o.body m from rfl, this]

theorem mem_returned_method {v : Var} : v ∈ (o.method m).returned ↔ v ∈ m.returned := by
  simp only [Method.returned, List.mem_filterMap, mem_body_method]

theorem mem_methods_classOf {m' : Method} :
    m' ∈ (o.classOf c).methods ↔ ∃ m ∈ c.methods, o.method m = m' := by
  simp [classOf, o.mem_methods]

theorem method?_classOf (sub : String) :
    (o.classOf c).method? sub = (c.method? sub).map o.method := by
  rw [← o.first c sub]
  exact List.find?_map ..

end Rearrangement

def Program.rearrange (o : Rearrangement) (p : Program) : Program where
  classes := p.classes.map o.classOf

theorem Program.class?_rearrange (o : Rearrangement) (p : Program) (name : String) :
    (p.rearrange o).class? name = (p.class? name).map o.classOf :=
  List.find?_map ..

-- The classes stand in another order, too, but a name still denotes the same class.
structure Hierarchy.Rearranged (o : Rearrangement) (h h' : Hierarchy) : Prop where
  classes : h'.program.classes.Perm (h.program.classes.map o.classOf)
  lookup  : ∀ name, h'.program.class? name = (h.program.class? name).map o.classOf
  visible : h'.visible = h.visible

namespace Hierarchy.Rearranged

variable {o : Rearrangement} {h h' : Hierarchy} {c : Class}

theorem mem_methods (r : Rearranged o h h') (m' : Method) :
    m' ∈ h'.program.methods ↔ ∃ m ∈ h.program.methods, o.method m = m' := by
  simp only [Program.methods, List.mem_flatMap, r.classes.mem_iff, List.mem_map,
    exists_exists_and_eq_and, Rearrangement.mem_methods_classOf]
  grind

theorem corresponds (r : Rearranged o h h') : h.Corresponds o.method o.classOf h' where
  names          := by
    have := r.classes.map Class.name
    rwa [List.map_map] at this
  lookup         := r.lookup
  visible        := r.visible
  super _        := rfl
  interfaces _   := rfl
  method? _      := Rearrangement.method?_classOf
  modifiers _    := rfl
  subsignature _ := rfl

end Hierarchy.Rearranged

namespace Analysis

variable {o : Rearrangement} {p p' : Problem} {F : Set Fact} {call : Invoke}

structure Problem.Rearranged (o : Rearrangement) (p p' : Problem) : Prop where
  hierarchy : p.scene.hierarchy.Rearranged o p'.scene.hierarchy
  objects   : p'.scene.objects = p.scene.objects
  entries   : ∀ m', m' ∈ p'.entries ↔ ∃ m ∈ p.entries, o.method m = m'

theorem passes_rearranged {callee : Method} :
    Passes F call (o.method callee) ↔ Passes F call callee := by
  have returned (w : Var) : w ∈ (o.method callee).returned ↔ w ∈ callee.returned :=
    Rearrangement.mem_returned_method
  constructor
  case mp =>
    intro h
    exact { h with result := fun v hv w hw => h.result v hv w ((returned w).mpr hw) }
  case mpr =>
    intro h
    exact { h with result := fun v hv w hw => h.result v hv w ((returned w).mp hw) }

-- The problem with other orders within methods and classes, be they what they may.
def Problem.rearrange (o : Rearrangement) (p : Problem) : Problem where
  program   := p.program.rearrange o
  scene     := { p.scene with
    hierarchy := { p.scene.hierarchy with program := p.scene.hierarchy.program.rearrange o } }
  entries   := p.entries.map o.method
  maxSweeps := p.maxSweeps
  maxSteps  := p.maxSteps

theorem Problem.rearranged_rearrange (o : Rearrangement) (p : Problem) :
    p.Rearranged o (p.rearrange o) where
  hierarchy := { classes := .refl _, lookup := Program.class?_rearrange o _, visible := rfl }
  objects   := rfl
  entries   := fun _ => List.mem_map

namespace Problem.Rearranged

theorem runs_eq (h : Rearranged o p p') (F : Set Fact) (call : Invoke) :
    p'.runs F call = o.method '' p.runs F call :=
  Scene.runs_corresponds h.hierarchy.corresponds (fun _ _ => by rw [h.objects]) call

theorem satisfies_iff (h : Rearranged o p p') {cs : Constants} {s : Stmt} :
    Satisfies p' F cs (p'.runs F) s ↔ Satisfies p F cs (p.runs F) s := by
  cases s
  case alloc       => simp only [Satisfies, h.objects]
  case invoke call => simp [Satisfies, h.runs_eq, passes_rearranged]
  all_goals rfl

end Problem.Rearranged

namespace Solution

-- The same solution, of methods with other orders.
def map (o : Rearrangement) (S : Solution) : Solution where
  facts   := S.facts
  reached := o.method '' S.reached
  calls   := { e | ∃ a b, (a, b) ∈ S.calls ∧ e = (o.method a, o.method b) }

def comap (o : Rearrangement) (S : Solution) : Solution where
  facts   := S.facts
  reached := { m | o.method m ∈ S.reached }
  calls   := { e | (o.method e.1, o.method e.2) ∈ S.calls }

theorem map_le_iff {S T : Solution} : S.map o ≤ T ↔ S ≤ T.comap o := by
  constructor
  case mp =>
    intro ⟨hf, hr, hc⟩
    exact ⟨hf, fun m hm => hr ⟨m, hm, rfl⟩, fun e he => hc ⟨e.1, e.2, he, rfl⟩⟩
  case mpr =>
    intro ⟨hf, hr, hc⟩
    refine ⟨hf, ?_, ?_⟩
    · intro _ ⟨m, hm, he⟩
      exact he ▸ hr hm
    · intro _ ⟨a, b, hab, he⟩
      exact he ▸ hc hab

end Solution

namespace Problem.Rearranged

variable (h : Rearranged o p p') (coherent : p.Coherent) (coherent' : p'.Coherent)

include h coherent coherent'

theorem mem_program (m' : Method) :
    m' ∈ p'.program.methods ↔ ∃ m ∈ p.program.methods, o.method m = m' := by
  have methods := h.hierarchy.mem_methods m'
  rwa [coherent, coherent'] at methods

theorem mem_methods (m' : Method) : m' ∈ p'.methods ↔ ∃ m ∈ p.methods, o.method m = m' := by
  simp only [Problem.methods, List.mem_append, h.mem_program coherent coherent', h.entries,
    or_and_right, exists_or]

theorem mem_roots (m' : Method) : m' ∈ p'.roots ↔ ∃ m ∈ p.roots, o.method m = m' := by
  have empty : p'.entries.isEmpty = p.entries.isEmpty := by
    rw [Bool.eq_iff_iff]
    simp [List.isEmpty_iff, List.eq_nil_iff_forall_not_mem, h.entries]
  unfold roots
  rw [empty]
  split
  case isFalse => exact h.entries m'
  case isTrue =>
    simp only [List.mem_filter, h.mem_program coherent coherent']
    constructor
    case mp =>
      intro ⟨⟨m, hm, he⟩, hb⟩
      exact ⟨m, ⟨hm, by simpa [← he] using hb⟩, he⟩
    case mpr =>
      intro ⟨m, ⟨hm, hb⟩, he⟩
      exact ⟨⟨m, hm, he⟩, by simpa [← he] using hb⟩

theorem solves_map {S : Solution} (hS : p.Solves S) : p'.Solves (S.map o) where
  roots := by
    intro m' hm'
    have ⟨m, hm, he⟩ := (h.mem_roots coherent coherent' m').mp hm'
    exact ⟨m, hS.roots m hm, he⟩
  satisfied := by
    intro _ ⟨m, hm, he⟩ hb s hs
    subst he
    rw [Rearrangement.hasBody_method] at hb
    rw [Rearrangement.mem_body_method] at hs
    exact h.satisfies_iff.mpr (hS.satisfied m hm hb s hs)
  calls := by
    intro _ ⟨m, hm, he⟩ hb call hcall callee' hc
    subst he
    rw [Rearrangement.hasBody_method] at hb
    rw [Rearrangement.mem_body_method] at hcall
    rw [h.runs_eq] at hc
    have ⟨callee, hrun, he⟩ := hc
    exact ⟨m, callee, hS.calls m hm hb call hcall callee hrun, by rw [he]⟩
  callees := by
    intro _ ⟨m, hm, he⟩ hb call hcall callee' hc hbody
    subst he
    rw [Rearrangement.hasBody_method] at hb
    rw [Rearrangement.mem_body_method] at hcall
    rw [h.runs_eq] at hc
    have ⟨callee, hrun, he⟩ := hc
    subst he
    rw [Rearrangement.hasBody_method] at hbody
    exact ⟨callee, hS.callees m hm hb call hcall callee hrun hbody, rfl⟩

theorem solves_comap {S : Solution} (hS : p'.Solves S) : p.Solves (S.comap o) := by
  have run {call callee} (hc : callee ∈ p.runs S.facts call) :
      o.method callee ∈ p'.runs S.facts call := by
    rw [h.runs_eq]
    exact ⟨callee, hc, rfl⟩
  constructor
  case roots =>
    intro m hm
    exact hS.roots _ ((h.mem_roots coherent coherent' _).mpr ⟨m, hm, rfl⟩)
  case satisfied =>
    intro m hm hb s hs
    rw [← Rearrangement.hasBody_method] at hb
    rw [← Rearrangement.mem_body_method] at hs
    exact h.satisfies_iff.mp (hS.satisfied _ hm hb s hs)
  case calls =>
    intro m hm hb call hcall callee hc
    rw [← Rearrangement.hasBody_method] at hb
    rw [← Rearrangement.mem_body_method] at hcall
    exact hS.calls _ hm hb call hcall _ (run hc)
  case callees =>
    intro m hm hb call hcall callee hc hbody
    rw [← Rearrangement.hasBody_method] at hb hbody
    rw [← Rearrangement.mem_body_method] at hcall
    exact hS.callees _ hm hb call hcall _ (run hc) hbody

-- Solutions of either problem give solutions of the other one, so the least ones correspond.
theorem least_eq : p'.least = p.least.map o := by
  refine Solution.le_antisymm ?_ (Solution.map_le_iff.mpr ?_)
  · exact least_le (h.solves_map coherent coherent' p.solves_least)
  · exact least_le (h.solves_comap coherent coherent' p'.solves_least)

theorem monotone (mono : p.Monotone) : p'.Monotone where
  declared := by
    intro m' hm' call hcall hk declared' hd
    have ⟨m, hm, he⟩ := (h.mem_methods coherent coherent' m').mp hm'
    subst he
    rw [Rearrangement.mem_body_method] at hcall
    rw [h.hierarchy.corresponds.resolve_eq] at hd
    have ⟨declared, hres, he⟩ := Option.map_eq_some_iff.mp hd
    subst he
    exact mono.declared m hm call hcall hk declared hres
  index := by
    intro m' hm' s hs i hi
    have ⟨m, hm, he⟩ := (h.mem_methods coherent coherent' m').mp hm'
    subst he
    simp only [Rearrangement.mem_body_method] at hs ⊢
    exact mono.index m hm s hs i hi

end Problem.Rearranged

-- Two results agree up to the orders within methods.
structure Result.Agrees (o : Rearrangement) (r r' : Result) : Prop where
  points    : ∀ v, r'.facts.points.get v = r.facts.points.get v
  fields    : ∀ slot, r'.facts.fields.get slot = r.facts.fields.get slot
  queries   : r'.queries = r.queries
  reachable : ∀ m', m' ∈ r'.reachable ↔ ∃ m ∈ r.reachable, o.method m = m'
  calls     : ∀ a' b', b' ∈ r'.graph.callees a' ↔
    ∃ a b, b ∈ r.graph.callees a ∧ o.method a = a' ∧ o.method b = b'

-- Two results say the same of every variable, slot and query.
structure Result.SameAnswers (r r' : Result) : Prop where
  points  : ∀ v, r'.facts.points.get v = r.facts.points.get v
  fields  : ∀ slot, r'.facts.fields.get slot = r.facts.fields.get slot
  queries : r'.queries = r.queries

theorem sameAnswers_of_facts_eq (ho : p'.scene.objects = p.scene.objects)
    (h : p'.run.facts.toSet = p.run.facts.toSet) : p.run.SameAnswers p'.run := by
  have points (v : Var) : p'.run.facts.points.get v = p.run.facts.points.get v :=
    ObjectSet.ext_mem fun id => Set.ext_iff.mp h (.points v id)
  constructor
  case points => exact points
  case fields => exact fun slot => ObjectSet.ext_mem fun id => Set.ext_iff.mp h (.holds slot id)
  case queries =>
    show p'.run.facts.answers p'.scene.objects = p.run.facts.answers p.scene.objects
    simp only [Facts.answers, ho, points]

theorem agrees_of_solution_eq (ho : p'.scene.objects = p.scene.objects)
    (h : p'.run.solution = p.run.solution.map o) : Result.Agrees o p.run p'.run := by
  have same := sameAnswers_of_facts_eq ho (congrArg Solution.facts h)
  refine { same with reachable := ?_, calls := ?_ }
  · intro m'
    exact Set.ext_iff.mp (congrArg Solution.reached h) m'
  · intro a' b'
    have := Set.ext_iff.mp (congrArg Solution.calls h) (a', b')
    refine this.trans ⟨?_, ?_⟩
    · intro ⟨a, b, hab, he⟩
      cases he
      exact ⟨a, b, hab, rfl, rfl⟩
    · intro ⟨a, b, hab, ha, hb⟩
      exact ⟨a, b, hab, by rw [ha, hb]⟩

-- The orders are of no account, even that of the classes and entries.
theorem agrees_of_rearranged (coherent : p.Coherent) (coherent' : p'.Coherent) (mono : p.Monotone)
    (h : p.Rearranged o p') (done : p.solve.converged) (done' : p'.solve.converged) :
    p.run.Agrees o p'.run := by
  refine agrees_of_solution_eq h.objects ?_
  have mono' := h.monotone coherent coherent' mono
  calc p'.run.solution
    _ = p'.least             := solution_eq_least coherent' mono' done'
    _ = p.least.map o        := h.least_eq coherent coherent'
    _ = p.run.solution.map o := by rw [solution_eq_least coherent mono done]

-- Monotone problems have a least solution. Every run stays below it, and a converged run is it, so
-- another order leads to the same result.
theorem converged_least_solution {s : Settings} {p : Problem} {r : Result}
    (valid : s.problem = .ok p) (done : analyze s = .ok r) (monotone : p.Monotone) :
    ∃ L, IsLeast { S | p.Solves S } L ∧ r.solution ≤ L ∧
      (r.converged → r.solution = L ∧ ∀ o s' p' r', p.Rearranged o p' → s'.problem = .ok p' →
        analyze s' = .ok r' → r'.converged → r.Agrees o r') := by
  have hr := run_eq_of_analyze valid done
  subst hr
  have coherent := Settings.coherent valid
  refine ⟨p.least, p.isLeast_least, solution_le coherent monotone p.solves_least, ?_⟩
  intro converged
  refine ⟨solution_eq_least coherent monotone converged, ?_⟩
  intro o s' p' r' rearranged valid' done' converged'
  have hr' := run_eq_of_analyze valid' done'
  subst hr'
  have coherent' := Settings.coherent valid'
  exact agrees_of_rearranged coherent coherent' monotone rearranged converged converged'

namespace Sample

-- The only call is that of an abstract method, and there are no arrays.
theorem monotone_problem : problem.Monotone where
  declared := by
    intro m hm c hc _ d hd
    have stmts : ∀ m ∈ problem.methods, m.body ⊆ get.body ++ itemGet.body ++ storing := by
      decide +kernel
    have called : c = call := by simpa [get, itemGet, storing] using stmts m hm hc
    have resolved : problem.scene.hierarchy.resolve call.method = some declared := rfl
    rw [called, resolved] at hd
    cases hd
    exact .inr rfl
  index := by
    intro m hm s hs i hi
    have unindexed : ∀ m ∈ problem.methods, ∀ s ∈ m.body, s.index? = none := by decide +kernel
    simp [unindexed m hm s hs] at hi

-- All statements the other way round.
def backwards : Rearrangement :=
  .ofPerm (fun m => m.body.reverse) fun m => List.reverse_perm m.body

theorem cell_least_solution :
    problem.Monotone ∧ ∃ L, IsLeast { S | problem.Solves S } L ∧ problem.run.solution = L ∧
      problem.run.Agrees backwards (problem.rearrange backwards).run := by
  have ⟨L, least, _, equal⟩ := converged_least_solution (problem_settingsOf storing objects)
    (analyze_settingsOf storing objects) monotone_problem
  have ⟨eq, agrees⟩ := equal converged_run
  refine ⟨monotone_problem, L, least, eq, ?_⟩
  let s : Settings :=
    { program := some ((programOf storing).rearrange backwards)
      objects := some objects
      entries := [some (backwards.method main)] }
  exact agrees backwards s _ _ (problem.rearranged_rearrange backwards) rfl rfl (by decide +kernel)

end Sample
end Analysis
end PointsTo
