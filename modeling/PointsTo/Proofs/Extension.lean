import PointsTo.Proofs.Correspondence
import PointsTo.Proofs.LeastSolution
import PointsTo.Proofs.Limits
import PointsTo.Proofs.PossibleFacts

namespace PointsTo

-- The methods have more statements, and they may have other variables for them.
structure Extension where
  body : Method → List Stmt
  vars : Method → List Var
  kept : ∀ m, m.body ⊆ body m

namespace Extension

variable (e : Extension)

def method (m : Method) : Method :=
  { m with body := e.body m, vars := e.vars m }

def classOf (c : Class) : Class :=
  { c with methods := c.methods.map e.method }

variable {e} {m : Method}

theorem mem_body {s : Stmt} (h : s ∈ m.body) : s ∈ (e.method m).body :=
  e.kept m h

theorem hasBody (h : m.hasBody) : (e.method m).hasBody := by
  simp only [Method.hasBody, Bool.and_eq_true, Bool.not_eq_true', List.isEmpty_eq_false_iff] at h ⊢
  have ⟨modifiers, nonempty⟩ := h
  refine ⟨modifiers, fun empty => nonempty ?_⟩
  exact List.subset_nil.mp (empty ▸ e.kept m)

theorem mem_returned {v : Var} (h : v ∈ m.returned) : v ∈ (e.method m).returned := by
  have ⟨s, hs, hv⟩ := List.mem_filterMap.mp h
  exact List.mem_filterMap.mpr ⟨s, mem_body hs, hv⟩

theorem method?_classOf (c : Class) (sub : String) :
    (e.classOf c).method? sub = (c.method? sub).map e.method :=
  List.find?_map ..

end Extension

def Program.extend (e : Extension) (p : Program) : Program where
  classes := p.classes.map e.classOf

theorem Program.mem_methods_extend {e : Extension} {p : Program} {m : Method} (h : m ∈ p.methods) :
    e.method m ∈ (p.extend e).methods := by
  have ⟨c, hc, hm⟩ := List.mem_flatMap.mp h
  exact List.mem_flatMap.mpr ⟨e.classOf c, List.mem_map_of_mem hc, List.mem_map_of_mem hm⟩

namespace Analysis

variable {e : Extension} {p p' : Problem}

-- The objects of the smaller program keep their numbers and types.
structure Problem.Extended (e : Extension) (p p' : Problem) : Prop where
  program : p'.program = p.program.extend e
  visible : p'.scene.hierarchy.visible = p.scene.hierarchy.visible
  ids     : ∀ site lhs type, .alloc site lhs type ∈ p.stmts →
    p'.scene.objects.id? site = p.scene.objects.id? site
  types   : ∀ id ∈ p.objectIds, p'.scene.objects.type? id = p.scene.objects.type? id

-- The same entries, or none in the place of some that have a body.
def Problem.EntriesKept (e : Extension) (p p' : Problem) : Prop :=
  p'.entries = p.entries.map e.method ∨
    p'.entries = [] ∧ ∀ m ∈ p.entries, m ∈ p.program.methods ∧ m.hasBody

-- What a solution says about the objects and methods of the smaller problem.
def Problem.within (e : Extension) (p : Problem) (S : Solution) : Solution where
  facts   := { x ∈ S.facts | x.object ∈ p.objectIds }
  reached := { m | m ∈ p.methods ∧ e.method m ∈ S.reached }
  calls   := { c | (e.method c.1, e.method c.2) ∈ S.calls }

namespace Problem.Extended

variable (h : Extended e p p')

include h

theorem corresponds (coherent : p.Coherent) (coherent' : p'.Coherent) :
    p.scene.hierarchy.Corresponds e.method e.classOf p'.scene.hierarchy := by
  have program : p'.scene.hierarchy.program = p.scene.hierarchy.program.extend e := by
    rw [coherent', h.program, coherent]
  exact {
    names        := by simp [program, Program.extend, Function.comp_def, Extension.classOf]
    lookup       := fun _ => program ▸ List.find?_map ..
    visible      := h.visible
    super        := fun _ => rfl
    interfaces   := fun _ => rfl
    method?      := Extension.method?_classOf
    modifiers    := fun _ => rfl
    subsignature := fun _ => rfl }

variable (entries : p.EntriesKept e p')

include entries

theorem mem_methods {m : Method} (hm : m ∈ p.methods) : e.method m ∈ p'.methods := by
  have program {m} (hm : m ∈ p.program.methods) : e.method m ∈ p'.methods :=
    List.mem_append_left _ (h.program ▸ Program.mem_methods_extend hm)
  cases List.mem_append.mp hm
  case inl hm => exact program hm
  case inr hm =>
    cases entries
    case inl same  => exact List.mem_append_right _ (same ▸ List.mem_map_of_mem hm)
    case inr whole => exact program (whole.right m hm).left

theorem mem_roots {m : Method} (hm : m ∈ p.roots) : e.method m ∈ p'.roots := by
  have program (he : p'.entries = []) {m} (hm : m ∈ p.program.methods) (hb : m.hasBody) :
      e.method m ∈ p'.roots := by
    have := h.program ▸ Program.mem_methods_extend hm
    simp [Problem.roots, he, this, Extension.hasBody hb]
  unfold Problem.roots at hm
  split at hm
  case isTrue empty =>
    have he : p'.entries = [] := by
      cases entries
      case inl same  => simpa [List.isEmpty_iff.mp empty] using same
      case inr whole => exact whole.left
    have mem := List.mem_filter.mp hm
    exact program he mem.left mem.right
  case isFalse given =>
    cases entries
    case inl same =>
      have : p'.entries.isEmpty = false := by simpa [same] using given
      simp only [Problem.roots, this, Bool.false_eq_true, if_false]
      exact same ▸ List.mem_map_of_mem hm
    case inr whole =>
      have mem := whole.right m hm
      exact program whole.left mem.left mem.right

variable (coherent : p.Coherent) (coherent' : p'.Coherent)

include coherent coherent'

theorem monotone (mono : p'.Monotone) : p.Monotone where
  declared := by
    intro m hm call hcall hk declared hd
    have hd' := (h.corresponds coherent coherent').resolve_eq call.method
    rw [hd] at hd'
    exact mono.declared _ (h.mem_methods entries hm) call (Extension.mem_body hcall) hk
      (e.method declared) hd'
  index := by
    intro m hm s hs i hi
    have ⟨literals, copies⟩ :=
      mono.index _ (h.mem_methods entries hm) s (Extension.mem_body hs) i hi
    refine ⟨fun value hv => literals value (Extension.mem_body hv), fun rhs hr => ?_⟩
    exact copies rhs (Extension.mem_body hr)

omit entries in
-- The receivers are objects of the smaller problem, which have the types that they had.
theorem mem_runs {S : Solution} {call : Invoke} {callee : Method}
    (hc : callee ∈ p.runs (p.within e S).facts call) : e.method callee ∈ p'.runs S.facts call := by
  have types : ∀ id ∈ receivers (p.within e S).facts call,
      p'.scene.objects.type? id = p.scene.objects.type? id := by
    intro id hid
    unfold receivers at hid
    split at hid
    case h_1 => exact h.types id hid.right
    case h_2 => simp at hid
  have same := Scene.runs_corresponds (h.corresponds coherent coherent') types call
  have run : e.method callee ∈ p'.runs (p.within e S).facts call := by
    unfold runs
    rw [same]
    exact ⟨callee, hc, rfl⟩
  exact Problem.runs_mono (fun _ hx => hx.left) call run

omit entries in
theorem satisfies_within {S : Solution} {m : Method} {s : Stmt} (hm : m ∈ p.methods)
    (hs : s ∈ m.body) (satisfied : Satisfies p' S.facts ∅ (p'.runs S.facts) s) :
    Satisfies p (p.within e S).facts ∅ (p.runs (p.within e S).facts) s := by
  have stmt := Problem.mem_stmts hm hs
  have sub : (p.within e S).facts ⊆ S.facts := fun _ hx => hx.left
  cases s
  case alloc site lhs type =>
    intro id hid
    exact ⟨satisfied id ((h.ids site lhs type stmt).trans hid), Problem.mem_objectIds stmt hid⟩
  case copy | cast => exact fun o ho => ⟨satisfied ho.left, ho.right⟩
  case loadField lhs base field =>
    intro owner howner o ho
    exact ⟨satisfied owner (owners_mono sub base field howner) ho.left, ho.right⟩
  case storeField base field rhs =>
    intro owner howner o ho
    exact ⟨satisfied owner (owners_mono sub base field howner) ho.left, ho.right⟩
  case loadArray lhs base index =>
    intro owner howner k hk o ho
    exact ⟨satisfied owner howner.left k hk ho.left, ho.right⟩
  case storeArray base index rhs =>
    intro owner howner o ho
    exact ⟨satisfied owner howner.left ho.left, ho.right⟩
  case invoke call =>
    intro callee hc hb
    have passes := satisfied _ (h.mem_runs coherent coherent' hc) (Extension.hasBody hb)
    exact {
      receiver := fun v b hv hbase o ho => ⟨passes.receiver v b hv hbase ho.left, ho.right⟩
      params   := fun pa hpa o ho => ⟨passes.params pa hpa ho.left, ho.right⟩
      result   := fun v hv w hw o ho =>
        ⟨passes.result v hv w (Extension.mem_returned hw) ho.left, ho.right⟩ }
  all_goals trivial

theorem solves_within {S : Solution} (hS : p'.Solves S) : p.Solves (p.within e S) where
  roots m hm := ⟨p.roots_subset_methods hm, hS.roots _ (h.mem_roots entries hm)⟩
  satisfied := by
    intro m ⟨hm, hr⟩ hb s hs
    have satisfied := hS.satisfied _ hr (Extension.hasBody hb) s (Extension.mem_body hs)
    exact h.satisfies_within coherent coherent' hm hs satisfied
  calls := by
    intro m ⟨_, hr⟩ hb call hcall callee hc
    have run := h.mem_runs coherent coherent' hc
    exact hS.calls _ hr (Extension.hasBody hb) call (Extension.mem_body hcall) _ run
  callees := by
    intro m ⟨_, hr⟩ hb call hcall callee hc hbody
    have run := h.mem_runs coherent coherent' hc
    have mem : callee ∈ p.program.methods := by
      have := Scene.mem_methods_of_mem_runs hc
      rwa [coherent] at this
    exact ⟨List.mem_append_left _ mem, hS.callees _ hr (Extension.hasBody hb) call
      (Extension.mem_body hcall) _ run (Extension.hasBody hbody)⟩

end Problem.Extended

-- A run on a program finds nothing that a converged run on more code does not find, be it from the
-- same entries or on the whole program.
theorem run_within_extended_run {s s' : Settings} {p p' : Problem} {r r' : Result} {e : Extension}
    (valid : s.problem = .ok p) (valid' : s'.problem = .ok p')
    (done : analyze s = .ok r) (done' : analyze s' = .ok r')
    (extended : p.Extended e p') (entries : p.EntriesKept e p') (monotone : p'.Monotone)
    (converged : r'.converged) : r.Within e.method r' := by
  have hr := run_eq_of_analyze valid done
  have hr' := run_eq_of_analyze valid' done'
  subst hr hr'
  have coherent := Settings.coherent valid
  have coherent' := Settings.coherent valid'
  have solves := extended.solves_within entries coherent coherent'
    (solves_solution coherent' monotone converged)
  have ⟨facts, reached, calls⟩ :=
    solution_le coherent (extended.monotone entries coherent coherent' monotone) solves
  exact {
    points    := fun v o ho => (facts (a := .points v o) ho).left
    fields    := fun slot o ho => (facts (a := .holds slot o) ho).left
    calls     := fun a b hb => calls (a := (a, b)) hb
    reachable := fun m hm => (reached hm).right }

namespace Sample

-- At first, the cell of `main` is an item, too.
def alsoItem : Extension where
  body m := if m.id = 2 then .copy cell item :: m.body else m.body
  vars   := Method.vars
  kept m := by split <;> simp

def larger : Settings where
  program := some ((programOf storing).extend alsoItem)
  objects := some objects

def largerProblem : Problem where
  program   := (programOf storing).extend alsoItem
  scene     := { hierarchy := { program := (programOf storing).extend alsoItem }, objects }
  entries   := []
  maxSweeps := 5000
  maxSteps  := 5000

theorem extended_largerProblem (limit : Nat) :
    (problem.withLimits limit 5000).Extended alsoItem largerProblem where
  program     := rfl
  visible     := rfl
  ids _ _ _ _ := rfl
  types _ _   := rfl

theorem monotone_largerProblem : largerProblem.Monotone where
  declared := by
    intro m hm c hc _ d hd
    have stmts : ∀ m ∈ largerProblem.methods,
        m.body ⊆ get.body ++ itemGet.body ++ .copy cell item :: storing := by decide +kernel
    have called : c = call := by simpa [get, itemGet, storing] using stmts m hm hc
    have resolved : largerProblem.scene.hierarchy.resolve call.method = some declared := rfl
    rw [called, resolved] at hd
    cases hd
    exact .inr rfl
  index := by
    intro m hm s hs i hi
    have unindexed : ∀ m ∈ largerProblem.methods, ∀ s ∈ m.body, s.index? = none := by
      decide +kernel
    simp [unindexed m hm s hs] at hi

-- The larger program calls a method more, and a run that was stopped is within the whole run.
theorem cell_within_more_code :
    (problem.withLimits 3 5000).run.queries = [(1, [2])] ∧
      itemGet ∈ largerProblem.run.graph.callees (alsoItem.method main) ∧
      (problem.withLimits 3 5000).run.Within alsoItem.method largerProblem.run := by
  have valid : (limited 3 0).problem = .ok (problem.withLimits 3 5000) := rfl
  have valid_larger : larger.problem = .ok largerProblem := rfl
  have entries : (problem.withLimits 3 5000).EntriesKept alsoItem largerProblem :=
    .inr ⟨rfl, by decide +kernel⟩
  have converged : largerProblem.run.converged := by decide +kernel
  have within := run_within_extended_run valid valid_larger rfl rfl (extended_largerProblem 3)
    entries monotone_largerProblem converged
  exact ⟨by decide +kernel, by decide +kernel, within⟩

end Sample
end Analysis
end PointsTo
