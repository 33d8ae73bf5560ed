import Mathlib.Data.List.Find
import Mathlib.Data.List.Nodup
import PointsTo.Proofs.Flow
import PointsTo.Proofs.Rearrangement

namespace PointsTo

-- The names of classes are unique, and so are the subsignatures in each class.
structure Program.Distinct (p : Program) : Prop where
  names         : (p.classes.map Class.name).Nodup
  subsignatures : ∀ c ∈ p.classes, (c.methods.map Method.subsignature).Nodup

-- The same classes with the same methods, in any order.
def Program.Reordered (p p' : Program) : Prop :=
  ∃ methods : Class → List Method, (∀ c ∈ p.classes, (methods c).Perm c.methods) ∧
    p'.classes.Perm (p.classes.map fun c => { c with methods := methods c })

theorem Program.Reordered.refl (p : Program) : p.Reordered p :=
  ⟨Class.methods, fun _ _ => .refl _, by simp⟩

theorem find?_of_perm {α β : Type} [DecidableEq β] (key : α → β) {l l' : List α}
    (perm : l'.Perm l) (nodup : (l.map key).Nodup) (b : β) :
    l'.find? (key · = b) = l.find? (key · = b) := by
  refine (List.find?_eq_find?_of_perm perm.symm ?_).symm
  intro x hx y hy
  have same : key x = key y := (of_decide_eq_true hx.right).trans (of_decide_eq_true hy.right).symm
  exact List.inj_on_of_nodup_map nodup hx.left hy.left same

-- Another order within classes is a rearrangement that leaves the methods themselves alone.
theorem Hierarchy.rearranged_of_reordered {h h' : Hierarchy} (distinct : h.program.Distinct)
    (reordered : h.program.Reordered h'.program) (visible : h'.visible = h.visible) :
    ∃ o : Rearrangement, o.method = id ∧ h.Rearranged o h' := by
  have ⟨methods, perm, classes⟩ := reordered
  let o : Rearrangement :=
    { body        := Method.body
      methods     := fun c => if c ∈ h.program.classes then methods c else c.methods
      mem_body    := Iff.rfl
      mem_methods := by
        intro c m
        split
        case isTrue hc => exact (perm c hc).mem_iff
        case isFalse   => rfl
      first       := by
        intro c sub
        split
        case isTrue hc => exact find?_of_perm _ (perm c hc) (distinct.subsignatures c hc) sub
        case isFalse   => rfl }
  have method : o.method = id := rfl
  have classOf : ∀ c ∈ h.program.classes, { c with methods := methods c } = o.classOf c := by
    intro c hc
    have methods : o.methods c = methods c := if_pos hc
    rw [Rearrangement.classOf, methods, method, List.map_id]
  rw [List.map_congr_left classOf] at classes
  refine ⟨o, method, classes, fun name => ?_, visible⟩
  have names : ((h.program.classes.map o.classOf).map Class.name).Nodup := by
    simpa [Function.comp_def, Rearrangement.classOf] using distinct.names
  exact (find?_of_perm Class.name classes names name).trans (List.find?_map ..)

namespace Analysis

structure Problem.Reordered (p p' : Problem) : Prop where
  program : p.program.Reordered p'.program
  visible : p'.scene.hierarchy.visible = p.scene.hierarchy.visible
  objects : p'.scene.objects = p.scene.objects
  entries : p'.entries.Perm p.entries

-- Calls and allocations mean the same, and the same methods are there to start with.
structure Problem.Alike (p p' : Problem) : Prop where
  roots   : ∀ m, m ∈ p'.roots ↔ m ∈ p.roots
  resolve : p'.scene.hierarchy.resolve = p.scene.hierarchy.resolve
  target  : p'.scene.receiverTarget? = p.scene.receiverTarget?
  objects : p'.scene.objects = p.scene.objects

section Alike

variable {p p' : Problem}

theorem Problem.Alike.symm (h : p.Alike p') : p'.Alike p where
  roots m := (h.roots m).symm
  resolve := h.resolve.symm
  target  := h.target.symm
  objects := h.objects.symm

theorem Problem.Alike.refl (p : Problem) : p.Alike p where
  roots _ := Iff.rfl
  resolve := rfl
  target  := rfl
  objects := rfl

theorem Problem.Reordered.alike (h : p.Reordered p') (distinct : p.program.Distinct)
    (coherent : p.Coherent) (coherent' : p'.Coherent) : p.Alike p' := by
  have ⟨o, method, hierarchy⟩ := Hierarchy.rearranged_of_reordered (h := p.scene.hierarchy)
    (by rwa [coherent]) (by rw [coherent, coherent']; exact h.program) h.visible
  have rearranged : p.Rearranged o p' :=
    { hierarchy, objects := h.objects, entries := by simp [method, h.entries.mem_iff] }
  have corresponds := hierarchy.corresponds
  rw [method] at corresponds
  constructor
  case roots   => simpa [method] using rearranged.mem_roots coherent coherent'
  case resolve =>
    funext ref
    simpa using corresponds.resolve_eq ref
  case target =>
    funext sub id
    simpa using Scene.receiverTarget?_corresponds corresponds (by rw [h.objects]) sub
  case objects => exact h.objects

-- The rules carry over from one reading to another, if what stands in according to the former runs
-- according to the latter, and what the former selects is selected by the latter.
theorem Flows.transfer {how how' : Reading} (alike : p.Alike p')
    (stands : ∀ {m call declared}, Flows p' how' (.executes m (.invoke call)) →
      call.kind.isDirect = false → how.standsIn call →
      p'.scene.hierarchy.resolve call.method = some declared → declared.isNative = false →
      declared.isAbstract = false → Flows p' how' (.runs m call declared))
    (selects : ∀ {m s key}, Flows p' how' (.executes m s) → how.selects m s key →
      how'.selects m s key)
    {j : Judgement} (h : Flows p how j) : Flows p' how' j := by
  induction h
  case root h                        => exact .root ((alike.roots _).mpr h)
  case callee hb ih                  => exact .callee ih hb
  case executes hb hs ih             => exact .executes ih hb hs
  case declared call _ _ hk hd hn ha ih =>
    rw [← alike.resolve] at hd
    cases hkind : call.kind.isDirect
    case true  => exact .declared ih (.inl hkind) hd hn ha
    case false => exact stands ih hkind (by simpa [hkind] using hk) hd hn ha
  case dispatched hk hd hn hb _ ht ih iho =>
    rw [← alike.resolve] at hd
    rw [← alike.target] at ht
    exact .dispatched ih hk hd hn hb iho ht
  case alloc ho ih                   => exact .alloc ih (by rwa [alike.objects])
  case copy ih iho                   => exact .copy ih iho
  case cast ih iho                   => exact .cast ih iho
  case loadField ih ihb iho          => exact .loadField ih ihb iho
  case loadStatic ih iho             => exact .loadStatic ih iho
  case storeField ih ihb iho         => exact .storeField ih ihb iho
  case storeStatic ih iho            => exact .storeStatic ih iho
  case loadArray hkey hk _ _ ih ihb iho => exact .loadArray ih (selects ih hkey) hk ihb iho
  case storeArray hkey _ _ ih ihb iho => exact .storeArray ih (selects ih hkey) ihb iho
  case receiver hbody hv hb _ ih iho => exact .receiver ih hbody hv hb iho
  case param hbody hv _ ih iho       => exact .param ih hbody hv iho
  case result hbody hv hw _ ih iho   => exact .result ih hbody hv hw iho

theorem Problem.Alike.flows_iff (alike : p.Alike p') {how : Reading} {j : Judgement} :
    Flows p' how j ↔ Flows p how j := by
  have stands (q : Problem) {m call declared} (h : Flows q how (.executes m (.invoke call)))
      (_ : call.kind.isDirect = false) (hs : how.standsIn call)
      (hd : q.scene.hierarchy.resolve call.method = some declared) (hn : declared.isNative = false)
      (ha : declared.isAbstract = false) : Flows q how (.runs m call declared) :=
    .declared h (.inr hs) hd hn ha
  constructor
  case mp  => exact Flows.transfer alike.symm (stands p) fun _ h => h
  case mpr => exact Flows.transfer alike (stands p') fun _ h => h

end Alike

namespace Reading

-- The declared method may always stand in, and any constants of the body may be known.
def wide : Reading where
  standsIn _      := True
  selects m s key := ∃ cs, Constants.From m.body cs ∧ key = cs.key s.index?

theorem admits_wide : wide.Admits id where
  standsIn _ := trivial
  field _    := rfl
  store hc   := ⟨_, hc, rfl⟩
  load hc hk := ⟨_, ⟨_, hc, rfl⟩, hk⟩

end Reading

namespace Problem

-- Whatever may turn out to hold.
def maybe (p : Problem) : Set Fact :=
  { x | Flows p .wide (.fact x) }

-- The declared method stands in only if no receiver will ever have an answer, and the constants are
-- those of the statements before the access.
def sure (p : Problem) : Reading where
  standsIn call   := ∀ declared b o, p.scene.hierarchy.resolve call.method = some declared →
    call.base = some b → .points b o ∈ p.maybe →
      p.scene.receiverTarget? declared.subsignature o = none
  selects m s key := ∃ pre post, m.body = pre ++ s :: post ∧
    key = (Constants.ofStmts pre).key s.index?

-- What holds in any case.
def surely (p : Problem) : Set Fact :=
  { x | Flows p p.sure (.fact x) }

variable {p p' : Problem}

theorem Alike.maybe_eq (alike : p.Alike p') : p'.maybe = p.maybe :=
  Set.ext fun _ => alike.flows_iff

theorem Alike.sure_eq (alike : p.Alike p') : p'.sure = p.sure := by
  unfold sure
  rw [alike.resolve, alike.target, alike.maybe_eq]

theorem Alike.surely_eq (alike : p.Alike p') : p'.surely = p.surely := by
  unfold surely
  rw [alike.sure_eq]
  exact Set.ext fun _ => alike.flows_iff

end Problem

theorem run_subset_maybe (p : Problem) : p.run.facts.toSet ⊆ p.maybe := by
  intro x hx
  have := (preserved_supported Reading.admits_wide).solve.facts x hx
  rwa [Fact.view_id] at this

-- What a judgement says about a result.
def Result.Confirms (p : Problem) (r : Result) : Judgement → Prop
  | .reached m => m ∈ r.reachable
  | .executes m s => m ∈ r.reachable ∧ m.hasBody ∧ s ∈ m.body
  | .runs m call callee => m ∈ r.reachable ∧ m.hasBody ∧ .invoke call ∈ m.body ∧
    callee ∈ p.targets r.facts call
  | .fact x => x ∈ r.facts.toSet

section Surely

variable {p : Problem} {r : Result} {m : Method} {call : Invoke} {declared callee : Method}

-- No receiver that the run knows of has an answer, so the declared method is the target.
theorem mem_targets_of_sure (within : r.facts.toSet ⊆ p.maybe)
    (hk : call.kind.isDirect = false) (stands : p.sure.standsIn call)
    (hd : p.scene.hierarchy.resolve call.method = some declared)
    (hn : declared.isNative = false) (ha : declared.isAbstract = false) :
    declared ∈ p.targets r.facts call := by
  refine Scene.mem_targets_iff.mpr (.inr ⟨hd, hn, ha, hk, ?_⟩)
  rw [List.eq_nil_iff_forall_not_mem]
  intro callee hc
  have ⟨o, ho, ht⟩ := Scene.mem_receiverTargets.mp hc
  have receiver := Facts.mem_receivers.mp (ObjectSet.mem_toList.mp ho)
  unfold receivers at receiver
  split at receiver
  case h_1 b hb =>
    have none := stands declared b o hd hb (within receiver)
    simp [none] at ht
  case h_2 => simp at receiver

theorem FixedPoint.satisfies (fixed : FixedPoint p r) {s : Stmt}
    (h : r.Confirms p (.executes m s)) (unindexed : s.index? = none) :
    Satisfies p r.facts.toSet ∅ (p.targets r.facts) s := by
  have ⟨hm, hb, hs⟩ := h
  have ⟨pre, post, hbody⟩ := List.append_of_mem hs
  refine (fixed.satisfied m hm hb pre s post hbody).congr_key ?_
  rw [unindexed]
  rfl

theorem FixedPoint.passes (fixed : FixedPoint p r) (h : r.Confirms p (.runs m call callee))
    (hb : callee.hasBody) : Passes r.facts.toSet call callee := by
  have ⟨hm, hbody, hs, hc⟩ := h
  exact fixed.satisfies (s := .invoke call) ⟨hm, hbody, hs⟩ rfl callee hc hb

-- A fixed point is closed under the rules.
theorem FixedPoint.confirms (fixed : FixedPoint p r) (within : r.facts.toSet ⊆ p.maybe)
    {j : Judgement} (h : Flows p p.sure j) : r.Confirms p j := by
  induction h
  case root h            => exact fixed.roots h
  case callee hb ih =>
    have ⟨hm, hbody, hs, hc⟩ := ih
    exact fixed.callees _ hm hbody _ hs _ hc hb
  case executes hb hs ih => exact ⟨ih, hb, hs⟩
  case declared call declared _ hk hd hn ha ih =>
    refine ⟨ih.1, ih.2.1, ih.2.2, ?_⟩
    cases hkind : call.kind.isDirect
    case true  => exact Scene.runs_subset_targets ⟨declared, hd, hn, by simp [hkind, ha]⟩
    case false => exact mem_targets_of_sure within hkind (by simpa [hkind] using hk) hd hn ha
  case dispatched hk hd hn hb _ ht ih iho =>
    refine ⟨ih.1, ih.2.1, ih.2.2, Scene.runs_subset_targets ⟨_, hd, hn, ?_⟩⟩
    simp only [hk, Bool.false_eq_true, if_false]
    refine ⟨_, ?_, ht⟩
    unfold Facts.receivers
    rw [hb]
    exact iho
  case alloc ho ih           => exact fixed.satisfies ih rfl _ ho
  case copy ih iho           => exact fixed.satisfies ih rfl iho
  case cast ih iho           => exact fixed.satisfies ih rfl iho
  case loadField ih ihb iho  => exact fixed.satisfies ih rfl _ ihb iho
  case loadStatic ih iho     => exact fixed.satisfies ih rfl _ rfl iho
  case storeField ih ihb iho => exact fixed.satisfies ih rfl _ ihb iho
  case storeStatic ih iho    => exact fixed.satisfies ih rfl _ rfl iho
  case loadArray hkey hk _ _ ih ihb iho =>
    have ⟨pre, post, hbody, he⟩ := hkey
    exact fixed.satisfied _ ih.1 ih.2.1 pre _ post hbody _ ihb _ (he ▸ hk) iho
  case storeArray hkey _ _ ih ihb iho =>
    have ⟨pre, post, hbody, he⟩ := hkey
    subst he
    exact fixed.satisfied _ ih.1 ih.2.1 pre _ post hbody _ ihb iho
  case receiver hbody hv hb _ ih iho => exact (fixed.passes ih hbody).receiver _ _ hv hb iho
  case param hbody hv _ ih iho       => exact (fixed.passes ih hbody).params _ hv iho
  case result hbody hv hw _ ih iho   => exact (fixed.passes ih hbody).result _ hv _ hw iho

end Surely

theorem surely_subset_run {p : Problem} (coherent : p.Coherent) (h : p.solve.converged) :
    p.surely ⊆ p.run.facts.toSet :=
  fun _ hx => (fixedPoint_run coherent h).confirms (run_subset_maybe p) hx

-- In whatever order classes, methods and entries come, a converged result is between the same two
-- bounds. Where the bounds meet, the order does not matter.
theorem reordered_within_bounds {s s' : Settings} {p p' : Problem} {r r' : Result}
    (valid : s.problem = .ok p) (valid' : s'.problem = .ok p')
    (done : analyze s = .ok r) (done' : analyze s' = .ok r')
    (distinct : p.program.Distinct) (reordered : p.Reordered p')
    (converged : r.converged) (converged' : r'.converged) :
    (p.surely ⊆ r.facts.toSet ∧ r.facts.toSet ⊆ p.maybe) ∧
    (p.surely ⊆ r'.facts.toSet ∧ r'.facts.toSet ⊆ p.maybe) ∧
    (p.maybe ⊆ p.surely → r.SameAnswers r') := by
  have hr := run_eq_of_analyze valid done
  have hr' := run_eq_of_analyze valid' done'
  subst hr hr'
  have coherent := Settings.coherent valid
  have coherent' := Settings.coherent valid'
  have alike := reordered.alike distinct coherent coherent'
  have lower := surely_subset_run coherent converged
  have lower' := surely_subset_run coherent' converged'
  have upper := run_subset_maybe p
  have upper' := run_subset_maybe p'
  rw [alike.surely_eq] at lower'
  rw [alike.maybe_eq] at upper'
  refine ⟨⟨lower, upper⟩, ⟨lower', upper'⟩, fun meet => ?_⟩
  refine sameAnswers_of_facts_eq reordered.objects ?_
  exact ((upper'.trans meet).trans lower).antisymm ((upper.trans meet).trans lower')

-- Other orders lead to the same answers, for problems of some kind.
def OrderIndependent (kind : Problem → Prop) : Prop :=
  ∀ (s s' : Settings) (p p' : Problem) (r r' : Result), kind p → s.problem = .ok p →
    s'.problem = .ok p' → analyze s = .ok r → analyze s' = .ok r' → p.program.Distinct →
    p.Reordered p' → r.converged → r'.converged → r.SameAnswers r'

-- The reached methods are methods of the problem.
theorem Flows.mem_methods {p : Problem} (coherent : p.Coherent) {how : Reading} {m : Method}
    (h : Flows p how (.reached m)) : m ∈ p.methods := by
  cases h
  case root h => exact p.roots_subset_methods h
  case callee h hb =>
    refine List.mem_append_left _ ?_
    rw [← coherent]
    cases h
    case declared hd   => exact Hierarchy.mem_methods_of_resolve hd
    case dispatched ht => exact Scene.mem_methods_of_receiverTarget? ht

theorem Flows.mem_body {p : Problem} (coherent : p.Coherent) {how : Reading} {m : Method}
    {s : Stmt} (h : Flows p how (.executes m s)) : m ∈ p.methods ∧ s ∈ m.body := by
  cases h
  case executes h _ hs => exact ⟨h.mem_methods coherent, hs⟩

-- Without indices there is only one element that can be selected.
theorem sure_selects_of_unindexed {p : Problem} {m : Method} {s : Stmt} {key : FieldKey}
    (hs : s ∈ m.body) (unindexed : s.index? = none) (h : Reading.wide.selects m s key) :
    p.sure.selects m s key := by
  have ⟨pre, post, hbody⟩ := List.append_of_mem hs
  have ⟨_, _, hkey⟩ := h
  refine ⟨pre, post, hbody, ?_⟩
  rw [hkey, unindexed]
  rfl

namespace Sample

section Entries

variable {program : Program} {objects : Objects} {entries entries' : List Method}

def settingsFrom (program : Program) (objects : Objects) (entries : List Method) : Settings where
  program := some program
  objects := some objects
  entries := entries.map some

def problemFrom (program : Program) (objects : Objects) (entries : List Method) : Problem where
  program
  scene     := { hierarchy := { program }, objects }
  entries
  maxSweeps := 5000
  maxSteps  := 5000

theorem problem_settingsFrom :
    (settingsFrom program objects entries).problem = .ok (problemFrom program objects entries) := by
  have given : none ∉ entries.map some := by simp
  have limits : ¬ ((0 : Int) < 0 ∨ (0 : Int) < 0) := by decide
  simp only [Settings.problem, settingsFrom, given, limits, if_false, pure, Except.pure]
  simp only [List.filterMap_map, Function.comp_def, id, List.filterMap_some]
  rfl

theorem analyze_settingsFrom : analyze (settingsFrom program objects entries) =
    .ok (problemFrom program objects entries).run := by
  unfold analyze
  rw [problem_settingsFrom]
  rfl

theorem reordered_problemFrom (h : entries'.Perm entries) :
    (problemFrom program objects entries).Reordered (problemFrom program objects entries') where
  program := .refl _
  visible := rfl
  objects := rfl
  entries := h

theorem not_orderIndependent_of_queries_ne {kind : Problem → Prop}
    (hk : kind (problemFrom program objects entries)) (distinct : program.Distinct)
    (perm : entries'.Perm entries) (converged : (problemFrom program objects entries).run.converged)
    (converged' : (problemFrom program objects entries').run.converged)
    (ne : (problemFrom program objects entries').run.queries ≠
      (problemFrom program objects entries).run.queries) : ¬ OrderIndependent kind := by
  intro independent
  have same := independent _ _ _ _ _ _ hk problem_settingsFrom problem_settingsFrom
    analyze_settingsFrom analyze_settingsFrom distinct (reordered_problemFrom perm) converged
    converged'
  exact ne same.queries

end Entries

-- `main` passes an item to the object in a static field, where `init` puts it.
namespace Passing

def param (owner : Nat) : Var where
  owner := some owner
  index := 0
  name  := "p0"
  type  := "Item"

def basePass : Method where
  id        := 0
  owner     := "Base"
  name      := "pass"
  modifiers := {}
  params    := [param 0]
  body      := [.ret (some (param 0))]

-- An override that returns nothing.
def subPass : Method where
  id        := 1
  owner     := "Sub"
  name      := "pass"
  modifiers := {}
  params    := [param 1]
  body      := [.ret none]

def base : Var where
  owner := some 2
  index := 0
  name  := "base"
  type  := "Base"

def item : Var where
  owner := some 2
  index := 1
  name  := "item"
  type  := "Item"

def passed : Var where
  owner := some 2
  index := 2
  name  := "passed"
  type  := "Item"

def slot : FieldRef where
  owner := "Main"
  name  := "slot"

def call : Invoke where
  result := some passed
  kind   := .virtual
  method := ⟨"Base", "pass(Item)"⟩
  base   := some base
  args   := [item]

def main : Method where
  id        := 2
  owner     := "Main"
  name      := "main"
  modifiers := { isStatic := true }
  body      := [.alloc ⟨0, 2⟩ item "Item", .loadField base none slot, .invoke call]

def made : Var where
  owner := some 3
  index := 0
  name  := "made"
  type  := "Base"

def init (type : String) : Method where
  id        := 3
  owner     := "Main"
  name      := "init"
  modifiers := { isStatic := true }
  body      := [.alloc ⟨0, 3⟩ made type, .storeField none slot made]

def program (type : String) : Program where
  classes := [{ name := "Base", methods := [basePass] },
    { name := "Sub", super := some "Base", methods := [subPass] },
    { name := "Main", methods := [main, init type] }]

def objects (type : String) : Objects where
  allocations := [⟨⟨0, 2⟩, 1, "Item"⟩, ⟨⟨0, 3⟩, 2, type⟩]
  queries     := [(1, passed)]

def forth (type : String) : Problem :=
  problemFrom (program type) (objects type) [main, init type]

def back (type : String) : Problem :=
  problemFrom (program type) (objects type) [init type, main]

-- An object of the declared class runs what would stand in for it.
theorem bounds_meet : (forth "Base").maybe ⊆ (forth "Base").surely := by
  let p := forth "Base"
  have coherent : p.Coherent := rfl
  have executes_main {s} (hs : s ∈ main.body) : Flows p p.sure (.executes main s) :=
    .executes (.root (by decide +kernel)) rfl hs
  have executes_init {s} (hs : s ∈ (init "Base").body) :
      Flows p p.sure (.executes (init "Base") s) :=
    .executes (.root (by decide +kernel)) rfl hs
  -- The object gets from `init` to `main`.
  have created : Flows p p.sure (.fact (.points made 2)) :=
    .alloc (executes_init List.mem_cons_self) rfl
  have store : .storeField none slot made ∈ (init "Base").body := by simp [init]
  have load : .loadField base none slot ∈ main.body := by simp [main]
  have loaded : Flows p p.sure (.fact (.points base 2)) :=
    .loadStatic (executes_main load) (.storeStatic (executes_init store) created)
  have bodies : ∀ m ∈ p.methods, m.body ⊆
      basePass.body ++ subPass.body ++ main.body ++ (init "Base").body := by decide +kernel
  have unindexed : ∀ m ∈ p.methods, ∀ s ∈ m.body, s.index? = none := by decide +kernel
  have resolved : p.scene.hierarchy.resolve call.method = some basePass := rfl
  refine fun x hx => Flows.transfer (.refl p) ?_ ?_ hx
  · intro m c d executes hk _ hd _ _
    have ⟨hm, hs⟩ := executes.mem_body coherent
    have called : c = call := by
      simpa [basePass, subPass, main, init] using bodies m hm hs
    subst called
    cases resolved.symm.trans hd
    exact .dispatched executes hk resolved rfl rfl loaded rfl
  · intro m s key executes hkey
    have ⟨hm, hs⟩ := executes.mem_body coherent
    exact sure_selects_of_unindexed hs (unindexed m hm s hs) hkey

theorem same_answers_in_both_orders :
    (forth "Base").run.queries = [(1, [1])] ∧ (forth "Base").run.SameAnswers (back "Base").run := by
  have distinct : (forth "Base").program.Distinct := ⟨by decide, by decide⟩
  have reordered : (forth "Base").Reordered (back "Base") := reordered_problemFrom (.swap ..)
  have ⟨_, _, same⟩ := reordered_within_bounds problem_settingsFrom problem_settingsFrom
    analyze_settingsFrom analyze_settingsFrom distinct reordered (by decide +kernel)
    (by decide +kernel)
  exact ⟨by decide +kernel, same bounds_meet⟩

-- An object of the subclass does not, and what stood in for it before it was there stays.
theorem order_matters :
    ¬ OrderIndependent fun p => ∀ m ∈ p.methods, ∀ s ∈ m.body, s.index? = none := by
  have unindexed : ∀ m ∈ (forth "Sub").methods, ∀ s ∈ m.body, s.index? = none := by decide +kernel
  have queries_ne : (back "Sub").run.queries ≠ (forth "Sub").run.queries := by decide +kernel
  exact not_orderIndependent_of_queries_ne unindexed ⟨by decide, by decide⟩ (.swap ..)
    (by decide +kernel) (by decide +kernel) queries_ne

end Passing

-- `put` and `fill` store an array in itself, `put` with an index that it assigns later.
namespace Indexing

def array (owner : Nat) : Var where
  owner := some owner
  index := 0
  name  := "array"
  type  := "Array"

def index : Var where
  owner := some 1
  index := 1
  name  := "index"
  type  := "int"

def put : Method where
  id        := 1
  owner     := "Main"
  name      := "put"
  modifiers := { isStatic := true }
  params    := [array 1]
  body      := [.storeArray (array 1) (some index) (array 1), .literal index (.int 0)]

def read : Var where
  owner := some 2
  index := 1
  name  := "read"
  type  := "Array"

def zero : Var where
  owner := some 2
  index := 2
  name  := "zero"
  type  := "int"
  const := some (.int 0)

def fill : Method where
  id        := 2
  owner     := "Main"
  name      := "fill"
  modifiers := { isStatic := true }
  params    := [array 2]
  body      := [.storeArray (array 2) none (array 2), .loadArray read (array 2) (some zero)]

def callOf (m : Method) : Invoke where
  result := none
  kind   := .static
  method := m.ref
  base   := none
  args   := [array 0]

def main : Method where
  id        := 0
  owner     := "Main"
  name      := "main"
  modifiers := { isStatic := true }
  body      := [.alloc ⟨0, 0⟩ (array 0) "Array", .invoke (callOf put), .invoke (callOf fill)]

def program : Program where
  classes := [{ name := "Main", methods := [main, put, fill] }]

def objects : Objects where
  allocations := [⟨⟨0, 0⟩, 1, "Array"⟩]
  queries     := [(1, read)]

def forth : Problem :=
  problemFrom program objects [main, put, fill]

def back : Problem :=
  problemFrom program objects [main, fill, put]

-- If `fill` is first, the store of `put` adds nothing, so its body is not processed again after the
-- index has been assigned.
theorem order_matters :
    ¬ OrderIndependent fun p => ∀ m ∈ p.methods, ∀ call, .invoke call ∈ m.body →
      call.kind.isDirect := by
  have direct : ∀ m ∈ forth.methods, ∀ call, .invoke call ∈ m.body → call.kind.isDirect := by
    intro m hm call hcall
    have bodies : ∀ m ∈ forth.methods, m.body ⊆ main.body ++ put.body ++ fill.body := by
      decide +kernel
    have called : call = callOf put ∨ call = callOf fill := by
      simpa [main, put, fill] using bodies m hm hcall
    cases called
    case inl h => exact h ▸ rfl
    case inr h => exact h ▸ rfl
  have queries_ne : back.run.queries ≠ forth.run.queries := by decide +kernel
  exact not_orderIndependent_of_queries_ne direct ⟨by decide, by decide⟩
    ((List.Perm.swap ..).cons _) (by decide +kernel) (by decide +kernel) queries_ne

end Indexing
end Sample

-- Stand-ins alone make the order matter, and so do constants alone.
theorem not_orderIndependent :
    (¬ OrderIndependent fun p => ∀ m ∈ p.methods, ∀ s ∈ m.body, s.index? = none) ∧
    ¬ OrderIndependent fun p => ∀ m ∈ p.methods, ∀ call, .invoke call ∈ m.body →
      call.kind.isDirect :=
  ⟨Sample.Passing.order_matters, Sample.Indexing.order_matters⟩

end Analysis
end PointsTo
