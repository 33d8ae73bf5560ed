import PointsTo.Proofs.Execution
import PointsTo.Proofs.FixedPoint

namespace PointsTo

theorem Objects.mem_queryIds_of_query? {o : Objects} {q : Int} {v : Var} (h : o.query? q = some v) :
    q ∈ o.queryIds := by
  have ⟨e, he, _⟩ := Option.map_eq_some_iff.mp h
  have hq := List.findRev?_eq_find?_reverse ▸ he
  have hid : e.1 = q := by simpa using List.find?_some hq
  have hm : e ∈ o.queries := List.mem_reverse.mp (List.mem_of_find?_eq_some hq)
  exact ObjectSet.mem_ofList.mpr (List.mem_map.mpr ⟨e, hm, hid⟩)

namespace Analysis

-- What a result says about a state of an execution. Objects without a number are left out.
structure Covers (p : Problem) (r : Result) (w : World) : Prop where
  methods  : ∀ a ∈ w.activations, a.method ∈ r.reachable
  calls    : ∀ a ∈ w.activations, ∀ i res b, a.caller = some (i, res) →
    w.activations[i]? = some b → a.method ∈ r.graph.callees b.method
  vars     : ∀ a ∈ w.activations, ∀ v o id, a.vars v = some o →
    p.scene.objects.id? o.site = some id → id ∈ r.facts.points.get v
  fields   : ∀ o name x id id', w.fields o name = some x → p.scene.objects.id? o.site = some id →
    p.scene.objects.id? x.site = some id' → id' ∈ r.facts.fields.get ⟨id, .field name⟩
  statics  : ∀ owner name x id, w.statics owner name = some x →
    p.scene.objects.id? x.site = some id →
    id ∈ r.facts.fields.get ⟨Slot.staticOwner owner, .field name⟩
  elements : ∀ o j k x id id', w.elements o j = some (k, x) → p.scene.objects.id? o.site = some id →
    p.scene.objects.id? x.site = some id' → id' ∈ r.facts.fields.elements id
  queries  : ∀ a ∈ w.activations, ∀ q v o id, p.scene.objects.query? q = some v → a.vars v = some o →
    p.scene.objects.id? o.site = some id → 0 < id → ∃ ids, (q, ids) ∈ r.queries ∧ id ∈ ids

-- The number of what is held, if anything is held, is in the set.
def Abstracts (p : Problem) (S : Set Int) (x : Option Object) : Prop :=
  ∀ o, x = some o → ∃ id ∈ S, p.scene.objects.id? o.site = some id

namespace Abstracts

variable {p : Problem} {S T : Set Int} {x : Option Object}

theorem none : Abstracts p S none :=
  fun _ h => nomatch h

theorem mono (h : Abstracts p S x) (hs : S ⊆ T) : Abstracts p T x := by
  intro o ho
  have ⟨id, hid, hn⟩ := h o ho
  exact ⟨id, hs hid, hn⟩

theorem mem (h : Abstracts p S x) {o : Object} (ho : x = some o) {id : Int}
    (hid : p.scene.objects.id? o.site = some id) : id ∈ S := by
  have ⟨id', hid', hn⟩ := h o ho
  exact Option.some.inj (hn ▸ hid) ▸ hid'

theorem update {ι : Type} [DecidableEq ι] {S : ι → Set Int} {env : ι → Option Object} {i : ι}
    (h : ∀ j, Abstracts p (S j) (env j)) (hx : Abstracts p (S i) x) (j : ι) :
    Abstracts p (S j) (Function.update env i x j) := by
  by_cases hj : j = i
  case pos =>
    subst hj
    rwa [Function.update_self]
  case neg =>
    rw [Function.update_of_ne hj]
    exact h j

end Abstracts

-- An activation holds what the facts know of, and so does its caller when it returns.
structure Follows (p : Problem) (r : Result) (others : List Activation) (a : Activation) : Prop where
  method  : a.method ∈ r.reachable
  hasBody : a.method.hasBody
  vars    : ∀ v, Abstracts p (pointees r.facts.toSet v) (a.vars v)
  call    : ∀ i res, a.caller = some (i, res) →
    ∃ b, others[i]? = some b ∧ a.method ∈ r.graph.callees b.method
  result  : ∀ i v, a.caller = some (i, some v) →
    ∀ u ∈ a.method.returned, pointees r.facts.toSet u ⊆ pointees r.facts.toSet v

structure Simulates (p : Problem) (r : Result) (w : World) : Prop where
  follows  : ∀ (i : Nat) a, w.activations[i]? = some a → Follows p r w.activations a
  fields   : ∀ o id, p.scene.objects.id? o.site = some id →
    ∀ name, Abstracts p (contents r.facts.toSet ⟨id, .field name⟩) (w.fields o name)
  statics  : ∀ owner name,
    Abstracts p (contents r.facts.toSet ⟨Slot.staticOwner owner, .field name⟩) (w.statics owner name)
  elements : ∀ o id, p.scene.objects.id? o.site = some id → ∀ j k x, w.elements o j = some (k, x) →
    k.isArray ∧ Abstracts p (contents r.facts.toSet ⟨id, k⟩) (some x)

theorem World.getElem?_assign (w : World) (i : Nat) (v : Var) (x : Option Object) (j : Nat) :
    (w.assign i v x).activations[j]? = (w.activations[j]?).map fun a =>
      if i = j then { a with vars := Function.update a.vars v x } else a :=
  List.getElem?_modify ..

namespace Simulates

variable {p : Problem} {r : Result} {w : World} {i : Nat} {a : Activation} {x : Option Object}

theorem initial (fixed : FixedPoint p r) (h : w.Initial p) : Simulates p r w := by
  have hunset := h.unset
  constructor
  case follows =>
    intro i a ha
    have ⟨hm, hb, he⟩ := h.roots a (List.mem_of_getElem? ha)
    rw [he]
    exact {
      method  := fixed.roots hm
      hasBody := hb
      vars    := fun v => .none
      call    := by simp
      result  := by simp }
  case fields   => rw [hunset]; exact fun _ _ _ _ => .none
  case statics  => rw [hunset]; exact fun _ _ => .none
  case elements => rw [hunset]; simp

theorem assign {v : Var} (h : Simulates p r w)
    (hx : Abstracts p (pointees r.facts.toSet v) x) : Simulates p r (w.assign i v x) := by
  refine { h with follows := fun j a' ha' => ?_ }
  rw [World.getElem?_assign] at ha'
  have ⟨a, ha, he⟩ := Option.map_eq_some_iff.mp ha'
  have hf := h.follows j a ha
  have call : ∀ k res, a.caller = some (k, res) →
      ∃ b, (w.assign i v x).activations[k]? = some b ∧ a.method ∈ r.graph.callees b.method := by
    intro k res hc
    have ⟨b, hb, hm⟩ := hf.call k res hc
    rw [World.getElem?_assign, hb]
    refine ⟨_, rfl, ?_⟩
    split <;> exact hm
  subst he
  split
  case isTrue  => exact { hf with vars := Abstracts.update hf.vars hx, call }
  case isFalse => exact { hf with call }

theorem storeField {o : Object} {name : String} (h : Simulates p r w)
    (hx : ∀ id, p.scene.objects.id? o.site = some id →
      Abstracts p (contents r.facts.toSet ⟨id, .field name⟩) x) :
    Simulates p r (w.storeField o name x) := by
  refine { h with fields := fun o' id hid => ?_ }
  by_cases ho : o' = o
  case pos =>
    subst ho
    simp only [World.storeField, Function.update_self]
    exact Abstracts.update (h.fields o' id hid) (hx id hid)
  case neg =>
    simp only [World.storeField, Function.update_of_ne ho]
    exact h.fields o' id hid

theorem storeStatic {owner name : String} (h : Simulates p r w)
    (hx : Abstracts p (contents r.facts.toSet ⟨Slot.staticOwner owner, .field name⟩) x) :
    Simulates p r (w.storeStatic owner name x) := by
  refine { h with statics := fun owner' => ?_ }
  by_cases ho : owner' = owner
  case pos =>
    subst ho
    simp only [World.storeStatic, Function.update_self]
    exact Abstracts.update (h.statics owner') hx
  case neg =>
    simp only [World.storeStatic, Function.update_of_ne ho]
    exact h.statics owner'

theorem storeElement {o : Object} {j : Int} {key : FieldKey} (h : Simulates p r w) (hk : key.isArray)
    (hx : ∀ id, p.scene.objects.id? o.site = some id →
      Abstracts p (contents r.facts.toSet ⟨id, key⟩) x) :
    Simulates p r (w.storeElement o j (x.map (key, ·))) := by
  refine { h with elements := fun o' id hid j' k y he => ?_ }
  by_cases ho : o' = o ∧ j' = j
  case pos =>
    have ⟨ho, hj⟩ := ho
    subst ho hj
    simp only [World.storeElement, Function.update_self, Option.map_eq_some_iff, Prod.mk.injEq] at he
    have ⟨_, hx', hkey, hy⟩ := he
    subst hkey hy
    exact ⟨hk, hx' ▸ hx id hid⟩
  case neg =>
    refine h.elements o' id hid j' k y (he ▸ ?_)
    simp only [World.storeElement, Function.update_apply]
    split
    case isFalse => rfl
    case isTrue ho' =>
      have hj : j' ≠ j := fun hj => ho ⟨ho', hj⟩
      rw [Function.update_of_ne hj, ho']

theorem start (h : Simulates p r w) (ha : Follows p r w.activations a) :
    Simulates p r (w.start a) := by
  have later {b : Activation} (hb : Follows p r w.activations b) :
      Follows p r (w.start a).activations b := by
    refine { hb with call := fun k res hc => ?_ }
    have ⟨c, hc, hm⟩ := hb.call k res hc
    refine ⟨c, ?_, hm⟩
    rw [World.start, List.getElem?_append_left (List.getElem?_eq_some_iff.mp hc).1]
    exact hc
  refine { h with follows := fun j b hb => ?_ }
  cases List.mem_append.mp (List.mem_of_getElem? hb)
  case inl hm =>
    have ⟨k, hk⟩ := List.getElem?_of_mem hm
    exact later (h.follows k b hk)
  case inr hm => exact List.mem_singleton.mp hm ▸ later ha

end Simulates

-- The variables of a callee, when it starts, hold what is passed to them.
theorem abstracts_passed {p : Problem} {F : Set Fact} {call : Invoke} {callee : Method}
    {vars : Var → Option Object} (hp : Passes F call callee)
    (h : ∀ v, Abstracts p (pointees F v) (vars v)) (v : Var) :
    Abstracts p (pointees F v) (passed call callee vars v) := by
  have fold : ∀ (pairs : List (Var × Var)) (env : Var → Option Object),
      (∀ pa ∈ pairs, pointees F pa.2 ⊆ pointees F pa.1) →
      (∀ v, Abstracts p (pointees F v) (env v)) → ∀ v, Abstracts p (pointees F v)
        (pairs.foldl (fun env pa => Function.update env pa.1 (vars pa.2)) env v) := by
    intro pairs
    induction pairs
    case nil => exact fun _ _ he => he
    case cons pa rest hi =>
      intro env hpairs he
      refine hi _ (fun pa' hm => hpairs pa' (List.mem_cons_of_mem _ hm)) ?_
      exact Abstracts.update he ((h pa.2).mono (hpairs pa List.mem_cons_self))
  refine fold _ _ hp.params ?_ v
  cases hv : callee.receiver <;> cases hb : call.base
  case some.some v b =>
    exact Abstracts.update (fun _ => .none) ((h b).mono (hp.receiver v b hv hb))
  all_goals exact fun _ => .none

-- What a call starts is among the targets that the facts give.
theorem mem_targets_of_starts {p : Problem} {f : Facts} {call : Invoke} {callee : Method}
    {vars : Var → Option Object} (h : ∀ v, Abstracts p (pointees f.toSet v) (vars v))
    (hs : Starts p p.discipline call vars callee) : callee ∈ p.targets f call := by
  have ⟨declared, hd, hn, hc⟩ := hs
  refine Scene.runs_subset_targets ⟨declared, hd, hn, ?_⟩
  split at hc
  case isTrue hk => simpa [hk] using hc
  case isFalse hk =>
    -- The receiver is known by its number, and the number has the type of the receiver.
    have ⟨base, o, k, hb, ho, ⟨id, hid, ht⟩, hclass, hdisp, hnat⟩ := hc
    have hmem : id ∈ f.points.get base := (h base).mem ho hid
    simp only [hk]
    refine ⟨id, ?_, Scene.receiverTarget?_eq_some_iff.mpr ⟨_, k, ht, hclass, hdisp, hnat⟩⟩
    simpa [Facts.receivers, hb] using hmem

-- One case for each kind of statement. The constraint of the statement has room for what it does.
theorem Simulates.step {p : Problem} {r : Result} {w w' : World} (fixed : FixedPoint p r)
    (h : Simulates p r w) (hs : Step p p.discipline w w') : Simulates p r w' := by
  have satisfied {i a pre s} (he : w.Executes i a pre s) :
      Satisfies p r.facts.toSet (.ofStmts pre) (p.targets r.facts) s := by
    have ⟨ha, post, hb⟩ := he
    have hf := h.follows i a ha
    exact fixed.satisfied a.method hf.method hf.hasBody pre s post hb
  have vars {i a pre s} (he : w.Executes i a pre s) := (h.follows i a he.left).vars
  cases hs
  case alloc he hc =>
    have ⟨id, hid⟩ := hc
    refine Simulates.assign (w := { w with created := w.created + 1 }) { h with } ?_
    intro o ho
    cases ho
    exact ⟨id, satisfied he id hid, hid⟩
  case literal he => exact h.assign (.none)
  case copy he    => exact h.assign ((vars he _).mono (satisfied he))
  case cast he    => exact h.assign ((vars he _).mono (satisfied he))
  case loadField he ho =>
    have ⟨id, hid, hn⟩ := vars he _ _ ho
    exact h.assign ((h.fields _ id hn _).mono (satisfied he id hid))
  case loadStatic he =>
    exact h.assign ((h.statics _ _).mono (satisfied he _ rfl))
  case storeField he ho =>
    refine h.storeField fun id hid => (vars he _).mono (satisfied he id ?_)
    exact (vars he _).mem ho hid
  case storeStatic he =>
    exact h.storeStatic ((vars he _).mono (satisfied he _ rfl))
  case loadArray j he ho hr =>
    have ⟨id, hid, hn⟩ := vars he _ _ ho
    refine h.assign fun x hx => ?_
    have ⟨⟨k, x'⟩, hel, hx⟩ := Option.map_eq_some_iff.mp hx
    have ⟨_, hk⟩ := h.elements _ id hn j k x' hel
    exact hk.mono (satisfied he id hid k (hr k x' hel)) x (congrArg some hx)
  case storeArray j he ho =>
    refine h.storeElement (Constants.isArray_key ..) fun id hid => ?_
    exact (vars he _).mono (satisfied he id ((vars he _).mem ho hid))
  case invoke i a pre call callee he hs hb =>
    have ⟨ha, post, hbody⟩ := he
    have hf := h.follows i a ha
    have ht := mem_targets_of_starts (vars he) hs
    have hmem : .invoke call ∈ a.method.body := by simp [hbody]
    have hp := satisfied he callee ht hb
    refine h.start {
      method  := fixed.callees a.method hf.method hf.hasBody call hmem callee ht hb
      hasBody := hb
      vars    := abstracts_passed hp (vars he)
      call    := ?_
      result  := ?_ }
    · intro j res hc
      cases hc
      exact ⟨a, ha, fixed.calls a.method hf.method hf.hasBody call hmem callee ht⟩
    · intro j v hc
      simp only [Option.some.injEq, Prod.mk.injEq] at hc
      exact hp.result v hc.right
  case ret i a pre v j res he hc =>
    have ⟨ha, post, hb⟩ := he
    refine h.assign ((vars he v).mono ((h.follows i a ha).result j res hc v ?_))
    simp only [Method.returned, List.mem_filterMap]
    exact ⟨.ret (some v), by simp [hb], rfl⟩

theorem Simulates.reachable {p : Problem} {r : Result} {w : World} (fixed : FixedPoint p r)
    (h : w.Reachable p p.discipline) : Simulates p r w := by
  -- The induction is on the steps of the execution.
  have ⟨w₀, h₀, hsteps⟩ := h
  induction hsteps
  case refl             => exact .initial fixed h₀
  case tail hsteps hs hi => exact (hi ⟨w₀, h₀, hsteps⟩).step fixed hs

theorem Simulates.covers {p : Problem} {w : World} (h : Simulates p p.run w) : Covers p p.run w := by
  have follows {a} (ha : a ∈ w.activations) : Follows p p.run w.activations a := by
    have ⟨i, hi⟩ := List.getElem?_of_mem ha
    exact h.follows i a hi
  constructor
  case methods => exact fun a ha => (follows ha).method
  case calls =>
    intro a ha i res b hc hb
    have ⟨b', hb', hm⟩ := (follows ha).call i res hc
    exact Option.some.inj (hb ▸ hb') ▸ hm
  case vars =>
    intro a ha v o id ho hid
    exact ((follows ha).vars v).mem ho hid
  case fields =>
    intro o name x id id' hx hid hid'
    exact (h.fields o id hid name).mem hx hid'
  case statics =>
    intro owner name x id hx hid
    exact (h.statics owner name).mem hx hid
  case elements =>
    intro o j k x id id' hx hid hid'
    have ⟨hk, ha⟩ := h.elements o id hid j k x hx
    exact Fields.mem_elements.mpr ⟨k, hk, ha.mem rfl hid'⟩
  case queries =>
    intro a ha q v o id hq ho hid hpos
    refine ⟨_, List.mem_map.mpr ⟨q, Objects.mem_queryIds_of_query? hq, rfl⟩, ?_⟩
    simp only [hq]
    exact ObjectSet.mem_observable.mpr ⟨((follows ha).vars v).mem ho hid, hpos⟩

-- A converged result covers every execution that keeps to the discipline, and all objects of such
-- an execution have a number.
theorem covers_of_converged {s : Settings} {p : Problem} {r : Result} {w : World}
    (valid : s.problem = .ok p) (done : analyze s = .ok r) (converged : r.converged)
    (reached : w.Reachable p p.discipline) :
    Covers p r w ∧
      ∀ a ∈ w.activations, ∀ v o, a.vars v = some o →
        ∃ id, p.scene.objects.id? o.site = some id := by
  have hr := run_eq_of_analyze valid done
  subst hr
  have fixed := fixedPoint_run (Settings.coherent valid) converged
  have simulates := Simulates.reachable fixed reached
  refine ⟨simulates.covers, fun a ha v o ho => ?_⟩
  have ⟨i, hi⟩ := List.getElem?_of_mem ha
  have ⟨id, _, hid⟩ := (simulates.follows i a hi).vars v o ho
  exact ⟨id, hid⟩

namespace World

theorem executes {w : World} {a : Activation} {s : Stmt} (i n : Nat)
    (ha : w.activations[i]? = some a) (hs : a.method.body[n]? = some s) :
    w.Executes i a (a.method.body.take n) s := by
  have ⟨hn, hs⟩ := List.getElem?_eq_some_iff.mp hs
  exact ⟨ha, a.method.body.drop (n + 1), by simp [← hs]⟩

-- The state in which only `m` is active.
def begin (m : Method) : World where
  activations := [{ method := m }]

theorem initial_begin {p : Problem} {m : Method} (hm : m ∈ p.roots) (hb : m.hasBody) :
    (begin m).Initial p where
  roots := by
    intro a ha
    have ha := List.mem_singleton.mp ha
    subst ha
    exact ⟨hm, hb, rfl⟩
  unset := rfl

end World

namespace Sample

theorem starts_get {body : List Stmt} {objects : Objects} {d : Discipline}
    {vars : Var → Option Object} {n : Nat} {site : Site} (h : vars cell = some ⟨n, site, "Cell"⟩)
    (hd : d.Dispatches ⟨n, site, "Cell"⟩) : Starts (problemOf body objects) d call vars get := by
  have resolved : (programOf body).hierarchy.resolve call.method = some declared := rfl
  have dispatched : (programOf body).hierarchy.dispatch cellClass "get()" = some get := rfl
  exact ⟨declared, resolved, rfl, cell, _, cellClass, rfl, h, hd, rfl, dispatched, rfl⟩

-- The item that `main` has found is the one that `get` has returned.
theorem cell_execution : ∃ w : World, w.Reachable problem problem.discipline ∧
    ∃ a ∈ w.activations, a.vars found = some ⟨1, ⟨1, 2⟩, "Item"⟩ := by
  refine ⟨_, ⟨_, World.initial_begin (List.mem_singleton.mpr rfl) rfl,
    .head (.alloc (World.executes 0 0 rfl rfl) ⟨1, rfl⟩) <|
    .head (.alloc (World.executes 0 1 rfl rfl) ⟨2, rfl⟩) <|
    .head (.storeField (World.executes 0 2 rfl rfl) rfl) <|
    .head (.invoke (World.executes 0 3 rfl rfl) (starts_get rfl ⟨1, rfl, rfl⟩) rfl) <|
    .head (.loadField (World.executes 1 0 rfl rfl) rfl) <|
    .head (.ret (World.executes 1 1 rfl rfl) rfl) .refl⟩, ?_⟩
  exact ⟨_, List.mem_cons_self, by decide +kernel⟩

theorem cell_covers :
    problem.run.converged ∧ ∃ w : World, w.Reachable problem problem.discipline ∧
      (∃ a ∈ w.activations, a.vars found = some ⟨1, ⟨1, 2⟩, "Item"⟩) ∧
      Covers problem problem.run w := by
  have ⟨w, reached, held⟩ := cell_execution
  have ⟨covers, _⟩ := covers_of_converged (problem_settingsOf storing objects)
    (analyze_settingsOf storing objects) converged_run reached
  exact ⟨converged_run, w, reached, held, covers⟩

end Sample

-- What converged results would have to do for all executions of a discipline.
def Sound (d : Problem → Discipline) : Prop :=
  ∀ s p r w, s.problem = .ok p → analyze s = .ok r → r.converged → w.Reachable p (d p) → Covers p r w

namespace Sample

theorem not_sound {d : Problem → Discipline} (body : List Stmt) (objects : Objects) {w : World}
    (hb : (mainOf body).hasBody) (converged : (problemOf body objects).run.converged)
    (steps : Relation.ReflTransGen (Step (problemOf body objects) (d (problemOf body objects)))
      (.begin (mainOf body)) w)
    (missed : ¬ Covers (problemOf body objects) (problemOf body objects).run w) : ¬ Sound d := by
  intro sound
  have initial := World.initial_begin (p := problemOf body objects) (List.mem_singleton.mpr rfl) hb
  exact missed (sound _ _ _ w (problem_settingsOf body objects) (analyze_settingsOf body objects)
    converged ⟨_, initial, steps⟩)

def unknown : Var where
  owner := some 2
  index := 3
  name  := "i"
  type  := "int"

def zero : Var where
  owner := some 2
  index := 4
  name  := "0"
  type  := "int"
  const := some (.int 0)

-- An item is stored with an unknown index and found with a known one.
def indexing : List Stmt :=
  [.alloc ⟨0, 2⟩ cell "Cell", .alloc ⟨1, 2⟩ item "Item", .storeArray cell (some unknown) item,
    .loadArray found cell (some zero)]

theorem not_sound_of_reads {d : Problem → Discipline}
    (creates : ∀ p site id, p.scene.objects.id? site = some id → (d p).Creates site)
    (reads : ∀ p key k, (d p).Reads key k) : ¬ Sound d := by
  refine not_sound indexing objects rfl (by decide +kernel)
    (.head (.alloc (World.executes 0 0 rfl rfl) (creates _ _ 1 rfl)) <|
      .head (.alloc (World.executes 0 1 rfl rfl) (creates _ _ 2 rfl)) <|
      .head (.storeArray 0 (World.executes 0 2 rfl rfl) rfl) <|
      .head (.loadArray 0 (World.executes 0 3 rfl rfl) rfl fun _ _ _ => reads ..) .refl) ?_
  intro covers
  have := covers.vars _ List.mem_cons_self found ⟨1, ⟨1, 2⟩, "Item"⟩ 2 (by decide +kernel) rfl
  exact absurd this (by decide +kernel)

-- A cell and an item have the same number, which the analysis takes to be an item.
def calling : List Stmt :=
  [.alloc ⟨0, 2⟩ cell "Cell", .alloc ⟨1, 2⟩ item "Item", .invoke call]

def sharing : Objects where
  allocations := [⟨⟨0, 2⟩, 1, "Cell"⟩, ⟨⟨1, 2⟩, 1, "Item"⟩]

theorem not_sound_of_dispatches {d : Problem → Discipline}
    (creates : ∀ p site id, p.scene.objects.id? site = some id → (d p).Creates site)
    (dispatches : ∀ p o, (d p).Dispatches o) : ¬ Sound d := by
  refine not_sound calling sharing rfl (by decide +kernel)
    (.head (.alloc (World.executes 0 0 rfl rfl) (creates _ _ 1 rfl)) <|
      .head (.invoke (World.executes 0 2 rfl rfl) (starts_get rfl (dispatches ..)) rfl) .refl) ?_
  intro covers
  have := covers.methods _ (List.mem_cons_of_mem _ List.mem_cons_self)
  exact absurd this (by decide +kernel)

-- The cell has no number.
def loading : List Stmt :=
  [.alloc ⟨0, 2⟩ cell "Cell", .alloc ⟨1, 2⟩ item "Item", .storeField (some cell) ⟨"Cell", "f"⟩ item,
    .loadField found (some cell) ⟨"Cell", "f"⟩]

def onlyItem : Objects where
  allocations := [⟨⟨1, 2⟩, 2, "Item"⟩]

theorem not_sound_of_creates {d : Problem → Discipline}
    (creates : ∀ p site, (d p).Creates site) : ¬ Sound d := by
  refine not_sound loading onlyItem rfl (by decide +kernel)
    (.head (.alloc (World.executes 0 0 rfl rfl) (creates ..)) <|
      .head (.alloc (World.executes 0 1 rfl rfl) (creates ..)) <|
      .head (.storeField (World.executes 0 2 rfl rfl) rfl) <|
      .head (.loadField (World.executes 0 3 rfl rfl) rfl) .refl) ?_
  intro covers
  have := covers.vars _ List.mem_cons_self found ⟨1, ⟨1, 2⟩, "Item"⟩ 2 (by decide +kernel) rfl
  exact absurd this (by decide +kernel)

end Sample

-- Results do not cover unrestricted executions, and all three restrictions are needed.
theorem not_sound_without_discipline :
    ¬ Sound (fun _ => .free) ∧
    ¬ Sound (fun p => { p.discipline with Reads := fun _ _ => True }) ∧
    ¬ Sound (fun p => { p.discipline with Dispatches := fun _ => True }) ∧
    ¬ Sound (fun p => { p.discipline with Creates := fun _ => True }) := by
  have numbered (p : Problem) (site : Site) (id : Int) (h : p.scene.objects.id? site = some id) :
      p.discipline.Creates site := ⟨id, h⟩
  refine ⟨Sample.not_sound_of_reads ?_ ?_, Sample.not_sound_of_reads numbered ?_,
    Sample.not_sound_of_dispatches numbered ?_, Sample.not_sound_of_creates ?_⟩
  all_goals simp [Discipline.free]

end Analysis
end PointsTo
