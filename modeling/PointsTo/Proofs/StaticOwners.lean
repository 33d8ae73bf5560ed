import PointsTo.Proofs.Effect
import PointsTo.Proofs.Numbering
import PointsTo.Proofs.Slots

namespace PointsTo

theorem Slot.staticOwner_bounds (c : String) :
    -1074741823 ≤ staticOwner c ∧ staticOwner c ≤ -1000000 := by
  have masked : (hash32 c &&& 0x3fffffff).toNat ≤ 0x3fffffff := by
    rw [UInt32.toNat_and]
    exact Nat.and_le_right
  unfold staticOwner
  omega

theorem Slot.staticOwner_not_mem_observable (c : String) (s : ObjectSet) :
    staticOwner c ∉ s.observable := by
  have := staticOwner_bounds c
  rw [ObjectSet.mem_observable]
  omega

namespace Markers

variable {mk : Markers} {body : List Stmt} {i : Nat} {s : Stmt}

-- The statement at this place of a body is an allocation without a label.
def IsBare (mk : Markers) (body : List Stmt) (i : Nat) : Prop :=
  (∃ site lhs type, body[i]? = some (.alloc site lhs type)) ∧ ∀ k, ¬ mk.Labels (body.take i) k

theorem isBare_iff : mk.IsBare body i ↔
    (body[i]?.bind Stmt.site?).isSome ∧ (mk.labelAfter (body.take i)).isNone := by
  refine and_congr ?site ?unlabelled
  case site =>
    rw [Option.isSome_iff_exists]
    refine exists_congr fun site => ?_
    cases body[i]? <;> simp [Stmt.site?_eq_some_iff]
  case unlabelled =>
    rw [Option.isNone_iff_eq_none, Option.eq_none_iff_forall_ne_some]
    simp [labelAfter_eq_some_iff]

instance : DecidablePred (mk.IsBare body) :=
  fun _ => decidable_of_iff' _ isBare_iff

def bare (mk : Markers) (body : List Stmt) : List Nat :=
  (List.range body.length).filter fun i => mk.IsBare body i

theorem isBare_append (h : i < body.length) : mk.IsBare (body ++ [s]) i ↔ mk.IsBare body i := by
  rw [isBare_iff, isBare_iff, List.getElem?_append_left h, List.take_append_of_le_length h.le]

theorem isBare_last :
    mk.IsBare (body ++ [s]) body.length ↔ s.site?.isSome ∧ (mk.labelAfter body).isNone := by
  simp [isBare_iff]

theorem bare_append : mk.bare (body ++ [s]) = mk.bare body ++
    if s.site?.isSome ∧ (mk.labelAfter body).isNone then [body.length] else [] := by
  have before : (List.range body.length).filter (fun i => mk.IsBare (body ++ [s]) i) =
      mk.bare body :=
    List.filter_congr fun i hi => by simp [isBare_append (List.mem_range.mp hi)]
  unfold bare at before ⊢
  rw [List.length_append, List.length_singleton, List.range_succ, List.filter_append, before]
  simp [List.filter_singleton, isBare_last]

-- They are the ones that the scan leaves without a label.
theorem unlabelled_labelled :
    Allocation.unlabelled (labelled none (body.map mk.mark)) = (mk.bare body).length := by
  induction body using List.reverseRecOn
  case nil => rfl
  case append_singleton body s hi =>
    have last (pending : Option Int) : Allocation.unlabelled (labelled pending [mk.mark s]) =
        (if s.site?.isSome ∧ pending.isNone then [body.length] else []).length := by
      rw [← @site?_mark mk]
      cases pending
      all_goals cases mk.mark s <;> rfl
    rw [bare_append, List.length_append, ← hi, List.map_append, labelled_append,
      Allocation.unlabelled, List.countP_append]
    exact congrArg _ (last _)

end Markers

namespace Program

variable {p : Program} {mk markers : Markers} {id : Int}

def bare (p : Program) (mk : Markers) : List (Method × Nat) :=
  (p.methods.filter Method.hasBody).flatMap fun m => (mk.bare m.body).map fun i => (m, i)

theorem unlabelled_labelled :
    Allocation.unlabelled (labelled mk (p.methods.filter Method.hasBody)) = (p.bare mk).length := by
  simp only [labelled, Allocation.unlabelled, List.countP_flatMap, bare, List.length_flatMap,
    List.length_map]
  exact congrArg List.sum (List.map_congr_left fun m _ => Markers.unlabelled_labelled)

theorem mem_ids_bounds (h : id ∈ (p.objects markers).ids) :
    0 < id ∨ -((p.bare markers.orStandard).length : Int) ≤ id ∧ id < 0 := by
  rw [Objects.ids, ObjectSet.mem_toList, ObjectSet.mem_ofList, allocations_objects,
    Allocation.mem_ids_number, unlabelled_labelled, Int.zero_sub] at h
  cases h
  case inl labelled =>
    obtain ⟨x, hx, hk⟩ := labelled
    exact .inl (label_pos hx hk)
  case inr numbered => exact .inr numbered

theorem staticOwner_not_mem_ids (few : (p.bare markers.orStandard).length < 1000000) (c : String) :
    Slot.staticOwner c ∉ (p.objects markers).ids := by
  intro h
  have := Slot.staticOwner_bounds c
  have := mem_ids_bounds h
  omega

end Program

theorem Objects.mem_ids_of_id? {o : Objects} {site : Site} {id : Int} (h : o.id? site = some id) :
    id ∈ o.ids := by
  have ⟨a, ha, he⟩ := Option.map_eq_some_iff.mp h
  exact ObjectSet.mem_ofList.mpr (List.mem_map.mpr ⟨a, List.mem_of_find?_eq_some ha, he⟩)

-- Statements about the parts of objects, and statements about static fields.
def Stmt.AccessesObjects : Stmt → Prop
  | .loadField _ base _ | .storeField base _ _ => base.isSome
  | .loadArray .. | .storeArray .. => True
  | _ => False

def Stmt.AccessesStatics : Stmt → Prop
  | .loadField _ base _ | .storeField base _ _ => base = none
  | _ => False

namespace Analysis

section Written

variable {p : Problem} {f : Facts} {cs : Constants} {s : Stmt} {slot : Slot} {st : State}
  {m : Method}

theorem exists_points_of_written (h : s.AccessesObjects) (written : slot ∈ writtenSlots f cs s) :
    ∃ v, slot.object ∈ f.points.get v := by
  cases s
  case storeField base field rhs =>
    obtain ⟨v, rfl⟩ := Option.isSome_iff_exists.mp h
    exact ⟨v, Facts.mem_owners.mp written.1⟩
  case storeArray base index rhs => exact ⟨base, written.1⟩
  case loadField | loadArray     => exact False.elim written
  all_goals exact False.elim h

theorem exists_staticOwner_of_written (h : s.AccessesStatics)
    (written : slot ∈ writtenSlots f cs s) : ∃ c, slot.object = Slot.staticOwner c := by
  cases s
  case storeField base field rhs =>
    obtain rfl : base = none := h
    exact ⟨field.owner, List.mem_singleton.mp written.1⟩
  case loadField => exact False.elim written
  all_goals exact False.elim h

-- The statement does not name the slot, and the slot holds the same before and after it.
def Leaves (p : Problem) (st : State) (m : Method) (cs : Constants) (s : Stmt) (slot : Slot) :
    Prop :=
  slot ∉ writtenSlots st.facts cs s ∧
    (st.step p m cs (.ofStmt p s)).1.facts.fields.get slot = st.facts.fields.get slot

theorem leaves_of_not_written (h : slot ∉ writtenSlots st.facts cs s) :
    Leaves p st m cs s slot := by
  refine ⟨h, ?_⟩
  rw [State.facts_step]
  refine ObjectSet.ext_mem fun o => ⟨fun ho => ?new, fun ho => ?old⟩
  case new =>
    have named : .holds slot o ∈ namedBound p st.facts cs s := step_subset_named p st.facts cs s ho
    exact named.resolve_right h
  case old =>
    have kept : .holds slot o ∈ st.facts.toSet := ho
    exact Facts.le_step cs st.facts _ s kept

end Written

-- Between two of the states the statement was processed, as a part of a method that was swept.
def Processed (p : Problem) (states : List State) (st : State) (m : Method) (s : Stmt) : Prop :=
  m ∈ st.swept ∧ m.hasBody ∧ s ∈ m.body ∧
    ∃ cs, cs.From m.body ∧ [st, (st.step p m cs (.ofStmt p s)).1] <:+: states

-- Objects and owners of static fields at one moment of a run, after the states of the `past`.
structure StaticsApart (p : Problem) (past : List State) (st : State) : Prop where
  points  : ∀ v c, Slot.staticOwner c ∉ st.facts.points.get v
  -- No statement about objects writes a slot of an owner, and no statement about static fields one
  -- of an object.
  owners  : ∀ m cs s c key, s.AccessesObjects → Leaves p st m cs s ⟨Slot.staticOwner c, key⟩
  objects : ∀ m cs s, s.AccessesStatics → ∀ o ∈ p.scene.objects.ids, ∀ key,
    Leaves p st m cs s ⟨o, key⟩
  -- A static load receives what the field of the owner holds, and this was stored by a static store
  -- to a field of that name, of a class with the same owner.
  loads   : ∀ m cs lhs field x,
    x ∈ (st.step p m cs (.ofStmt p (.loadField lhs none field))).1.facts.points.get lhs →
      x ∈ st.facts.points.get lhs ∨
        x ∈ st.facts.load (st.facts.owners none field) (.field field.name)
  stored  : ∀ field, ∀ x ∈ st.facts.load (st.facts.owners none field) (.field field.name),
    ∃ early m stored rhs, Processed p (past ++ [st]) early m (.storeField none stored rhs) ∧
      stored.name = field.name ∧ Slot.staticOwner stored.owner = Slot.staticOwner field.owner ∧
      x ∈ early.facts.points.get rhs

section Apart

variable {p : Problem} {st : State} (apart : ∀ c, Slot.staticOwner c ∉ p.scene.objects.ids)
include apart

theorem staticOwner_not_mem_points (hst : st ∈ p.states) (v : Var) (c : String) :
    Slot.staticOwner c ∉ st.facts.points.get v := by
  intro h
  have points : .points v (Slot.staticOwner c) ∈ st.facts.toSet := h
  have ⟨_, _, creates⟩ := creates_of_grounded ((preserved_grounded p).states st hst points)
  have ⟨_, _, _, _, _, created⟩ := creates
  exact apart c (Objects.mem_ids_of_id? created)

-- The step that first made a static field hold something was a static store.
theorem exists_static_store {past rest : List State} (split : p.states = past ++ st :: rest)
    {c name : String} {x : Int} (h : x ∈ st.facts.fields.get ⟨Slot.staticOwner c, .field name⟩) :
    ∃ early m stored rhs, Processed p (past ++ [st]) early m (.storeField none stored rhs) ∧
      stored.name = name ∧ Slot.staticOwner stored.owner = Slot.staticOwner c ∧
      x ∈ early.facts.points.get rhs := by
  have start : ∀ st₀ ∈ p.states.head?,
      ¬ .holds ⟨Slot.staticOwner c, .field name⟩ x ∈ st₀.facts.toSet := by
    intro st₀ h₀ hx
    obtain rfl : State.start p = st₀ := Option.some.inj h₀
    exact State.facts_start_subset p ∅ hx
  have ⟨early, late, within, leads, before, after⟩ := exists_change (isChain_states p) start split h
  cases leads
  case idle same => exact absurd (same ▸ after) before
  case step m cs s hm hb hs hc =>
    rw [State.facts_step] at after
    have stores := (stores_of_step after).resolve_left before
    cases s
    case storeField base field rhs =>
      have ⟨key, owner, hx⟩ := stores
      cases base
      case none =>
        exact ⟨early, m, field, rhs, ⟨hm, hb, hs, cs, hc, within⟩, (FieldKey.field.inj key).symm,
          (Set.mem_singleton_iff.mp owner).symm, hx⟩
      case some b =>
        have known : early ∈ p.states := by
          rw [split, List.append_cons]
          exact List.mem_append_left _ (within.subset List.mem_cons_self)
        exact absurd owner (staticOwner_not_mem_points apart known b c)
    case storeArray base index rhs =>
      have array := Constants.isArray_key cs index
      rw [← stores.1] at array
      exact absurd array Bool.false_ne_true
    all_goals exact stores.elim

theorem staticsApart {past rest : List State} (split : p.states = past ++ st :: rest) :
    StaticsApart p past st := by
  have here : st ∈ p.states := by simp [split]
  have points := staticOwner_not_mem_points apart here
  constructor
  case points => exact points
  case owners =>
    intro m cs s c key accesses
    refine leaves_of_not_written fun written => ?_
    have ⟨v, hv⟩ := exists_points_of_written accesses written
    exact points v c hv
  case objects =>
    intro m cs s accesses o ho key
    refine leaves_of_not_written fun written => ?_
    have ⟨c, hc⟩ := exists_staticOwner_of_written accesses written
    exact apart c (hc ▸ ho)
  case loads =>
    intro m cs lhs field x hx
    rw [State.facts_step] at hx
    have points : .points lhs x ∈ (st.facts.step cs (p.finding st.facts (.loadField lhs none field))
      (.loadField lhs none field)).facts.toSet := hx
    simpa using Update.mem_point.mp points
  case stored =>
    intro field x hx
    have ⟨o, ho, held⟩ := Facts.mem_load.mp hx
    obtain rfl := List.mem_singleton.mp ho
    exact exists_static_store apart split held

end Apart

-- The owners of static fields have numbers of 32 bits that are never reported. With fewer than a
-- million allocations without a label they are no objects, and every run keeps the two apart.
theorem static_owners_apart :
    (∀ c, -1074741823 ≤ Slot.staticOwner c ∧ Slot.staticOwner c ≤ -1000000 ∧
      -2147483648 ≤ Slot.staticOwner c ∧ ∀ s : ObjectSet, Slot.staticOwner c ∉ s.observable) ∧
    ∀ (q : Program) (markers : Markers), (q.bare markers.orStandard).length < 1000000 →
      (∀ c site, (q.objects markers).id? site ≠ some (Slot.staticOwner c)) ∧
      (∀ c, Slot.staticOwner c ∉ (q.objects markers).ids) ∧
      ∀ s r, s.objects = some (q.objects markers) → analyze s = .ok r →
        ∃ p, s.problem = .ok p ∧ r = p.run ∧ p.scene.objects = q.objects markers ∧
          p.states.getLast? = some p.solve.state ∧
          ∀ past st rest, p.states = past ++ st :: rest → StaticsApart p past st := by
  refine ⟨fun c => ?range, fun q markers few => ?apart⟩
  case range =>
    have ⟨low, high⟩ := Slot.staticOwner_bounds c
    exact ⟨low, high, by omega, Slot.staticOwner_not_mem_observable c⟩
  case apart =>
    have apart := Program.staticOwner_not_mem_ids few
    refine ⟨fun c site h => apart c (Objects.mem_ids_of_id? h), apart, fun s r ho hr => ?_⟩
    have ⟨p, valid, run⟩ := problem_of_analyze hr
    have ⟨_, _, _, ho', hp⟩ := Settings.problem_eq valid
    have same : p.scene.objects = q.objects markers := by
      rw [hp]
      exact Option.some.inj (ho'.symm.trans ho)
    refine ⟨p, valid, run, same, getLast?_states p, fun past st rest split => ?_⟩
    exact staticsApart (same ▸ apart) split

namespace Sample

-- An item without a label goes through a static field.
def publishing : List Stmt :=
  [.alloc ⟨0, 2⟩ item "Item", .storeField none ⟨"Main", "f"⟩ item,
    .loadField found none ⟨"Main", "f"⟩]

def published : Objects :=
  (programOf publishing).objects {}

theorem publishing_apart :
    ((programOf publishing).bare (Markers.orStandard {})).length < 1000000 ∧ published.ids = [-1] ∧
      Slot.staticOwner "Main" ∉ published.ids ∧
      ∃ past st, (problemOf publishing published).states = past ++ [st] ∧
        -1 ∈ st.facts.points.get found ∧ StaticsApart (problemOf publishing published) past st := by
  have few : ((programOf publishing).bare (Markers.orStandard {})).length < 1000000 := by
    decide +kernel
  have ⟨_, apart, runs⟩ := static_owners_apart.right (programOf publishing) {} few
  have ⟨p, valid, _, _, last, states⟩ := runs (settingsOf publishing published) _ rfl rfl
  obtain rfl : problemOf publishing published = p := Except.ok.inj valid
  have ⟨past, split⟩ := List.getLast?_eq_some_iff.mp last
  have found : -1 ∈ (problemOf publishing published).solve.state.facts.points.get found := by
    decide +kernel
  exact ⟨few, by decide +kernel, apart "Main", past, _, split, found, states past _ [] split⟩

end Sample
end Analysis
end PointsTo
