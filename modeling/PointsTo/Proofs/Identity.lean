import PointsTo.Proofs.Numbering
import PointsTo.Proofs.Targets

namespace PointsTo

def Stmt.creation? : Stmt → Option (Site × String)
  | .alloc site _ type => some (site, type)
  | _ => none

theorem Stmt.creation?_eq_some_iff {s : Stmt} {site : Site} {type : String} :
    s.creation? = some (site, type) ↔ ∃ lhs, s = .alloc site lhs type := by
  cases s <;> simp [creation?]

theorem Markers.creations_labelled {mk : Markers} {pending : Option Int} {body : List Stmt} :
    (labelled pending (body.map mk.mark)).map (fun e => (e.1, e.2.1)) =
      body.filterMap Stmt.creation? := by
  induction body generalizing pending
  case nil => rfl
  case cons s rest hi =>
    cases s
    case alloc => simp [mark, labelled, Stmt.creation?, hi]
    case invoke call =>
      have none : (∀ site type, mk.mark (.invoke call) ≠ .alloc site type) := by
        simp only [mark]
        grind
      rw [List.map_cons, List.filterMap_cons]
      cases hs : mk.mark (.invoke call)
      case alloc site type => exact absurd hs (none site type)
      all_goals exact hi
    all_goals exact hi

theorem Allocation.creations_number {last : Int} {xs : List (Site × String × Option Int)} :
    (number last xs).map (fun a => (a.site, a.type)) = xs.map fun x => (x.1, x.2.1) := by
  fun_induction number last xs <;> simp_all

namespace Program

variable {p : Program} {markers : Markers} {earlier before : List Stmt} {site : Site} {id : Int}
  {lhs : Var} {type : String}

theorem creations_allocations :
    (p.objects markers).allocations.map (fun a => (a.site, a.type)) =
      p.statements.filterMap Stmt.creation? := by
  rw [allocations_objects, Allocation.creations_number]
  simp only [labelled, List.map_flatMap, Markers.creations_labelled, statements,
    List.filterMap_flatMap]

theorem exists_allocation_iff :
    (∃ a ∈ (p.objects markers).allocations, a.site = site ∧ a.type = type) ↔
      ∃ lhs, .alloc site lhs type ∈ p.statements := by
  have created : (site, type) ∈ (p.objects markers).allocations.map (fun a => (a.site, a.type)) ↔
      (site, type) ∈ p.statements.filterMap Stmt.creation? := by
    rw [creations_allocations]
  simp only [List.mem_map, Prod.mk.injEq, List.mem_filterMap, Stmt.creation?_eq_some_iff] at created
  rw [created]
  grind

theorem type?_eq_some (h : ∃ a ∈ (p.objects markers).allocations, a.id = id)
    (same : ∀ a ∈ (p.objects markers).allocations, a.id = id → a.type = type) :
    (p.objects markers).type? id = some type := by
  unfold Objects.type?
  rw [List.findRev?_eq_find?_reverse]
  have ⟨a, ha⟩ : ∃ a, (p.objects markers).allocations.reverse.find? (·.id = id) = some a := by
    rw [← Option.isSome_iff_exists]
    simpa using h
  have mem : a ∈ (p.objects markers).allocations := by
    simpa using List.mem_of_find?_eq_some ha
  have number : a.id = id := by simpa using List.find?_some ha
  rw [ha, Option.map_some, same a mem number]

-- All that are allocated with the same label are of this type.
def LabelsType (p : Program) (mk : Markers) (before : List Stmt) (type : String) : Prop :=
  ∀ k earlier' before' site' lhs' type', mk.Labels before k → p.Allocates earlier' before' site' →
    mk.Labels before' k → .alloc site' lhs' type' ∈ p.statements → type' = type

theorem Allocates.type?_of_labelsType (own : p.OwnSites) (h : p.Allocates earlier before site)
    (hs : .alloc site lhs type ∈ p.statements)
    (same : p.LabelsType markers.orStandard before type)
    (hid : (p.objects markers).id? site = some id) : (p.objects markers).type? id = some type := by
  have ⟨a, ha, site_eq, id_eq⟩ := (id?_eq_some_iff own).mp hid
  refine type?_eq_some ⟨a, ha, id_eq⟩ fun b hb id_eq' => ?_
  by_cases e : b.site = site
  case pos =>
    have ⟨c, hc, site_eq', type_eq⟩ := (@exists_allocation_iff p markers _ _).mpr ⟨lhs, hs⟩
    rw [List.inj_on_of_nodup_map own.nodup hb hc (e.trans site_eq'.symm), type_eq]
  case neg =>
    have shared : (p.objects markers).id? b.site = some id :=
      (id?_eq_some_iff own).mpr ⟨b, hb, rfl, id_eq'⟩
    have ⟨lhs', hs'⟩ := exists_allocation_iff.mp ⟨b, hb, rfl, rfl⟩
    have ⟨_, _, h'⟩ := exists_allocates (Option.isSome_of_mem shared)
    have ⟨k, hk, hk'⟩ := (h.id?_eq_iff own h' (Ne.symm e)).mp (hid.trans shared.symm)
    exact same k _ _ _ _ _ hk h' hk' hs'

end Program

-- What the object of an allocation says about it.
structure Identity (p : Program) (mk : Markers) (o : Objects) : Prop where
  assigned : ∀ site lhs type, .alloc site lhs type ∈ p.statements → (o.id? site).isSome
  distinct : ∀ earlier before site earlier' before' site', p.Allocates earlier before site →
    p.Allocates earlier' before' site' → site ≠ site' →
    (¬ ∃ k, mk.Labels before k ∧ mk.Labels before' k) → o.id? site ≠ o.id? site'
  typed    : ∀ earlier before site lhs type id, p.Allocates earlier before site →
    .alloc site lhs type ∈ p.statements → p.LabelsType mk before type → o.id? site = some id →
    o.type? id = some type
  dispatch : ∀ earlier before site lhs type id, p.Allocates earlier before site →
    .alloc site lhs type ∈ p.statements → p.LabelsType mk before type → o.id? site = some id →
    ∀ (h : Hierarchy) (sub : String), (Scene.mk h o).receiverTarget? sub id =
      (h.class? type).bind ((Scene.mk h o).classTarget? sub)

-- Two allocations have one object only if they carry one label.
theorem Program.objects_identify {p : Program} (own : p.OwnSites) (markers : Markers) :
    Identity p markers.orStandard (p.objects markers) where
  assigned := by
    intro site lhs type hs
    have ⟨m, hm, hs⟩ := List.mem_flatMap.mp hs
    have ⟨hm, body⟩ := List.mem_filter.mp hm
    exact Program.id?_isSome_iff.mpr ⟨m, hm, body, lhs, type, hs⟩
  distinct := by
    intro _ _ _ _ _ _ h h' ne apart same
    exact apart ((h.id?_eq_iff own h' ne).mp same)
  typed    := by
    intro _ _ _ _ _ _ h hs same hid
    exact h.type?_of_labelsType own hs same hid
  dispatch := by
    intro _ _ _ _ _ _ h hs same hid hierarchy sub
    have type := h.type?_of_labelsType own hs same hid
    simp [Scene.receiverTarget?, Scene.class?, type]

-- Two animals, each with a label. What they say is up to their classes.
namespace Program.Sample.Kennel

def animal (index : Nat) (type : String) : Var where
  index := index
  owner := some 2
  name  := "animal"
  type  := type

def declared : Program :=
  ({ classes := [{ name := "Cat" }, { name := "Dog" }, { name := "Main" }] } : Program)
    |>.addMethod "Cat" "speak" {} []
    |>.addMethod "Dog" "speak" {} []
    |>.addMethod "Main" "main" { isStatic := true } []

def program (cat dog : Int) : Program :=
  declared
    |>.modifyMethod 2 (·.emit (Crates.label cat))
    |>.modifyMethod 2 (·.emitAlloc (animal 0 "Cat") "Cat")
    |>.modifyMethod 2 (·.emit (Crates.label dog))
    |>.modifyMethod 2 (·.emitAlloc (animal 1 "Dog") "Dog")

theorem built (cat dog : Int) : (program cat dog).Built := by
  have labels {p : Program} (k : Int) (h : p.Built) :
      (p.modifyMethod 2 (·.emit (Crates.label k))).Built :=
    .editMethod h fun _ _ _ => .emit (by simp [Crates.label])
  have animals {p : Program} {v : Var} {type : String} (h : p.Built) :
      (p.modifyMethod 2 (·.emitAlloc v type)).Built :=
    .editMethod h fun _ _ _ => .emitAlloc
  have classes : Built ⟨[{ name := "Cat" }, { name := "Dog" }, { name := "Main" }]⟩ := by
    refine .addClass (c := { name := "Main" }) (.addClass (c := { name := "Dog" })
      (.addClass (c := { name := "Cat" }) .empty rfl ?_ ?_ rfl) rfl ?_ ?_ rfl) rfl ?_ ?_ rfl
    all_goals simp
  have declared : declared.Built :=
    .addMethod (.addMethod (.addMethod classes (by decide +kernel)) (by decide +kernel))
      (by decide +kernel)
  exact animals <| labels dog <| animals <| labels cat declared

-- Under labels of their own they are told apart, and the cat speaks as cats do.
theorem cat_identified : (program 1 2).OwnSites ∧
    Identity (program 1 2) .standard ((program 1 2).objects {}) ∧
    ((program 1 2).objects {}).type? 1 = some "Cat" ∧
    ∀ h : Hierarchy, (Scene.mk h ((program 1 2).objects {})).receiverTarget? "speak()" 1 =
      (h.class? "Cat").bind ((Scene.mk h ((program 1 2).objects {})).classTarget? "speak()") := by
  have identity := objects_identify (built 1 2).ownSites {}
  have cat : (program 1 2).Allocates [Crates.label 1] [Crates.label 1] ⟨1, 2⟩ :=
    ⟨[], _, _, _, _, _, rfl, rfl, rfl⟩
  have here : .alloc ⟨1, 2⟩ (animal 0 "Cat") "Cat" ∈ (program 1 2).statements := by decide +kernel
  have number : ((program 1 2).objects {}).id? ⟨1, 2⟩ = some 1 := by decide +kernel
  have only : ∀ e ∈ (program 1 2).statements.filterMap Stmt.creation?,
      ((program 1 2).objects {}).id? e.1 = some 1 → e.2 = "Cat" := by decide +kernel
  have cats : (program 1 2).LabelsType .standard [Crates.label 1] "Cat" := by
    intro k _ _ site lhs type hk other hk' hs
    have labelled : ((program 1 2).objects {}).id? ⟨1, 2⟩ = some k :=
      cat.id?_of_labels (built 1 2).ownSites hk
    have shared : ((program 1 2).objects {}).id? site = some k :=
      other.id?_of_labels (built 1 2).ownSites hk'
    obtain rfl : k = 1 := Option.some.inj (labelled.symm.trans number)
    exact only (site, type) (List.mem_filterMap.mpr ⟨_, hs, rfl⟩) shared
  exact ⟨(built 1 2).ownSites, identity, identity.typed _ _ _ _ _ _ cat here cats number,
    fun h => identity.dispatch _ _ _ _ _ _ cat here cats number h "speak()"⟩

-- The same label once more: one object for both, and the cat barks.
theorem label_reused : (program 1 1).Built ∧
    ¬ (∀ site ∈ sites (program 1 1).statements, ∀ site' ∈ sites (program 1 1).statements,
      site ≠ site' → ((program 1 1).objects {}).id? site ≠ ((program 1 1).objects {}).id? site') ∧
    ¬ (∀ site lhs type, .alloc site lhs type ∈ (program 1 1).statements →
      (((program 1 1).objects {}).id? site).bind ((program 1 1).objects {}).type? = some type) ∧
    ¬ (∀ site lhs type id, .alloc site lhs type ∈ (program 1 1).statements →
      ((program 1 1).objects {}).id? site = some id → ∀ sub,
      (Scene.mk (program 1 1).hierarchy ((program 1 1).objects {})).receiverTarget? sub id =
        ((program 1 1).class? type).bind
          ((Scene.mk (program 1 1).hierarchy ((program 1 1).objects {})).classTarget? sub)) := by
  have cat : .alloc ⟨1, 2⟩ (animal 0 "Cat") "Cat" ∈ (program 1 1).statements := by decide +kernel
  refine ⟨built 1 1, ?_, ?_, ?_⟩
  · intro apart
    exact apart ⟨1, 2⟩ (by decide +kernel) ⟨3, 2⟩ (by decide +kernel) (by decide) (by decide +kernel)
  · intro typed
    exact absurd (typed _ _ _ cat) (by decide +kernel)
  · intro dispatch
    exact absurd (dispatch _ _ _ 1 cat (by decide +kernel) "speak()") (by decide +kernel)

end Program.Sample.Kennel
end PointsTo
