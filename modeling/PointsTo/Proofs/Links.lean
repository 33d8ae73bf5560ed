import Mathlib.Data.List.Basic
import PointsTo.Analysis.Solver

namespace PointsTo

def valueAt {α : Type} (table : List (Int × α)) (key : Int) : Option α :=
  (table.find? (·.1 = key)).map Prod.snd

theorem valueAt_cons {α : Type} {e : Int × α} {rest : List (Int × α)} {key : Int} :
    valueAt (e :: rest) key = if e.1 = key then some e.2 else valueAt rest key := by
  grind [valueAt]

theorem valueAt_eq_none {α : Type} {table : List (Int × α)} {key : Int}
    (h : ∀ e ∈ table, e.1 ≠ key) : valueAt table key = none := by
  rw [valueAt, Option.map_eq_none_iff, List.find?_eq_none]
  exact fun e he => by simpa using h e he

theorem valueAt_dropWhile {α : Type} {table : List (Int × α)} {key k : Int} (h : key ≤ k) :
    valueAt (table.dropWhile (·.1 < key)) k = valueAt table k := by
  induction table
  case nil => rfl
  case cons e rest hi => grind [valueAt_cons, List.dropWhile_cons]

theorem valueAt_filterMap {α : Type} {g : Int → Option α} {ids : List Int} {k : Int} :
    valueAt (ids.filterMap fun id => (g id).map (id, ·)) k = if k ∈ ids then g k else none := by
  induction ids
  case nil => rfl
  case cons id rest hi =>
    cases hg : g id
    case none   => grind
    case some a => grind [valueAt_cons]

-- The table is dropped up to each key in turn. What is dropped has smaller keys than all that is
-- still to be looked up, so each look-up finds what it would find in the whole table.
theorem pick_eq_filterMap {α : Type} {keys : List Int} {table : List (Int × α)}
    (hkeys : keys.Pairwise (· < ·)) (htable : table.Pairwise (·.1 < ·.1)) :
    pick keys table = keys.filterMap (valueAt table) := by
  induction keys generalizing table
  case nil => rfl
  case cons key keys hi =>
    obtain ⟨hkey, hkeys⟩ := List.pairwise_cons.mp hkeys
    have at_key : valueAt (table.dropWhile (·.1 < key)) key = valueAt table key :=
      valueAt_dropWhile (Int.le_refl key)
    have at_keys : keys.filterMap (valueAt (table.dropWhile (·.1 < key))) =
        keys.filterMap (valueAt table) :=
      List.filterMap_congr fun k hk => valueAt_dropWhile (Int.le_of_lt (hkey k hk))
    have sorted := htable.sublist (List.dropWhile_sublist (·.1 < key))
    rw [List.filterMap_cons, ← at_key, ← at_keys]
    unfold pick
    split
    case h_1 k a rest he =>
      rw [he] at sorted ⊢
      obtain ⟨hk, hrest⟩ := List.pairwise_cons.mp sorted
      split
      case isTrue hkk =>
        have at_rest : keys.filterMap (valueAt ((k, a) :: rest)) = keys.filterMap (valueAt rest) :=
          List.filterMap_congr fun k' hk' => by
            have : k ≠ k' := hkk ▸ Int.ne_of_lt (hkey k' hk')
            rw [valueAt_cons, if_neg this]
        rw [at_rest, hi hkeys hrest, valueAt_cons, if_pos hkk]
      case isFalse hkk =>
        have first : ¬ k < key := by
          have := List.head?_dropWhile_not (·.1 < key) table
          grind
        have absent : ∀ e ∈ (k, a) :: rest, e.1 ≠ key := by
          intro e he
          cases List.mem_cons.mp he
          case inl he => exact he ▸ hkk
          case inr he =>
            have : k < e.1 := hk e he
            omega
        rw [valueAt_eq_none absent, hi hkeys sorted]
    case h_2 he =>
      rw [he]
      exact (List.filterMap_eq_nil_iff.mpr fun _ _ => rfl).symm

theorem pairwise_of_ascends {ms : List Method} (h : ascends ms) :
    ms.Pairwise fun a b => a.id < b.id := by
  induction ms
  case nil => exact .nil
  case cons a rest hi =>
    cases rest
    case nil => simp
    case cons b rest =>
      simp only [ascends, Bool.and_eq_true, decide_eq_true_eq] at h
      have hrest := hi h.right
      refine List.pairwise_cons.mpr ⟨fun m hm => ?_, hrest⟩
      rcases List.mem_cons.mp hm with rfl | hm
      · exact h.left
      · exact Nat.lt_trans h.left ((List.pairwise_cons.mp hrest).left m hm)

theorem eraseDups_of_nodup {ms : List Method} (h : ms.Nodup) : ms.eraseDups = ms := by
  induction ms
  case nil => rfl
  case cons a rest hi =>
    obtain ⟨ha, hrest⟩ := List.nodup_cons.mp h
    have others : rest.filter (fun b => !b == a) = rest :=
      List.filter_eq_self.mpr fun b hb => by grind
    rw [List.eraseDups_cons, others, hi hrest]

theorem distinct_eq (ms : List Method) : distinct ms = ms.eraseDups := by
  have nodup {l : List Method} (h : ascends l) : l.Nodup := by
    rw [List.nodup_iff_pairwise_ne]
    exact (pairwise_of_ascends h).imp fun hlt e => absurd (congrArg Method.id e) (Nat.ne_of_lt hlt)
  unfold distinct
  split
  case isTrue h =>
    rcases Bool.or_eq_true_iff.mp h with h | h
    · exact (eraseDups_of_nodup (nodup h)).symm
    · have := (List.reverse_perm ms).nodup_iff.mp (nodup h)
      exact (eraseDups_of_nodup this).symm
  case isFalse => rfl

theorem Scene.class?_eq_none {c : Scene} {id : Int} (h : id ∉ c.objects.ids) :
    c.class? id = none := by
  have : c.objects.type? id = none := by
    cases ht : c.objects.type? id
    case none      => rfl
    case some type => exact absurd (c.objects.mem_ids_of_type? ht) h
  simp [class?, this]

namespace Link

theorem answers_ofScene {c : Scene} {ref : MethodRef} {m : Method}
    (h : c.hierarchy.resolve ref = some m) :
    (ofScene c ref).answers.get =
      c.objects.ids.filterMap fun id => (c.receiverTarget? m.subsignature id).map (id, ·) := by
  have get : (ofScene c ref).answers.get = c.classes.filterMap fun e =>
      (c.classTarget? m.subsignature e.2).map (e.1, ·) := by
    simp only [ofScene, ofRef, h]
    rfl
  rw [get, Scene.classes, List.filterMap_filterMap]
  refine List.filterMap_congr fun id _ => ?_
  cases hk : c.class? id <;> simp [Scene.receiverTarget?, hk]

-- What a reference means does not change during a run, so it may be looked up in advance. A link
-- has the answers of all objects in a table, and `pick` reads those of the receivers off it.
theorem targets_eq (c : Scene) (call : Invoke) (receivers : ObjectSet) :
    (ofScene c call.method).targets call.kind receivers = c.targets call receivers := by
  have declared : (ofScene c call.method).declared = c.hierarchy.resolve call.method := rfl
  unfold targets Scene.targets
  rw [declared]
  split
  case h_1 => rfl
  case h_2 m h =>
    have sorted : (c.objects.ids.filterMap fun id =>
        (c.receiverTarget? m.subsignature id).map (id, ·)).Pairwise (·.1 < ·.1) := by
      rw [List.pairwise_filterMap]
      refine (ObjectSet.sorted _).imp fun hlt a ha b hb => ?_
      obtain ⟨_, _, rfl⟩ := Option.map_eq_some_iff.mp ha
      obtain ⟨_, _, rfl⟩ := Option.map_eq_some_iff.mp hb
      exact hlt
    have at_receivers : receivers.toList.filterMap (valueAt (c.objects.ids.filterMap fun id =>
        (c.receiverTarget? m.subsignature id).map (id, ·))) =
        receivers.toList.filterMap (c.receiverTarget? m.subsignature) :=
      List.filterMap_congr fun id _ => by
        rw [valueAt_filterMap]
        split
        case isTrue => rfl
        case isFalse hid => rw [Scene.receiverTarget?, Scene.class?_eq_none hid]; rfl
    rw [answers_ofScene h, pick_eq_filterMap receivers.sorted sorted, at_receivers, distinct_eq]
    rfl

end Link

-- It makes no difference when things are looked up.
@[simp]
theorem Analysis.Linked.finding_ofStmt (p : Problem) (s : Stmt) (f : Facts) :
    (ofStmt p s).finding f = p.finding f s := by
  cases s <;> simp [ofStmt, finding, Problem.finding, Link.targets_eq]

end PointsTo
