import Mathlib.Order.Bounds.Basic
import PointsTo.Objects
import PointsTo.Proofs.Hierarchy

namespace PointsTo

-- The answer of the last of `l` that has one.
def Latest {α β : Type} (answers : α → β → Prop) (l : List α) (x : β) : Prop :=
  ∃ before a after, l = before ++ a :: after ∧ answers a x ∧ ∀ b ∈ after, ∀ y, ¬ answers b y

theorem latest_iff {α β : Type} {f : α → Option β} {l : List α} {x : β} :
    Latest (fun a x => f a = some x) l x ↔ l.reverse.findSome? f = some x := by
  rw [← nearest_iff]
  constructor
  case mp =>
    rintro ⟨before, a, after, rfl, ha, none⟩
    exact ⟨after.reverse, a, before.reverse, by simp, ha, by simpa using none⟩
  case mpr =>
    rintro ⟨before, a, after, e, ha, none⟩
    exact ⟨after.reverse, a, before.reverse, by simpa using congrArg List.reverse e, ha,
      by simpa using none⟩

def Stmt.site? : Stmt → Option Site
  | .alloc site _ _ => some site
  | _ => none

theorem Stmt.site?_eq_some_iff {s : Stmt} {site : Site} :
    s.site? = some site ↔ ∃ lhs type, s = .alloc site lhs type := by
  cases s <;> simp [site?]

def sites (l : List Stmt) : List Site :=
  l.filterMap Stmt.site?

theorem sites_append {l l' : List Stmt} : sites (l ++ l') = sites l ++ sites l' :=
  List.filterMap_append

theorem mem_sites {l : List Stmt} {site : Site} :
    site ∈ sites l ↔ ∃ lhs type, .alloc site lhs type ∈ l := by
  simp only [sites, List.mem_filterMap, Stmt.site?_eq_some_iff]
  grind

namespace Markers

variable {mk : Markers} {s : Stmt} {k : Int} {v : Var} {site : Site} {type : String}
  {pending : Option Int} {before : List Stmt}

def Calls (mk : Markers) (name : String) (args : List Var) (s : Stmt) : Prop :=
  ∃ call, s = .invoke call ∧ call.kind = .static ∧ call.method.owner = mk.owner ∧
    call.method.name = name ∧ call.args = args

def IsLabel (mk : Markers) (s : Stmt) (k : Int) : Prop :=
  ∃ arg rest, mk.Calls mk.alloc (arg :: rest) s ∧ arg.int64? = some k ∧ 0 < k

def IsQuery (mk : Markers) (s : Stmt) (k : Int) (v : Var) : Prop :=
  ∃ arg rest, mk.Calls mk.test (arg :: v :: rest) s ∧ (∀ args, ¬ mk.Calls mk.alloc args s) ∧
    arg.int64? = some k

-- Which label is left by a statement that has a say in it. Allocations take the label.
def Leaves (mk : Markers) (s : Stmt) : Option Int → Prop
  | some k => mk.IsLabel s k
  | none   => s.site?.isSome

-- The label for an allocation that has these statements of its body in front of it.
def Labels (mk : Markers) (before : List Stmt) (k : Int) : Prop :=
  Latest mk.Leaves before (some k)

theorem calls_invoke_iff {name : String} {args : List Var} {call : Invoke} :
    mk.Calls name args (.invoke call) ↔ mk.isCall name call ∧ call.args = args := by
  simp [Calls, isCall, Invoke.isStatic, and_assoc]

theorem mark_eq_label_iff : mk.mark s = .label k ↔ mk.IsLabel s k := by
  unfold IsLabel
  cases s
  case invoke call =>
    simp only [calls_invoke_iff, mark]
    grind
  all_goals simp [mark, Calls]

theorem mark_eq_query_iff : mk.mark s = .query k v ↔ mk.IsQuery s k v := by
  unfold IsQuery
  cases s
  case invoke call =>
    simp only [calls_invoke_iff, mark]
    grind
  all_goals simp [mark, Calls]

-- The label that a mark leaves, and the site of an allocation.
def left? : Mark → Option (Option Int)
  | .label k  => some (some k)
  | .alloc .. => some none
  | _         => none

def site? : Mark → Option Site
  | .alloc site _ => some site
  | _             => none

theorem site?_mark : site? (mk.mark s) = s.site? := by
  cases s
  case invoke call =>
    simp only [mark]
    grind [site?, Stmt.site?]
  all_goals rfl

theorem left?_mark {label : Option Int} : left? (mk.mark s) = some label ↔ mk.Leaves s label := by
  cases label
  case some k =>
    show _ ↔ mk.IsLabel s k
    rw [← mark_eq_label_iff]
    cases mk.mark s <;> simp [left?]
  case none =>
    show _ ↔ s.site?.isSome
    rw [← @site?_mark mk]
    cases mk.mark s <;> simp [left?, site?]

theorem labelled_append {xs ys : List Mark} : labelled pending (xs ++ ys) =
    labelled pending xs ++ labelled ((xs.reverse.findSome? left?).getD pending) ys := by
  induction xs generalizing pending
  case nil => rfl
  case cons x rest hi =>
    cases x
    all_goals
      simp only [List.cons_append, labelled, hi, List.reverse_cons, List.findSome?_append]
      cases rest.reverse.findSome? left? <;> simp [left?]

def labelAfter (mk : Markers) (before : List Stmt) : Option Int :=
  ((before.map mk.mark).reverse.findSome? left?).getD none

theorem labelAfter_eq_some_iff : mk.labelAfter before = some k ↔ mk.Labels before k := by
  have leaves : mk.Leaves = fun s label => left? (mk.mark s) = some label := by
    funext s label
    exact propext left?_mark.symm
  unfold Labels labelAfter
  rw [leaves, latest_iff, ← List.map_reverse, List.findSome?_map]
  show _ ↔ before.reverse.findSome? (left? ∘ mk.mark) = some (some k)
  cases before.reverse.findSome? (left? ∘ mk.mark) <;> simp

theorem sites_labelled : (labelled pending (before.map mk.mark)).map Prod.fst = sites before := by
  induction before generalizing pending
  case nil => rfl
  case cons s rest hi =>
    have same := @site?_mark mk s
    unfold sites
    rw [List.map_cons, List.filterMap_cons, ← same]
    cases mk.mark s
    case alloc => simp [labelled, site?, hi, sites]
    all_goals exact hi

-- Only positive labels are set, so that those that wait for an allocation are positive, too.
theorem label_pos {e : Site × String × Option Int} (start : ∀ k, pending = some k → 0 < k)
    (h : e ∈ labelled pending (before.map mk.mark)) (he : e.2.2 = some k) : 0 < k := by
  induction before generalizing pending
  case nil => contradiction
  case cons s rest hi =>
    rw [List.map_cons] at h
    cases hs : mk.mark s
    all_goals rw [hs] at h
    case label id =>
      have ⟨_, _, _, _, pos⟩ := mark_eq_label_iff.mp hs
      exact hi (fun k e => Option.some.inj e ▸ pos) h
    case alloc site type =>
      cases List.mem_cons.mp h
      case inl e => exact start k (by simpa [e] using he)
      case inr h => exact hi (by simp) h
    all_goals exact hi start h

theorem Labels.pos (h : mk.Labels before k) : 0 < k := by
  have ⟨_, _, _, _, ⟨_, _, _, _, pos⟩, _⟩ := h
  exact pos

def asked? (k : Int) : Mark → Option Var
  | .query id v => if id = k then some v else none
  | _           => none

theorem asked?_mark : asked? k (mk.mark s) = some v ↔ mk.IsQuery s k v := by
  rw [← mark_eq_query_iff]
  cases mk.mark s <;> simp [asked?]

theorem findRev?_queries {marks : List Mark} :
    ((queries marks).findRev? (·.1 = k)).map Prod.snd = marks.reverse.findSome? (asked? k) := by
  unfold queries
  rw [List.findRev?_eq_find?_reverse, ← List.filterMap_reverse]
  induction marks.reverse
  case nil => rfl
  case cons x rest hi =>
    cases x
    case query id v =>
      by_cases h : id = k
      case pos => simp [h, asked?]
      case neg => simpa [h, asked?] using hi
    all_goals exact hi

end Markers

namespace Allocation

variable {last id : Int} {xs ys : List (Site × String × Option Int)}

theorem sites_number : (number last xs).map Allocation.site = xs.map Prod.fst := by
  fun_induction number last xs <;> simp_all

-- How many of them have to be given a number.
def unlabelled (xs : List (Site × String × Option Int)) : Nat :=
  xs.countP (·.2.2.isNone)

theorem number_append :
    number last (xs ++ ys) = number last xs ++ number (last - unlabelled xs) ys := by
  fun_induction number last xs
  case case1 => simp [unlabelled]
  case case2 hi => simpa [number, unlabelled] using hi
  case case3 last site type rest hi =>
    have count : last - 1 - unlabelled rest = last - unlabelled ((site, type, none) :: rest) := by
      simp only [unlabelled, List.countP_cons, Option.isNone_none, if_true]
      omega
    simp [number, hi, count]

-- The numbers that they are given are the ones just below `last`, without a gap.
theorem mem_ids_number : id ∈ (number last xs).map Allocation.id ↔
    (∃ e ∈ xs, e.2.2 = some id) ∨ last - unlabelled xs ≤ id ∧ id < last := by
  fun_induction number last xs
  case case1 => simp [unlabelled]
  case case2 hi =>
    simp only [List.map_cons, List.mem_cons, hi, unlabelled]
    grind
  case case3 last site type rest hi =>
    simp only [List.map_cons, List.mem_cons, hi, unlabelled, List.countP_cons]
    grind

end Allocation

namespace Program

variable {p : Program} {mk markers : Markers} {earlier before earlier' before' : List Stmt}
  {site site' : Site} {id k : Int} {v : Var}

def statements (p : Program) : List Stmt :=
  (p.methods.filter Method.hasBody).flatMap Method.body

-- Different allocations have different sites.
def OwnSites (p : Program) : Prop :=
  (sites p.statements).Nodup

-- An allocation that is scanned, with the statements in front of it in the whole program, and with
-- the ones that belong to its own body.
def Allocates (p : Program) (earlier before : List Stmt) (site : Site) : Prop :=
  ∃ ms m ms' lhs type after, p.methods.filter Method.hasBody = ms ++ m :: ms' ∧
    m.body = before ++ .alloc site lhs type :: after ∧ earlier = ms.flatMap Method.body ++ before

def labelled (mk : Markers) (ms : List Method) : List (Site × String × Option Int) :=
  ms.flatMap fun m => Markers.labelled none (m.body.map mk.mark)

theorem sites_labelled {ms : List Method} :
    (labelled mk ms).map Prod.fst = sites (ms.flatMap Method.body) := by
  simp only [labelled, List.map_flatMap, Markers.sites_labelled, sites, List.filterMap_flatMap]

theorem allocations_objects : (p.objects markers).allocations =
    Allocation.number 0 (labelled markers.orStandard (p.methods.filter Method.hasBody)) := by
  simp [objects, Objects.ofMethods, labelled, List.flatMap_map]

theorem sites_allocations :
    (p.objects markers).allocations.map Allocation.site = sites p.statements := by
  rw [allocations_objects, Allocation.sites_number, sites_labelled]
  rfl

theorem Allocates.split (h : p.Allocates earlier before site) : ∃ xs type ys,
    labelled mk (p.methods.filter Method.hasBody) = xs ++ (site, type, mk.labelAfter before) :: ys ∧
      xs.map Prod.fst = sites earlier := by
  have ⟨ms, m, ms', lhs, type, after, methods, body, front⟩ := h
  refine ⟨labelled mk ms ++ Markers.labelled none (before.map mk.mark), type,
    Markers.labelled none (after.map mk.mark) ++ labelled mk ms', ?labels, ?earlier⟩
  case labels =>
    have here : Markers.labelled none (m.body.map mk.mark) =
        Markers.labelled none (before.map mk.mark) ++
          (site, type, mk.labelAfter before) :: Markers.labelled none (after.map mk.mark) := by
      rw [body, List.map_append, Markers.labelled_append]
      rfl
    simp [methods, labelled, here]
  case earlier =>
    rw [List.map_append, sites_labelled, Markers.sites_labelled, front, sites_append]

theorem Allocates.sites_eq (h : p.Allocates earlier before site) :
    ∃ later, sites p.statements = sites earlier ++ site :: later := by
  have ⟨ms, m, ms', lhs, type, after, methods, body, front⟩ := h
  exact ⟨sites after ++ sites (ms'.flatMap Method.body), by
    simp [statements, methods, body, front, sites, Stmt.site?]⟩

theorem Allocates.eq_or_earlier (h : p.Allocates earlier before site)
    (h' : p.Allocates earlier' before' site') :
    site = site' ∨ site ∈ sites earlier' ∨ site' ∈ sites earlier := by
  have ⟨later, e⟩ := h.sites_eq
  have ⟨later', e'⟩ := h'.sites_eq
  rcases List.append_eq_append_iff.mp (e.symm.trans e') with ⟨between, _, _⟩ | ⟨between, _, _⟩
  all_goals cases between <;> simp_all

theorem label_pos {ms : List Method} {x : Site × String × Option Int} (h : x ∈ labelled mk ms)
    (hk : x.2.2 = some k) : 0 < k := by
  have ⟨m, _, hx⟩ := List.mem_flatMap.mp h
  exact Markers.label_pos (by simp) hx hk

theorem OwnSites.nodup (own : p.OwnSites) :
    ((p.objects markers).allocations.map Allocation.site).Nodup := by
  rw [sites_allocations]
  exact own

theorem id?_eq_some_iff (own : p.OwnSites) : (p.objects markers).id? site = some id ↔
    ∃ a ∈ (p.objects markers).allocations, a.site = site ∧ a.id = id := by
  simp [Objects.id?, find?_eq_some_iff_of_nodup own.nodup, and_assoc]

theorem id?_isSome_iff : ((p.objects markers).id? site).isSome ↔
    ∃ m ∈ p.methods, m.hasBody ∧ ∃ lhs type, .alloc site lhs type ∈ m.body := by
  have found : ((p.objects markers).id? site).isSome ↔ site ∈ sites p.statements := by
    rw [← @sites_allocations p markers]
    simp [Objects.id?]
  rw [found, mem_sites]
  simp only [statements, List.mem_flatMap, List.mem_filter]
  grind

-- The allocations that come earlier have exactly the numbers that were given out before.
theorem exists_earlier_iff (own : p.OwnSites) {xs ys : List (Site × String × Option Int)}
    (e : labelled markers.orStandard (p.methods.filter Method.hasBody) = xs ++ ys) :
    (∃ site ∈ xs.map Prod.fst, (p.objects markers).id? site = some id) ↔
      id ∈ (Allocation.number 0 xs).map Allocation.id := by
  have kept : ∀ a ∈ Allocation.number 0 xs, a ∈ (p.objects markers).allocations := by
    rw [allocations_objects, e, Allocation.number_append]
    exact fun a ha => List.mem_append_left _ ha
  rw [← @Allocation.sites_number 0 xs]
  simp only [id?_eq_some_iff own, List.mem_map]
  constructor
  case mp =>
    rintro ⟨site, ⟨a, ha, rfl⟩, b, hb, same, rfl⟩
    rw [← List.inj_on_of_nodup_map own.nodup (kept a ha) hb same.symm]
    exact ⟨a, ha, rfl⟩
  case mpr =>
    rintro ⟨a, ha, rfl⟩
    exact ⟨a.site, ⟨a, ha, rfl⟩, a, kept a ha, rfl, rfl⟩

section Allocates

variable (own : p.OwnSites) (h : p.Allocates earlier before site)
include own h

theorem Allocates.id?_of_labels (hk : markers.orStandard.Labels before k) :
    (p.objects markers).id? site = some k := by
  have ⟨xs, type, ys, e, _⟩ := @split _ markers.orStandard _ _ _ h
  refine (id?_eq_some_iff own).mpr ⟨⟨site, k, type⟩, ?_, rfl, rfl⟩
  rw [allocations_objects, e, Markers.labelAfter_eq_some_iff.mpr hk, Allocation.number_append]
  simp [Allocation.number]

theorem Allocates.id?_of_not_labels (none : ∀ k, ¬ markers.orStandard.Labels before k) :
    ∃ id, (p.objects markers).id? site = some id ∧
      IsGreatest {n | n < 0 ∧ ∀ other ∈ sites earlier, (p.objects markers).id? other ≠ some n} id := by
  have ⟨xs, type, ys, e, front⟩ := @split _ markers.orStandard _ _ _ h
  have bare : markers.orStandard.labelAfter before = Option.none := by
    simpa [Option.eq_none_iff_forall_ne_some, Markers.labelAfter_eq_some_iff] using none
  have used (n : Int) (neg : n < 0) :
      (∃ other ∈ sites earlier, (p.objects markers).id? other = some n) ↔
        -(Allocation.unlabelled xs : Int) ≤ n := by
    have labels : ¬ ∃ x ∈ xs, x.2.2 = some n := by
      rintro ⟨x, hx, hn⟩
      have := label_pos (e ▸ List.mem_append_left _ hx) hn
      omega
    rw [← front, exists_earlier_iff own e, Allocation.mem_ids_number]
    simp [labels, neg]
  refine ⟨-(Allocation.unlabelled xs : Int) - 1, ?found, ?unused, ?greatest⟩
  case found =>
    refine (id?_eq_some_iff own).mpr ⟨⟨site, _, type⟩, ?_, rfl, rfl⟩
    rw [allocations_objects, e, bare, Allocation.number_append]
    simp [Allocation.number]
  case unused =>
    have neg : -(Allocation.unlabelled xs : Int) - 1 < 0 := by omega
    refine ⟨neg, fun other ho hn => ?_⟩
    have := (used _ neg).mp ⟨other, ho, hn⟩
    omega
  case greatest =>
    rintro n ⟨neg, unused⟩
    have : ¬ -(Allocation.unlabelled xs : Int) ≤ n := by
      rw [← used n neg]
      rintro ⟨other, ho, hn⟩
      exact unused other ho hn
    omega

theorem Allocates.id?_cases :
    (∃ k, markers.orStandard.Labels before k ∧ 0 < k ∧ (p.objects markers).id? site = some k) ∨
    ∃ id, id < 0 ∧ (p.objects markers).id? site = some id ∧
      ∀ other ∈ sites earlier, (p.objects markers).id? other ≠ some id := by
  by_cases hl : ∃ k, markers.orStandard.Labels before k
  case pos =>
    have ⟨k, hk⟩ := hl
    exact .inl ⟨k, hk, hk.pos, h.id?_of_labels own hk⟩
  case neg =>
    have ⟨id, hid, ⟨neg, unused⟩, _⟩ := h.id?_of_not_labels own (not_exists.mp hl)
    exact .inr ⟨id, neg, hid, unused⟩

theorem Allocates.id?_ne_zero : (p.objects markers).id? site ≠ some 0 := by
  rcases @id?_cases _ markers _ _ _ own h with ⟨k, _, pos, hk⟩ | ⟨id, neg, hid, _⟩
  case inl => simp [hk, pos.ne']
  case inr => simp [hid, neg.ne]

theorem Allocates.id?_eq_iff (h' : p.Allocates earlier' before' site') (ne : site ≠ site') :
    (p.objects markers).id? site = (p.objects markers).id? site' ↔
      ∃ k, markers.orStandard.Labels before k ∧ markers.orStandard.Labels before' k := by
  constructor
  case mpr =>
    rintro ⟨k, hk, hk'⟩
    rw [h.id?_of_labels own hk, h'.id?_of_labels own hk']
  case mp =>
    intro same
    have cases' := @id?_cases _ markers _ _ _ own h'
    rcases @id?_cases _ markers _ _ _ own h with ⟨k, hl, pos, hk⟩ | ⟨id, neg, hid, unused⟩
    all_goals rcases cases' with ⟨k', hl', pos', hk'⟩ | ⟨id', neg', hid', unused'⟩
    case inl.inl =>
      obtain rfl : k = k' := by simpa [hk, hk'] using same
      exact ⟨k, hl, hl'⟩
    case inl.inr =>
      obtain rfl : k = id' := by simpa [hk, hid'] using same
      omega
    case inr.inl =>
      obtain rfl : id = k' := by simpa [hid, hk'] using same
      omega
    case inr.inr =>
      -- Both have a number that no earlier one has, and one of them is earlier.
      rcases h.eq_or_earlier h' with e | he | he
      case inl => exact absurd e ne
      case inr.inl => exact absurd (same.trans hid') (unused' site he)
      case inr.inr => exact absurd (same.symm.trans hid) (unused site' he)

end Allocates

theorem mem_ids_iff (own : p.OwnSites) :
    id ∈ (p.objects markers).ids ↔ ∃ site, (p.objects markers).id? site = some id := by
  simp only [Objects.ids, ObjectSet.mem_toList, ObjectSet.mem_ofList, List.mem_map,
    id?_eq_some_iff own]
  grind

theorem queries_objects : (p.objects markers).queries =
    Markers.queries (p.statements.map markers.orStandard.mark) := by
  simp [objects, Objects.ofMethods, Markers.queries, statements, List.flatMap_map,
    List.filterMap_map, List.filterMap_flatMap]

theorem query?_eq_some_iff : (p.objects markers).query? k = some v ↔
    Latest (fun s v => markers.orStandard.IsQuery s k v) p.statements v := by
  have asks : (fun s v => markers.orStandard.IsQuery s k v) =
      fun s v => Markers.asked? k (markers.orStandard.mark s) = some v := by
    funext s v
    exact propext Markers.asked?_mark.symm
  rw [Objects.query?, queries_objects, Markers.findRev?_queries, asks, latest_iff,
    ← List.map_reverse, List.findSome?_map]
  rfl

theorem exists_allocates (h : ((p.objects markers).id? site).isSome) :
    ∃ earlier before, p.Allocates earlier before site := by
  have ⟨m, hm, body, lhs, type, hs⟩ := id?_isSome_iff.mp h
  have ⟨ms, ms', methods⟩ := List.append_of_mem (List.mem_filter.mpr ⟨hm, body⟩)
  have ⟨before, after, e⟩ := List.append_of_mem hs
  exact ⟨_, before, ms, m, ms', lhs, type, after, methods, e, rfl⟩

end Program

namespace Method.Sited

variable {m : Method}

theorem nodup_sites (h : m.Sited) : (sites m.body).Nodup := by
  refine List.pairwise_filterMap.mpr (List.pairwise_iff_getElem.mpr ?_)
  intro i j hi hj lt site e site' e' same
  have ⟨_, _, he⟩ := Stmt.site?_eq_some_iff.mp e
  have ⟨_, _, he'⟩ := Stmt.site?_eq_some_iff.mp e'
  have at_i := h i site _ _ (List.getElem?_eq_some_iff.mpr ⟨hi, he⟩)
  have at_j := h j site' _ _ (List.getElem?_eq_some_iff.mpr ⟨hj, he'⟩)
  simp_all

theorem method_eq (h : m.Sited) {site : Site} (hs : site ∈ sites m.body) : site.method = m.id := by
  have ⟨lhs, type, mem⟩ := mem_sites.mp hs
  have ⟨i, hi⟩ := List.getElem?_of_mem mem
  rw [h i site lhs type hi]

end Method.Sited

theorem Program.Built.ownSites {p : Program} (built : p.Built) : p.OwnSites := by
  have within : ∀ m ∈ p.methods.filter Method.hasBody, m.Sited :=
    fun m hm => built.sited m (List.mem_of_mem_filter hm)
  have ids : (p.methods.filter Method.hasBody).Pairwise fun m m' => m.id ≠ m'.id :=
    (List.pairwise_map.mp built.numbered.ids).sublist List.filter_sublist
  unfold OwnSites statements sites
  rw [List.filterMap_flatMap, List.nodup_flatMap]
  refine ⟨fun m hm => (within m hm).nodup_sites, ids.imp_of_mem ?_⟩
  intro m m' hm hm' ne site hs hs'
  exact ne (((within m hm).method_eq hs).symm.trans ((within m' hm').method_eq hs'))

-- What markers mean for the objects and the queries of a program. Without a label, an allocation
-- gets the first of -1, -2, ... that no earlier one has; these numbers are never shared.
structure MarkerRules (p : Program) (mk : Markers) (o : Objects) : Prop where
  assigned  : ∀ site, (o.id? site).isSome ↔
    ∃ m ∈ p.methods, m.hasBody ∧ ∃ lhs type, .alloc site lhs type ∈ m.body
  label     : ∀ earlier before site k, p.Allocates earlier before site → mk.Labels before k →
    o.id? site = some k
  next      : ∀ earlier before site, p.Allocates earlier before site → (∀ k, ¬ mk.Labels before k) →
    ∃ id, o.id? site = some id ∧
      IsGreatest {n | n < 0 ∧ ∀ other ∈ sites earlier, o.id? other ≠ some n} id
  nonzero   : ∀ site, o.id? site ≠ some 0
  shared    : ∀ earlier before site earlier' before' site', p.Allocates earlier before site →
    p.Allocates earlier' before' site' → site ≠ site' →
    (o.id? site = o.id? site' ↔ ∃ k, mk.Labels before k ∧ mk.Labels before' k)
  ascending : o.ids.Pairwise (· < ·)
  ids       : ∀ id, id ∈ o.ids ↔ ∃ site, o.id? site = some id
  queries   : ∀ k v, o.query? k = some v ↔ Latest (fun s v => mk.IsQuery s k v) p.statements v

theorem Program.objects_follow_markers {p : Program} (own : p.OwnSites) (markers : Markers) :
    MarkerRules p markers.orStandard (p.objects markers) where
  assigned  := fun _ => Program.id?_isSome_iff
  label     := fun _ _ _ _ h hk => h.id?_of_labels own hk
  next      := fun _ _ _ h none => h.id?_of_not_labels own none
  nonzero   := by
    intro site zero
    have ⟨_, _, h⟩ := Program.exists_allocates (Option.isSome_of_mem zero)
    exact h.id?_ne_zero own zero
  shared    := fun _ _ _ _ _ _ h h' ne => h.id?_eq_iff own h' ne
  ascending := (ObjectSet.ofList _).sorted
  ids       := fun _ => Program.mem_ids_iff own
  queries   := fun _ _ => Program.query?_eq_some_iff

-- Two methods with a labelled and an unlabelled allocation each. The zero is no label and does not
-- take the one before it away, and the nine does not get into the second method.
namespace Program.Sample.Crates

def label (n : Int) : Stmt := .invoke
  { result := none, kind := .static, method := ⟨"Benchmark", "alloc(int)"⟩, base := none
    args   := [{ index := 0, owner := none, name := "", type := "int", const := some (.int n) }] }

def crate : Var where
  index := 0
  owner := some 0
  name  := "crate"
  type  := "Crate"

def declared : Program :=
  ({ classes := [{ name := "Main" }] } : Program)
    |>.addMethod "Main" "pack" { isStatic := true } []
    |>.addMethod "Main" "ship" { isStatic := true } []

def program : Program :=
  declared
    |>.modifyMethod 0 (·.emit (label 7))
    |>.modifyMethod 0 (·.emit (label 0))
    |>.modifyMethod 0 (·.emitAlloc crate "Crate")
    |>.modifyMethod 0 (·.emitAlloc crate "Crate")
    |>.modifyMethod 0 (·.emit (label 9))
    |>.modifyMethod 1 (·.emitAlloc crate "Crate")
    |>.modifyMethod 1 (·.emit (label 7))
    |>.modifyMethod 1 (·.emitAlloc crate "Crate")

theorem built : program.Built := by
  have main : Built ⟨[{ name := "Main" }]⟩ :=
    .addClass (c := { name := "Main" }) .empty rfl (by simp) (by simp) rfl
  have labels {p : Program} {id : Nat} (n : Int) (h : p.Built) :
      (p.modifyMethod id (·.emit (label n))).Built :=
    .editMethod h fun _ _ _ => .emit (by simp [label])
  have crates {p : Program} {id : Nat} (h : p.Built) :
      (p.modifyMethod id (·.emitAlloc crate "Crate")).Built :=
    .editMethod h fun _ _ _ => .emitAlloc
  have declared : declared.Built :=
    .addMethod (.addMethod main (by decide +kernel)) (by decide +kernel)
  exact crates <| labels 7 <| crates <| labels 9 <| crates <| crates <| labels 0 <| labels 7 declared

theorem crates_numbered : program.OwnSites ∧
    MarkerRules program .standard (program.objects {}) ∧
    (∃ earlier before, program.Allocates earlier before ⟨2, 0⟩ ∧ Markers.standard.Labels before 7) ∧
    (∃ earlier before, program.Allocates earlier before ⟨0, 1⟩ ∧
      ∀ k, ¬ Markers.standard.Labels before k) ∧
    (program.objects {}).id? ⟨2, 0⟩ = some 7 ∧ (program.objects {}).id? ⟨0, 1⟩ = some (-2) := by
  have rules := objects_follow_markers built.ownSites {}
  have packed : program.Allocates [label 7, label 0] [label 7, label 0] ⟨2, 0⟩ :=
    ⟨[], _, _, _, _, _, rfl, rfl, rfl⟩
  have seven : Markers.standard.Labels [label 7, label 0] 7 :=
    Markers.labelAfter_eq_some_iff.mp (by decide +kernel)
  have shipped : program.Allocates _ [] ⟨0, 1⟩ :=
    ⟨[_], _, [], _, _, _, rfl, rfl, rfl⟩
  have bare : ∀ k, ¬ Markers.standard.Labels [] k := fun k hk =>
    nomatch Markers.labelAfter_eq_some_iff.mpr hk
  exact ⟨built.ownSites, rules, ⟨_, _, packed, seven⟩, ⟨_, _, shipped, bare⟩,
    rules.label _ _ _ _ packed seven, by decide +kernel⟩

end Program.Sample.Crates
end PointsTo
