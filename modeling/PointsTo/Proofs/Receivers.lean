import Mathlib.Data.List.Basic
import Mathlib.Order.Bounds.Basic
import PointsTo.Proofs.Targets

namespace PointsTo

namespace Hierarchy

variable {h : Hierarchy} {k : Class} {m : Method} {type sub : String}

-- A reference and an object look along the same chain. They part only at abstract declarations.
theorem dispatch_of_resolve (hk : h.class? type = some k) (hm : h.resolve ⟨type, sub⟩ = some m)
    (concrete : m.isAbstract = false)
    (declared : ∃ k' ∈ h.chain k, (k'.method? sub).isSome) : h.dispatch k sub = some m := by
  have found : (h.chain k).findSome? (·.method? sub) = some m := by
    have some : ((h.chain k).findSome? (·.method? sub)).isSome := by simpa using declared
    rw [resolve_of_class? hk] at hm
    have ⟨m', hm'⟩ := Option.isSome_iff_exists.mp some
    simpa [hm'] using hm
  have ⟨before, k', after, chain, hk', undeclared⟩ := List.findSome?_eq_some_iff.mp found
  refine List.findSome?_eq_some_iff.mpr ⟨before, k', after, chain, ?_, ?_⟩
  · simp [hk', concrete]
  · intro b hb
    simp [undeclared b hb]

theorem dispatch_eq_none (undeclared : ∀ k' ∈ h.chain k, k'.method? sub = none) :
    h.dispatch k sub = none := by
  refine List.findSome?_eq_none_iff.mpr fun k' hk' => ?_
  simp [undeclared k' hk']

end Hierarchy

namespace Scene

variable {c : Scene} {call : Invoke} {declared m : Method} {sub : String} {id : Int}
variable {R R' : ObjectSet}

-- The object has a known type of a known class, on whose superclass chain `m` is the first method
-- that is not abstract, and `m` is not native.
def Answers (c : Scene) (sub : String) (id : Int) (m : Method) : Prop :=
  ∃ type k, c.objects.type? id = some type ∧ c.hierarchy.class? type = some k ∧
    c.hierarchy.dispatch k sub = some m ∧ m.isNative = false

theorem answers_iff : c.Answers sub id m ↔ c.receiverTarget? sub id = some m :=
  receiverTarget?_eq_some_iff.symm

theorem Answers.unique {m' : Method} (h : c.Answers sub id m) (h' : c.Answers sub id m') : m = m' :=
  Option.some.inj ((answers_iff.mp h).symm.trans (answers_iff.mp h'))

-- The smallest receiver that answers with `a` is below all that answer with `b`.
def Earlier (c : Scene) (sub : String) (receivers : Set Int) (a b : Method) : Prop :=
  ∃ i, IsLeast { id | id ∈ receivers ∧ c.Answers sub id a } i ∧
    ∀ j ∈ receivers, c.Answers sub j b → i < j

theorem Earlier.mono {I J : Set Int} {a b : Method} (h : c.Earlier sub I a b) (subset : I ⊆ J)
    (all : ∀ m, m = a ∨ m = b → ∀ j ∈ J, c.Answers sub j m → j ∈ I) : c.Earlier sub J a b := by
  have ⟨i, least, below⟩ := h
  refine ⟨i, ⟨⟨subset least.left.left, least.left.right⟩, ?_⟩, ?_⟩
  · intro j ⟨hj, ha⟩
    exact least.right ⟨all a (.inl rfl) j hj ha, ha⟩
  · intro j hj hb
    exact below j (all b (.inr rfl) j hj hb) hb

-- `found` are the answers of the receivers, in the order of the smallest receivers that give them.
structure ListsAnswers (c : Scene) (sub : String) (R : ObjectSet) (found : List Method) : Prop where
  mem_iff : ∀ m, m ∈ found ↔ ∃ id ∈ R, c.Answers sub id m
  ordered : found.Pairwise (c.Earlier sub { id | id ∈ R })

theorem ListsAnswers.nodup {found : List Method} (h : c.ListsAnswers sub R found) : found.Nodup := by
  refine h.ordered.imp ?_
  rintro a _ ⟨i, least, below⟩ rfl
  exact lt_irrefl i (below i least.left.left least.left.right)

theorem receiverTargets_cons_none {rest : List Int} (ht : c.receiverTarget? sub id = none) :
    c.receiverTargets sub (id :: rest) = c.receiverTargets sub rest := by
  simp [receiverTargets, ht]

-- Behind an answer stand those of the receivers that answer differently.
theorem receiverTargets_cons_some {rest : List Int} (ht : c.receiverTarget? sub id = some m) :
    c.receiverTargets sub (id :: rest) =
      m :: c.receiverTargets sub (rest.filter (c.receiverTarget? sub · != some m)) := by
  have filtered : (rest.filterMap (c.receiverTarget? sub)).filter (fun b => !b == m) =
      (rest.filter (c.receiverTarget? sub · != some m)).filterMap (c.receiverTarget? sub) := by
    rw [List.filter_filterMap, List.filterMap_filter]
    refine List.filterMap_congr fun j _ => ?_
    cases c.receiverTarget? sub j <;> grind
  simp [receiverTargets, ht, List.eraseDups_cons, filtered]

section Ordered

variable {rest : List Int}

theorem mem_of_not_answers (silent : ¬ c.Answers sub id m) :
    ∀ j ∈ id :: rest, c.Answers sub j m → j ∈ rest :=
  fun _ hj answers => (List.mem_cons.mp hj).resolve_left fun e => silent (e ▸ answers)

-- The first receiver is the smallest one with its answer, and no answer behind it comes from it.
theorem ordered_cons (first : ∀ j ∈ rest, id < j) (ht : c.receiverTarget? sub id = some m)
    {others : List Int} (ho : ∀ j, j ∈ others ↔ j ∈ rest ∧ c.receiverTarget? sub j ≠ some m)
    (ordered : (c.receiverTargets sub others).Pairwise (c.Earlier sub { j | j ∈ others })) :
    (m :: c.receiverTargets sub others).Pairwise (c.Earlier sub { j | j ∈ id :: rest }) := by
  have answer : c.Answers sub id m := answers_iff.mpr ht
  have silent {b : Method} (hb : b ∈ c.receiverTargets sub others) : ¬ c.Answers sub id b := by
    intro h
    have ⟨j, hj, hb⟩ := mem_receiverTargets.mp hb
    exact ((ho j).mp hj).right (hb.trans (congrArg some (h.unique answer)))
  refine List.pairwise_cons.mpr ⟨fun b hb => ⟨id, ⟨⟨List.mem_cons_self, answer⟩, ?_⟩, ?_⟩, ?_⟩
  · intro j ⟨hj, _⟩
    cases List.mem_cons.mp hj
    case inl e  => exact e.ge
    case inr hj => exact (first j hj).le
  · intro j hj answers
    exact first j (mem_of_not_answers (silent hb) j hj answers)
  · refine ordered.imp_of_mem fun ha hb h => ?_
    refine h.mono (fun j hj => List.mem_cons_of_mem _ ((ho j).mp hj).left) ?_
    intro m' hm' j hj answers
    have silent : ¬ c.Answers sub id m' := by
      rcases hm' with rfl | rfl
      exacts [silent ha, silent hb]
    refine (ho j).mpr ⟨mem_of_not_answers silent j hj answers, fun e => silent ?_⟩
    exact answers.unique (answers_iff.mpr e) ▸ answer

-- The receivers behind the first one may be fewer than the rest, so that the induction is on their
-- number.
theorem ordered_receiverTargets {ids : List Int} (sorted : ids.Pairwise (· < ·)) :
    (c.receiverTargets sub ids).Pairwise (c.Earlier sub { id | id ∈ ids }) := by
  generalize hn : ids.length = n
  induction n using Nat.strong_induction_on generalizing ids
  case h n hi =>
    cases ids
    case nil => exact .nil
    case cons id rest =>
      have ⟨first, sorted⟩ := List.pairwise_cons.mp sorted
      cases ht : c.receiverTarget? sub id
      case none =>
        have silent (m : Method) : ¬ c.Answers sub id m := by simp [answers_iff, ht]
        rw [receiverTargets_cons_none ht]
        refine (hi rest.length (by simp [← hn]) sorted rfl).imp fun h => ?_
        exact h.mono (fun _ => List.mem_cons_of_mem _) fun m _ => mem_of_not_answers (silent m)
      case some m =>
        have shorter : (rest.filter (c.receiverTarget? sub · != some m)).length < n := by
          rw [← hn, List.length_cons]
          exact Nat.lt_succ_of_le (List.length_filter_le ..)
        rw [receiverTargets_cons_some ht]
        exact ordered_cons first ht (by simp) (hi _ shorter (sorted.filter _) rfl)

end Ordered

theorem listsAnswers_receiverTargets :
    c.ListsAnswers sub R (c.receiverTargets sub R.toList) where
  mem_iff m := by simp [mem_receiverTargets, answers_iff, ObjectSet.mem_toList]
  ordered := by simpa only [ObjectSet.mem_toList] using ordered_receiverTargets R.sorted

theorem targets_eq_nil (h : ∀ declared, c.hierarchy.resolve call.method = some declared →
    declared.isNative) : c.targets call R = [] := by
  unfold targets
  split
  case h_1 => rfl
  case h_2 declared hd => simp [h declared hd]

section Declared

variable (hd : c.hierarchy.resolve call.method = some declared) (native : declared.isNative = false)
include hd native

theorem targets_of_isDirect (direct : call.kind.isDirect) :
    c.targets call R = if declared.isAbstract then [] else [declared] := by
  simp [targets, hd, native, direct]

-- The declared method stands in if there is no answer.
theorem targets_of_answers (indirect : call.kind.isDirect = false) :
    ∃ found, c.ListsAnswers declared.subsignature R found ∧ c.targets call R =
      if found = [] ∧ declared.isAbstract = false then [declared] else found := by
  refine ⟨_, listsAnswers_receiverTargets, ?_⟩
  simp only [targets, hd, native, indirect, Bool.false_eq_true, if_false]
  split
  case h_1 none => cases declared.isAbstract <;> simp [none]
  case h_2 some => rw [if_neg fun h => some h.left]

end Declared

theorem targets_runnable (hm : m ∈ c.targets call R) : m.isAbstract = false ∧ m.isNative = false := by
  cases mem_targets_iff.mp hm
  case inr fallback => exact ⟨fallback.right.right.left, fallback.right.left⟩
  case inl runs =>
    have ⟨declared, _, native, hm⟩ := runs
    split at hm
    case isTrue  => exact ⟨hm.right ▸ hm.left, hm.right ▸ native⟩
    case isFalse =>
      have ⟨_, _, target⟩ := hm
      have ⟨_, _, _, _, dispatched, native⟩ := receiverTarget?_eq_some_iff.mp target
      exact ⟨Hierarchy.isAbstract_of_dispatch dispatched, native⟩

theorem nodup_targets : (c.targets call R).Nodup := by
  cases hd : c.hierarchy.resolve call.method
  case none => simp [targets, hd]
  case some declared =>
    cases native : declared.isNative
    case true => simp [targets, hd, native]
    case false =>
      cases direct : call.kind.isDirect
      case true  =>
        rw [targets_of_isDirect hd native direct]
        split <;> simp
      case false =>
        have ⟨found, lists, targets⟩ := targets_of_answers (R := R) hd native direct
        rw [targets]
        split
        · simp
        · exact lists.nodup

-- Nothing but the declared method can be lost when receivers are added.
theorem targets_exact (c : Scene) (call : Invoke) (R : ObjectSet) :
    (c.targets call R).Nodup ∧
    (∀ m ∈ c.targets call R, m.isAbstract = false ∧ m.isNative = false) ∧
    ((∀ declared, c.hierarchy.resolve call.method = some declared → declared.isNative) →
      c.targets call R = []) ∧
    (∀ declared, c.hierarchy.resolve call.method = some declared → declared.isNative = false →
      (call.kind = .static ∨ call.kind = .special →
        c.targets call R = if declared.isAbstract then [] else [declared]) ∧
      (call.kind ≠ .static → call.kind ≠ .special →
        ∃ found, c.ListsAnswers declared.subsignature R found ∧ c.targets call R =
          if found = [] ∧ declared.isAbstract = false then [declared] else found)) ∧
    ∀ R' : ObjectSet, (∀ id ∈ R, id ∈ R') → ∀ m ∈ c.targets call R,
      m ∈ c.targets call R' ∨ c.hierarchy.resolve call.method = some m := by
  refine ⟨nodup_targets, fun _ => targets_runnable, targets_eq_nil, ?_, ?_⟩
  · intro declared hd native
    refine ⟨fun direct => ?_, fun static special => ?_⟩
    · refine targets_of_isDirect hd native ?_
      rcases direct with direct | direct <;> simp [direct, CallKind.isDirect]
    · refine targets_of_answers hd native ?_
      cases hk : call.kind <;> simp_all [CallKind.isDirect]
  · intro R' subset m hm
    cases mem_targets_iff.mp hm
    case inl runs     => exact .inl (runs_subset_targets (runs_mono subset runs))
    case inr fallback => exact .inr fallback.left

section Served

variable {type : String} {k : Class}

theorem mem_targets_iff_answers (hd : c.hierarchy.resolve call.method = some declared)
    (native : declared.isNative = false) (indirect : call.kind.isDirect = false) :
    m ∈ c.targets call R ↔ (∃ id ∈ R, c.Answers declared.subsignature id m) ∨
      m = declared ∧ m.isAbstract = false ∧
        ∀ id ∈ R, ∀ m', ¬ c.Answers declared.subsignature id m' := by
  have ⟨found, lists, targets⟩ := targets_of_answers (R := R) hd native indirect
  have empty_iff : found = [] ↔ ∀ id ∈ R, ∀ m', ¬ c.Answers declared.subsignature id m' := by
    simp only [List.eq_nil_iff_forall_not_mem, lists.mem_iff]
    grind
  rw [targets, ← empty_iff, ← lists.mem_iff]
  split
  case isTrue h  => grind
  case isFalse h => grind

-- What only an interface of the chain declares is no answer of the receiver. It is a target as long
-- as it is the declared method and nobody has an answer.
theorem receivers_served (hd : c.hierarchy.resolve call.method = some declared)
    (native : declared.isNative = false) (indirect : call.kind.isDirect = false)
    (hid : id ∈ R) (ht : c.objects.type? id = some type) (hk : c.hierarchy.class? type = some k)
    (hm : c.hierarchy.resolve ⟨type, declared.subsignature⟩ = some m)
    (concrete : m.isAbstract = false) (runnable : m.isNative = false) :
    ((∃ k' ∈ c.hierarchy.chain k, (k'.method? declared.subsignature).isSome) →
      m ∈ c.targets call R) ∧
    ((∀ k' ∈ c.hierarchy.chain k, k'.method? declared.subsignature = none) →
      (∀ m', ¬ c.Answers declared.subsignature id m') ∧
      (m ∈ c.targets call R ↔ (∃ id' ∈ R, c.Answers declared.subsignature id' m) ∨
        m = declared ∧ ∀ id' ∈ R, ∀ m', ¬ c.Answers declared.subsignature id' m')) := by
  have mem_iff := mem_targets_iff_answers (m := m) (R := R) hd native indirect
  refine ⟨fun onChain => ?_, fun undeclared => ⟨fun m' answers => ?_, ?_⟩⟩
  · have dispatched := Hierarchy.dispatch_of_resolve hk hm concrete onChain
    exact mem_iff.mpr (.inl ⟨id, hid, type, k, ht, hk, dispatched, runnable⟩)
  · have ⟨type', k', ht', hk', dispatched, _⟩ := answers
    obtain rfl : type = type' := Option.some.inj (ht.symm.trans ht')
    obtain rfl : k = k' := Option.some.inj (hk.symm.trans hk')
    simp [Hierarchy.dispatch_eq_none undeclared] at dispatched
  · simpa [concrete] using mem_iff

end Served
end Scene

namespace Scene

-- Two classes implement an interface that can greet by itself. Only one of them greets in its own
-- way.
namespace Sample.Greeting

def greetingOf (id : Nat) (owner : String) : Method where
  id
  owner
  name      := "greet"
  modifiers := {}
  body      := [.ret none]

def greeting : Method := greetingOf 0 "Greeter"

def growl : Method := greetingOf 1 "Rude"

def program : Program where
  classes := [
    { name := "Greeter", isInterface := true, methods := [greeting] },
    { name := "Polite", interfaces := ["Greeter"] },
    { name := "Rude", interfaces := ["Greeter"], methods := [growl] }]

def scene : Scene where
  hierarchy := { program }
  objects   := { allocations := [⟨⟨0, 2⟩, 1, "Polite"⟩, ⟨⟨1, 2⟩, 2, "Rude"⟩] }

def call : Invoke where
  result := none
  kind   := .interface
  method := ⟨"Greeter", "greet()"⟩
  base   := none
  args   := []

def polite : ObjectSet := .ofList [1]

def both : ObjectSet := .ofList [1, 2]

theorem targets_polite : scene.targets call polite = [greeting] := by decide +kernel

theorem targets_both : scene.targets call both = [growl] := by decide +kernel

-- With the rude one among the receivers, there is an answer, and the declared method goes.
theorem declared_lost :
    greeting ∈ scene.targets call polite ∧ greeting ∉ scene.targets call both ∧
      scene.hierarchy.resolve call.method = some greeting ∧
      ∃ found, scene.ListsAnswers "greet()" both found ∧ scene.targets call both = found := by
  have ⟨_, _, _, _, kept⟩ := targets_exact scene call polite
  have ⟨_, _, _, listed, _⟩ := targets_exact scene call both
  have before : greeting ∈ scene.targets call polite := by simp [targets_polite]
  have after : greeting ∉ scene.targets call both := by
    rw [targets_both]
    decide +kernel
  have ⟨_, answers⟩ := listed greeting rfl rfl
  have ⟨found, lists, targets⟩ := answers nofun nofun
  refine ⟨before, after, (kept both (by decide +kernel) greeting before).resolve_left after, found,
    lists, ?_⟩
  split at targets
  case isTrue  => exact absurd (targets ▸ List.mem_singleton_self greeting) after
  case isFalse => exact targets

theorem greeters_served :
    growl ∈ scene.targets call both ∧ greeting ∈ scene.targets call polite ∧
      greeting ∉ scene.targets call both := by
  have ⟨rude, _⟩ := @receivers_served scene call greeting growl 2 both "Rude" _ rfl rfl rfl
    (by decide +kernel) rfl rfl rfl rfl rfl
  have ⟨_, alone⟩ := @receivers_served scene call greeting greeting 1 polite "Polite" _ rfl rfl rfl
    (by decide +kernel) rfl rfl rfl rfl rfl
  have ⟨_, hidden⟩ := @receivers_served scene call greeting greeting 1 both "Polite" _ rfl rfl rfl
    (by decide +kernel) rfl rfl rfl rfl rfl
  have ⟨silent, mem_alone⟩ := alone (by decide +kernel)
  have ⟨_, mem_hidden⟩ := hidden (by decide +kernel)
  refine ⟨rude (by decide +kernel), mem_alone.mpr (.inr ⟨rfl, fun id hid => ?_⟩), fun h => ?_⟩
  · have : ∀ id ∈ polite.toList, id = 1 := by decide +kernel
    exact this id (ObjectSet.mem_toList.mpr hid) ▸ silent
  · have answer : scene.Answers "greet()" 2 growl := answers_iff.mpr (by decide +kernel)
    have mute : ∀ id ∈ both.toList, scene.receiverTarget? "greet()" id ≠ some greeting := by
      decide +kernel
    cases mem_hidden.mp h
    case inl given =>
      have ⟨id, hid, given⟩ := given
      exact mute id (ObjectSet.mem_toList.mpr hid) (answers_iff.mp given)
    case inr none => exact none.right 2 (by decide +kernel) growl answer

end Sample.Greeting

-- The receiver that greets in its own way hides what the interface makes of the other one.
theorem not_receivers_served :
    ¬ ∀ (c : Scene) (call : Invoke) (R : ObjectSet) (declared m : Method) (id : Int) (type : String)
      (k : Class), c.hierarchy.resolve call.method = some declared → declared.isNative = false →
        call.kind = .virtual ∨ call.kind = .interface → id ∈ R → c.objects.type? id = some type →
        c.hierarchy.class? type = some k →
        c.hierarchy.resolve ⟨type, declared.subsignature⟩ = some m → m.isAbstract = false →
        m.isNative = false → m ∈ c.targets call R := by
  intro h
  have served := h Sample.Greeting.scene Sample.Greeting.call Sample.Greeting.both
    Sample.Greeting.greeting Sample.Greeting.greeting 1 "Polite" _ rfl rfl (.inr rfl)
    (by decide +kernel) rfl rfl rfl rfl rfl
  rw [Sample.Greeting.targets_both] at served
  exact absurd served (by decide +kernel)

end Scene
end PointsTo
