import Mathlib.Data.List.Induction
import Mathlib.Data.List.Sort
import Mathlib.Logic.Function.Basic
import Mathlib.Order.CompletePartialOrder
import PointsTo.Analysis.Report
import PointsTo.Proofs.Fact

namespace PointsTo

-- What can be added to: what a variable points to, what a slot holds, or a set with a name.
inductive Place
  | var (v : Var)
  | slot (slot : Slot)
  | set (name : String)
deriving DecidableEq

structure Storage where
  points : Store Var := ∅
  fields : Fields := ∅
  sets   : String → ObjectSet := fun _ => ∅

def Storage.get (st : Storage) : Place → ObjectSet
  | .var v     => st.points.get v
  | .slot slot => st.fields.get slot
  | .set name  => st.sets name

-- What is added: no set at all, a fixed one, or the one of a place at that moment.
inductive Operand
  | absent
  | fixed (ids : List Int)
  | held (place : Place)

def Operand.value (st : Storage) : Operand → ObjectSet
  | absent     => ∅
  | fixed ids  => .ofList ids
  | held place => st.get place

inductive Addition
  | addPoint (v : Var) (id : Int)
  | addMember (name : String) (id : Int)
  | addAll (place : Place) (operand : Operand)

namespace Addition

def place : Addition → Place
  | addPoint v _     => .var v
  | addMember name _ => .set name
  | addAll place _   => place

def added (st : Storage) : Addition → ObjectSet
  | addPoint _ id | addMember _ id => .ofList [id]
  | addAll _ operand => operand.value st

-- The operand has nothing to do with the stores.
def IsPlain : Addition → Prop
  | addAll _ (.held _) => False
  | _ => True

theorem IsPlain.added_eq {op : Addition} (h : op.IsPlain) (st st' : Storage) :
    op.added st = op.added st' := by
  cases op
  case addAll place operand =>
    cases operand
    case held => exact h.elim
    all_goals rfl
  all_goals rfl

end Addition

-- Adding one object is adding a set of one object.
theorem ObjectSet.add_eq (s : ObjectSet) (a : Int) : s.add a = s.addAll (.ofList [a]) := by
  refine Prod.ext (ext_mem fun x => ?elements) (Bool.eq_iff_iff.mpr ?grown)
  case elements => simp [add, addAll, or_comm]
  case grown => simp [add, addAll, ← Bool.not_eq_true, subset_iff]

namespace Storage

-- Adds a set to that of a place; also tells whether the place holds more then.
def addTo (st : Storage) : Place → ObjectSet → Storage × Bool
  | .var v, ids => ({ st with points := st.points.addAll v ids }, st.points.grows v ids)
  | .slot slot, ids => ({ st with fields := st.fields.addAll slot ids }, st.fields.grows slot ids)
  | .set name, ids =>
    let (set, grown) := (st.sets name).addAll ids
    ({ st with sets := Function.update st.sets name set }, grown)

def apply (st : Storage) : Addition → Storage × Bool
  | .addPoint v id =>
    ({ st with points := st.points.add v id }, st.points.grows v (.ofList [id]))
  | .addMember name id =>
    let (set, grown) := (st.sets name).add id
    ({ st with sets := Function.update st.sets name set }, grown)
  | .addAll place operand => st.addTo place (operand.value st)

def run (ops : List Addition) : Storage :=
  ops.foldl (fun st op => (st.apply op).1) {}

section Apply

variable {st : Storage} {op : Addition} {place place' : Place} {ids : ObjectSet} {x : Int}

theorem apply_eq (st : Storage) (op : Addition) :
    st.apply op = st.addTo op.place (op.added st) := by
  cases op
  case addPoint  => rfl
  case addAll    => rfl
  case addMember =>
    rw [apply, ObjectSet.add_eq]
    rfl

theorem get_addTo : (st.addTo place ids).1.get place' =
    if place' = place then (st.get place).union ids else st.get place' := by
  cases place <;> cases place'
  case var.var   => simp [addTo, get, Store.get_addAll]
  case slot.slot => simp [addTo, get, Fields.get_addAll]
  case set.set   => simp [addTo, get, ObjectSet.addAll, Function.update_apply]
  all_goals simp [addTo, get]

theorem grown_addTo : (st.addTo place ids).2 ↔ ∃ x ∈ ids, x ∉ st.get place := by
  cases place
  case var      => exact Store.grows_iff
  case slot     => exact Fields.grows_iff
  case set name => simp [addTo, get, ObjectSet.addAll, ← Bool.not_eq_true, ObjectSet.subset_iff]

theorem addTo_empty (st : Storage) (place : Place) : st.addTo place ∅ = (st, false) := by
  refine Prod.ext ?unchanged (Bool.eq_false_iff.mpr fun h => ?grown)
  case unchanged =>
    cases place
    case var      => simp [addTo, Store.addAll]
    case slot     => simp [addTo, Fields.addAll]
    case set name =>
      have same : (st.sets name).union ∅ = st.sets name := ObjectSet.ext_mem (by simp)
      simp [addTo, ObjectSet.addAll, same]
  case grown =>
    have ⟨x, hx, _⟩ := grown_addTo.mp h
    exact ObjectSet.not_mem_empty hx

theorem mem_get_apply : x ∈ (st.apply op).1.get place ↔
    x ∈ st.get place ∨ op.place = place ∧ x ∈ op.added st := by
  rw [apply_eq, get_addTo]
  split
  case isTrue h  => simp [h]
  case isFalse h => simp [Ne.symm h]

end Apply

-- One of the additions adds the object to the place.
def Contributes (ops : List Addition) (place : Place) (x : Int) : Prop :=
  ∃ before op after, ops = before ++ op :: after ∧ op.place = place ∧ x ∈ op.added (run before)

section Run

variable {ops ops' : List Addition} {op : Addition} {place : Place} {x : Int}

theorem run_append : run (ops ++ [op]) = ((run ops).apply op).1 := by
  simp [run]

theorem contributes_append : Contributes (ops ++ [op]) place x ↔
    Contributes ops place x ∨ op.place = place ∧ x ∈ op.added (run ops) := by
  constructor
  case mp =>
    rintro ⟨before, op', after, split, here⟩
    rcases List.eq_nil_or_concat after with rfl | ⟨after, last, rfl⟩
    case inl =>
      obtain ⟨rfl, rfl⟩ : ops = before ∧ op = op' := by simpa using split
      exact .inr here
    case inr =>
      have earlier : ops ++ [op] = before ++ op' :: after ++ [last] := by simpa using split
      exact .inl ⟨before, op', after, (List.append_inj' earlier rfl).1, here⟩
  case mpr =>
    rintro (⟨before, op', after, rfl, here⟩ | here)
    case inl => exact ⟨before, op', after ++ [op], by simp, here⟩
    case inr => exact ⟨ops, op, [], rfl, here⟩

-- A place holds what was added to it, and nothing else.
theorem mem_get_run : x ∈ (run ops).get place ↔ Contributes ops place x := by
  induction ops using List.reverseRecOn
  case nil =>
    have none : x ∉ (run []).get place := by cases place <;> simp [run, get]
    simp [none, Contributes]
  case append_singleton ops op hi => rw [run_append, mem_get_apply, contributes_append, hi]

theorem mem_get_run_of_plain (plain : ∀ op ∈ ops, op.IsPlain) : x ∈ (run ops).get place ↔
    ∃ op ∈ ops, op.place = place ∧ x ∈ op.added {} := by
  rw [mem_get_run]
  constructor
  case mp =>
    rintro ⟨before, op, after, rfl, hp, hx⟩
    have here : op ∈ before ++ op :: after := by simp
    exact ⟨op, here, hp, (plain op here).added_eq _ {} ▸ hx⟩
  case mpr =>
    rintro ⟨op, here, hp, hx⟩
    have ⟨before, after, split⟩ := List.append_of_mem here
    exact ⟨before, op, after, split, hp, (plain op here).added_eq {} _ ▸ hx⟩

theorem get_run_of_perm (plain : ∀ op ∈ ops, op.IsPlain) (perm : ops.Perm ops') :
    (run ops).get = (run ops').get := by
  funext place
  have plain' : ∀ op ∈ ops', op.IsPlain := fun op h => plain op (perm.mem_iff.mpr h)
  refine ObjectSet.ext_mem fun x => ?_
  simp only [mem_get_run_of_plain plain, mem_get_run_of_plain plain', perm.mem_iff]

end Run
end Storage

namespace Store

variable {κ : Type} [Coded κ] [DecidableEq κ] {s s' : Store κ}

theorem nodup_keys (s : Store κ) : s.keys.Nodup :=
  s.table.nodup_keys

theorem keys_perm (h : s.get = s'.get) : s.keys.Perm s'.keys := by
  refine (List.perm_ext_iff_of_nodup s.nodup_keys s'.nodup_keys).mpr fun k => ?_
  rw [mem_keys, mem_keys, h]

theorem entries_eq (s : Store κ) : s.entries = s.keys.map fun k => (k, s.get k) := by
  have same : ∀ e ∈ s.entries, (e.1, s.get e.1) = e := fun e he => by
    rw [(mem_entries.mp he).left]
  rw [keys, Table.keys, List.map_map]
  exact (List.map_id _).symm.trans (List.map_congr_left fun e he => (same e he).symm)

end Store

-- Sorting by a text does not depend on the order from before, if the texts are different.
theorem mergeSort_eq_of_perm {α : Type} {text : α → String} {l l' : List α} (perm : l.Perm l')
    (differ : ∀ a ∈ l, ∀ b ∈ l, text a = text b → a = b) :
    l.mergeSort (fun a b => text a ≤ text b) = l'.mergeSort fun a b => text a ≤ text b := by
  have sorted (l : List α) := List.pairwise_mergeSort' (fun a b => text a ≤ text b) l
  refine List.Perm.eq_of_pairwise ?antisymm (sorted l) (sorted l') ?perm
  case antisymm =>
    intro a b ha hb hab hba
    have hb' : b ∈ l := perm.mem_iff.mpr (List.mem_mergeSort.mp hb)
    exact differ a (List.mem_mergeSort.mp ha) b hb' (String.le_antisymm hab hba)
  case perm => exact (List.mergeSort_perm ..).trans (perm.trans (List.mergeSort_perm ..).symm)

namespace Fields

variable {s s' : Fields} {o : Int} {key : FieldKey}

theorem mem_objects : o ∈ s.objects ↔ ∃ key, s.get ⟨o, key⟩ ≠ ∅ := by
  have filled : (s.partsOf o).size ≠ 0 ↔ ∃ key, s.get ⟨o, key⟩ ≠ ∅ := by
    rw [Store.size, Store.entries_eq, List.length_map, Nat.ne_zero_iff_zero_lt,
      List.length_pos_iff_exists_mem]
    exact exists_congr fun key => Store.mem_keys
  have known (h : (s.partsOf o).size ≠ 0) : o ∈ s.parts := by
    by_contra absent
    rw [partsOf, Std.TreeMap.getD_eq_fallback absent] at h
    exact h rfl
  simp only [objects, List.mem_filter, Std.TreeMap.mem_keys, decide_eq_true_eq, ← filled]
  exact ⟨And.right, fun h => ⟨known h, h⟩⟩

theorem objects_ascending (s : Fields) : s.objects.Pairwise (· < ·) := by
  refine (Std.TreeMap.ordered_keys.imp fun h => ?_).filter _
  exact compare_lt_iff_lt.mp h

theorem mem_keysOf : key ∈ s.keysOf o ↔ s.get ⟨o, key⟩ ≠ ∅ :=
  List.mem_mergeSort.trans Store.mem_keys

theorem nodup_keysOf (s : Fields) (o : Int) : (s.keysOf o).Nodup :=
  (List.mergeSort_perm ..).nodup_iff.mpr (Store.nodup_keys _)

theorem mem_elements_iff {x : Int} : x ∈ s.elements o ↔
    (∃ i, x ∈ s.get ⟨o, .index i⟩) ∨ x ∈ s.get ⟨o, .anyIndex⟩ := by
  rw [mem_elements]
  constructor
  case mp =>
    rintro ⟨key, array, hx⟩
    cases key
    case field    => contradiction
    case index i  => exact .inl ⟨i, hx⟩
    case anyIndex => exact .inr hx
  case mpr =>
    rintro (⟨i, hx⟩ | hx)
    case inl => exact ⟨.index i, rfl, hx⟩
    case inr => exact ⟨.anyIndex, rfl, hx⟩

theorem elements_congr (h : ∀ key, key.isArray → s.get ⟨o, key⟩ = s'.get ⟨o, key⟩) :
    s.elements o = s'.elements o := by
  refine ObjectSet.ext_mem fun x => ?_
  rw [mem_elements, mem_elements]
  exact exists_congr fun key => and_congr_right fun array => by rw [h key array]

-- The keys of an object under which something was written have different texts.
def Legible (s : Fields) (o : Int) : Prop :=
  ∀ key key', s.get ⟨o, key⟩ ≠ ∅ → s.get ⟨o, key'⟩ ≠ ∅ → key.text = key'.text → key = key'

theorem objects_congr (h : s.get = s'.get) : s.objects = s'.objects :=
  ObjectSet.eq_of_sorted s.objects_ascending s'.objects_ascending fun o => by
    rw [mem_objects, mem_objects, h]

theorem keysOf_congr (h : s.get = s'.get) (legible : s.Legible o) : s.keysOf o = s'.keysOf o := by
  have parts : (s.partsOf o).get = (s'.partsOf o).get := funext fun key => congrFun h ⟨o, key⟩
  refine mergeSort_eq_of_perm (Store.keys_perm parts) fun key hk key' hk' => ?_
  exact legible key key' (Store.mem_keys.mp hk) (Store.mem_keys.mp hk')

end Fields

namespace Analysis.Result

variable {r r' : Result} {p : Program}

theorem varLines_congr (h : r.facts.points.get = r'.facts.points.get) :
    r.varLines p = r'.varLines p := by
  unfold varLines
  simp only [Store.entries_eq, List.map_map]
  refine @mergeSort_eq_of_perm _ id _ _ ?_ (fun _ _ _ _ => id)
  rw [h]
  exact (Store.keys_perm h).map _

theorem slotLines_congr (h : r.facts.fields.get = r'.facts.fields.get)
    (legible : ∀ o, r.facts.fields.Legible o) : r.slotLines = r'.slotLines := by
  unfold slotLines
  rw [Fields.objects_congr h]
  refine List.flatMap_congr fun o _ => ?_
  rw [Fields.keysOf_congr h (legible o), h]

theorem dump_congr (points : r.facts.points.get = r'.facts.points.get)
    (fields : r.facts.fields.get = r'.facts.fields.get)
    (legible : ∀ o, r.facts.fields.Legible o) : r.dump p = r'.dump p := by
  rw [dump, dump, varLines_congr points, slotLines_congr fields legible]

end Analysis.Result

namespace Storage

-- What the stores answer after some additions. Listings show the places that hold something.
structure Answers (ops : List Addition) (st : Storage) : Prop where
  get       : ∀ place x, x ∈ st.get place ↔ Contributes ops place x
  ascending : ∀ place, (st.get place).toList.Pairwise (· < ·)
  elements  : ∀ o x, x ∈ st.fields.elements o ↔
    (∃ i, x ∈ st.fields.get ⟨o, .index i⟩) ∨ x ∈ st.fields.get ⟨o, .anyIndex⟩
  size      : st.points.size = st.points.keys.length
  vars      : st.points.keys.Nodup ∧ ∀ v, v ∈ st.points.keys ↔ st.points.get v ≠ ∅
  objects   : st.fields.objects.Pairwise (· < ·) ∧
    ∀ o, o ∈ st.fields.objects ↔ ∃ key, st.fields.get ⟨o, key⟩ ≠ ∅
  keys      : ∀ o, (st.fields.keysOf o).Nodup ∧
    (st.fields.keysOf o).Pairwise (fun a b => a.text ≤ b.text) ∧
    ∀ key, key ∈ st.fields.keysOf o ↔ st.fields.get ⟨o, key⟩ ≠ ∅

-- What one addition does, and what it answers.
structure Adds (st : Storage) (op : Addition) : Prop where
  others  : ∀ place, place ≠ op.place → (st.apply op).1.get place = st.get place
  get     : ∀ x, x ∈ (st.apply op).1.get op.place ↔ x ∈ st.get op.place ∨ x ∈ op.added st
  answer  : (st.apply op).2 ↔
    {x | x ∈ st.get op.place} ⊂ {x | x ∈ (st.apply op).1.get op.place}
  nothing : op.added st = ∅ → st.apply op = (st, false)
  -- Whatever a named field is called, it is no array element.
  named   : ∀ o name, op.place = .slot ⟨o, .field name⟩ →
    ∀ o', (st.apply op).1.fields.elements o' = st.fields.elements o'

-- Two storages give the same answers.
structure SameAnswers (st st' : Storage) : Prop where
  get      : ∀ place, st.get place = st'.get place
  elements : ∀ o, st.fields.elements o = st'.fields.elements o
  size     : st.points.size = st'.points.size
  vars     : st.points.keys.Perm st'.points.keys
  objects  : st.fields.objects = st'.fields.objects
  keys     : ∀ o, st.fields.Legible o → st.fields.keysOf o = st'.fields.keysOf o
  dump     : (∀ o, st.fields.Legible o) → ∀ (r : Analysis.Result) (p : Program),
    { r with facts := ⟨st.points, st.fields⟩ }.dump p =
      { r with facts := ⟨st'.points, st'.fields⟩ }.dump p

theorem answers_run (ops : List Addition) : Answers ops (run ops) where
  get _ _      := mem_get_run
  ascending _  := ObjectSet.sorted _
  elements _ _ := Fields.mem_elements_iff
  size         := by simp [Store.size, Store.entries_eq]
  vars         := ⟨Store.nodup_keys _, fun _ => Store.mem_keys⟩
  objects      := ⟨Fields.objects_ascending _, fun _ => Fields.mem_objects⟩
  keys _       := ⟨Fields.nodup_keysOf _ _, List.pairwise_mergeSort' .., fun _ => Fields.mem_keysOf⟩

theorem adds (st : Storage) (op : Addition) : Adds st op := by
  have others {place : Place} (h : place ≠ op.place) :
      (st.apply op).1.get place = st.get place := by
    rw [apply_eq, get_addTo, if_neg h]
  have get {x : Int} :
      x ∈ (st.apply op).1.get op.place ↔ x ∈ st.get op.place ∨ x ∈ op.added st := by
    simp [mem_get_apply]
  constructor
  case others => exact fun _ => others
  case get    => exact fun _ => get
  case answer =>
    have kept : {x | x ∈ st.get op.place} ⊆ {x | x ∈ (st.apply op).1.get op.place} :=
      fun x hx => get.mpr (.inl hx)
    have grown : (st.apply op).2 ↔ ∃ x ∈ op.added st, x ∉ st.get op.place := by
      rw [apply_eq, grown_addTo]
    rw [grown, Set.ssubset_iff_of_subset kept]
    refine exists_congr fun x => and_congr_left fun new => ?_
    exact ⟨fun hx => get.mpr (.inr hx), fun hx => (get.mp hx).resolve_left new⟩
  case nothing =>
    intro h
    rw [apply_eq, h, addTo_empty]
  case named =>
    intro o name h o'
    refine Fields.elements_congr fun key array => @others (.slot ⟨o', key⟩) fun same => ?_
    rw [h] at same
    cases same
    contradiction

theorem sameAnswers_of_perm {ops ops' : List Addition} (plain : ∀ op ∈ ops, op.IsPlain)
    (perm : ops.Perm ops') : SameAnswers (run ops) (run ops') := by
  have get := get_run_of_perm plain perm
  have points : (run ops).points.get = (run ops').points.get :=
    funext fun v => congrFun get (.var v)
  have fields : (run ops).fields.get = (run ops').fields.get :=
    funext fun slot => congrFun get (.slot slot)
  have vars := Store.keys_perm points
  exact {
    get      := congrFun get
    elements := fun o => Fields.elements_congr fun key _ => congrFun fields ⟨o, key⟩
    size     := by simp [Store.size, Store.entries_eq, vars.length_eq]
    vars
    objects  := Fields.objects_congr fields
    keys     := fun o legible => Fields.keysOf_congr fields legible
    dump     := fun legible r p => Analysis.Result.dump_congr points fields legible }

-- The stores are maps that grow by what is added, and without copies the order does not matter.
theorem additions_answered (ops : List Addition) :
    Answers ops (run ops) ∧
    (∀ before op after, ops = before ++ op :: after → Adds (run before) op) ∧
    ((∀ op ∈ ops, op.IsPlain) → ∀ ops', ops.Perm ops' → SameAnswers (run ops) (run ops')) :=
  ⟨answers_run ops, fun _ _ _ _ => adds _ _, fun plain _ perm => sameAnswers_of_perm plain perm⟩

namespace Sample

def box : Var where
  index := 0
  owner := some 0
  name  := "box"
  type  := "Box"

-- A field that has the text of an array element, which is written as well.
def filling : List Addition :=
  [.addPoint box 1, .addAll (.slot ⟨1, .field "[0]"⟩) (.fixed [2]),
    .addAll (.slot ⟨1, .index 0⟩) (.fixed [4, 3]), .addAll (.slot ⟨5, .anyIndex⟩) .absent]

theorem filling_answers :
    (∀ op ∈ filling, op.IsPlain) ∧ filling.Perm filling.reverse ∧
      SameAnswers (run filling) (run filling.reverse) ∧
      ((run filling).fields.elements 1).toList = [3, 4] ∧ (run filling).fields.objects = [1] := by
  have plain : ∀ op ∈ filling, op.IsPlain := by simp [filling, Addition.IsPlain]
  have perm := filling.reverse_perm.symm
  have same := (additions_answered filling).2.2 plain _ perm
  exact ⟨plain, perm, same, by decide +kernel, by decide +kernel⟩

end Sample
end Storage
end PointsTo
