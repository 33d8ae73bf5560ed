import Std.Data.TreeMap

namespace PointsTo

-- A key is filed under a number that tells most keys apart. Keys with one number share a short
-- list, so the choice of the numbers has no bearing on what a map holds.
class Coded (κ : Type) where
  code : κ → Nat

instance : Coded String where
  code s := s.utf8ByteSize

structure Table (κ β : Type) [Coded κ] where
  buckets : Std.TreeMap Nat (List (κ × β)) := ∅
  placed : ∀ n, ∀ e ∈ buckets.getD n [], Coded.code e.1 = n := by simp
  nodup : ∀ n, ((buckets.getD n []).map Prod.fst).Nodup := by simp

namespace Table

variable {κ β : Type}

section

variable [DecidableEq κ]

def lookup (k : κ) : List (κ × β) → Option β
  | [] => none
  | (k', b) :: rest => if k' = k then some b else lookup k rest

def replace (k : κ) (b : β) : List (κ × β) → List (κ × β)
  | [] => [(k, b)]
  | (k', b') :: rest => if k' = k then (k', b) :: rest else (k', b') :: replace k b rest

theorem lookup_replace (k k' : κ) (b : β) (l : List (κ × β)) :
    lookup k' (replace k b l) = if k' = k then some b else lookup k' l := by
  induction l with
  | nil => grind [replace, lookup]
  | cons e rest ih => grind [replace, lookup]

theorem keys_replace (k : κ) (b : β) (l : List (κ × β)) :
    (replace k b l).map Prod.fst =
      if k ∈ l.map Prod.fst then l.map Prod.fst else l.map Prod.fst ++ [k] := by
  induction l with
  | nil => simp [replace]
  | cons e rest ih =>
    obtain ⟨k', b'⟩ := e
    unfold replace
    split <;> grind

theorem lookup_eq_some_iff {k : κ} {b : β} {l : List (κ × β)} (h : (l.map Prod.fst).Nodup) :
    lookup k l = some b ↔ (k, b) ∈ l := by
  induction l with
  | nil => simp [lookup]
  | cons e rest ih =>
    obtain ⟨k', b'⟩ := e
    have absent (c : β) : (k', c) ∉ rest := fun hc =>
      (List.nodup_cons.mp h).1 (List.mem_map.mpr ⟨_, hc, rfl⟩)
    have := ih (List.nodup_cons.mp h).2
    grind [lookup]

end

variable [Coded κ]

instance : EmptyCollection (Table κ β) := ⟨{}⟩

instance : Inhabited (Table κ β) := ⟨∅⟩

def entries (t : Table κ β) : List (κ × β) :=
  t.buckets.toList.flatMap Prod.snd

def keys (t : Table κ β) : List κ :=
  t.entries.map Prod.fst

theorem nodup_keys (t : Table κ β) : t.keys.Nodup := by
  have bucket {e : Nat × List (κ × β)} (he : e ∈ t.buckets.toList) :
      t.buckets.getD e.1 [] = e.2 := by
    rw [Std.TreeMap.getD_eq_getD_getElem?,
      Std.TreeMap.mem_toList_iff_getElem?_eq_some.mp (show (e.1, e.2) ∈ _ from he)]
    rfl
  unfold keys entries
  rw [List.map_flatMap, List.Nodup, List.pairwise_flatMap]
  refine ⟨fun e he => bucket he ▸ t.nodup e.1, ?_⟩
  refine Std.TreeMap.distinct_keys_toList.imp_of_mem fun {e₁ e₂} h₁ h₂ hne => ?_
  intro k₁ hk₁ k₂ hk₂ heq
  obtain ⟨x₁, hx₁, rfl⟩ := List.mem_map.mp hk₁
  obtain ⟨x₂, hx₂, rfl⟩ := List.mem_map.mp hk₂
  have c₁ := t.placed e₁.1 x₁ (bucket h₁ ▸ hx₁)
  have c₂ := t.placed e₂.1 x₂ (bucket h₂ ▸ hx₂)
  exact hne (by rw [← c₁, ← c₂, heq]; simp)

variable [DecidableEq κ]

def get? (t : Table κ β) (k : κ) : Option β :=
  lookup k (t.buckets.getD (Coded.code k) [])

def set (t : Table κ β) (k : κ) (b : β) : Table κ β where
  buckets := t.buckets.insert (Coded.code k) (replace k b (t.buckets.getD (Coded.code k) []))
  placed := by
    intro n e he
    rw [Std.TreeMap.getD_insert] at he
    split at he
    case isTrue hn =>
      have hn : Coded.code k = n := by simpa using hn
      have hkey : e.1 ∈ (replace k b (t.buckets.getD (Coded.code k) [])).map Prod.fst :=
        List.mem_map.mpr ⟨e, he, rfl⟩
      have old : e.1 ∈ (t.buckets.getD (Coded.code k) []).map Prod.fst → Coded.code e.1 = n := by
        intro hm
        obtain ⟨e', he', heq⟩ := List.mem_map.mp hm
        rw [← heq, t.placed _ e' he', hn]
      rw [keys_replace] at hkey
      grind
    case isFalse => exact t.placed n e he
  nodup := by
    intro n
    rw [Std.TreeMap.getD_insert]
    split
    case isTrue =>
      rw [keys_replace]
      have := t.nodup (Coded.code k)
      grind
    case isFalse => exact t.nodup n

@[simp] theorem get?_empty (k : κ) : (∅ : Table κ β).get? k = none := by
  show lookup k ((∅ : Std.TreeMap Nat (List (κ × β))).getD (Coded.code k) []) = none
  rw [Std.TreeMap.getD_emptyc]
  rfl

theorem get?_set (t : Table κ β) (k k' : κ) (b : β) :
    (t.set k b).get? k' = if k' = k then some b else t.get? k' := by
  unfold get?
  simp only [set, Std.TreeMap.getD_insert]
  split
  case isTrue h =>
    have h : Coded.code k = Coded.code k' := by simpa using h
    rw [lookup_replace, h]
  case isFalse h =>
    have : k' ≠ k := fun e => h (by simp [e])
    simp [this]

theorem mem_entries {t : Table κ β} {k : κ} {b : β} : (k, b) ∈ t.entries ↔ t.get? k = some b := by
  have bucket (n : Nat) (l : List (κ × β)) : (n, l) ∈ t.buckets.toList ↔ t.buckets[n]? = some l :=
    Std.TreeMap.mem_toList_iff_getElem?_eq_some
  have getD (n : Nat) : t.buckets.getD n [] = t.buckets[n]?.getD [] :=
    Std.TreeMap.getD_eq_getD_getElem?
  unfold get?
  rw [lookup_eq_some_iff (t.nodup _), entries, List.mem_flatMap]
  constructor
  · rintro ⟨⟨n, l⟩, hl, hmem⟩
    have hn : t.buckets.getD n [] = l := by rw [getD, (bucket n l).mp hl]; rfl
    have : Coded.code k = n := t.placed n (k, b) (hn ▸ hmem)
    rw [this, hn]
    exact hmem
  · intro hmem
    cases h : t.buckets[Coded.code k]? with
    | none => rw [getD, h] at hmem; exact absurd hmem List.not_mem_nil
    | some l =>
      rw [getD, h] at hmem
      exact ⟨(_, l), (bucket _ l).mpr h, hmem⟩

theorem mem_keys {t : Table κ β} {k : κ} : k ∈ t.keys ↔ t.get? k ≠ none := by
  constructor
  · intro h
    obtain ⟨⟨k', b⟩, hb, rfl⟩ := List.mem_map.mp h
    rw [mem_entries.mp hb]
    exact nofun
  · intro h
    obtain ⟨b, hb⟩ := Option.ne_none_iff_exists'.mp h
    exact List.mem_map.mpr ⟨(k, b), mem_entries.mpr hb, rfl⟩

end Table
end PointsTo
