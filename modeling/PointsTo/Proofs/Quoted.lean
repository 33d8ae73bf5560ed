import Mathlib.Algebra.Group.Nat.Defs
import PointsTo.Text.Quoted

namespace PointsTo.Text

section Hexadecimal

variable {n width : Nat}

theorem hexValue?_digitChar : ∀ d < 16, hexValue? (Nat.digitChar d) = some d := by
  decide

theorem digitChar_plain : ∀ d < 16, Nat.digitChar d ≠ '\x22' ∧ Nat.digitChar d ≠ '\\' := by
  decide

-- The digits of a number, without and with zeros in front, stand for the number.
theorem exists_values_toDigits (n : Nat) : ∃ ds, (Nat.toDigits 16 n).mapM hexValue? = some ds ∧
    ds.length = (Nat.toDigits 16 n).length ∧ ds.foldl (16 * · + ·) 0 = n := by
  induction n using Nat.strongRecOn
  case ind n hi =>
    rw [Nat.toDigits_eq_if (by decide)]
    split
    case isTrue small => exact ⟨[n], by simp [hexValue?_digitChar n small], rfl, by simp⟩
    case isFalse large =>
      have ⟨ds, read, length, value⟩ := hi (n / 16) (by omega)
      refine ⟨ds ++ [n % 16], ?read, by simp [length], ?value⟩
      case read => simp [List.mapM_append, read, hexValue?_digitChar (n % 16) (by omega)]
      case value =>
        simp only [List.foldl_append, value, List.foldl_cons, List.foldl_nil]
        omega

theorem mapM_hexValue?_zeros (k : Nat) :
    (List.replicate k '0').mapM hexValue? = some (List.replicate k 0) := by
  induction k
  case zero => rfl
  case succ k hi =>
    have zero : hexValue? '0' = some 0 := rfl
    simp [List.replicate_succ, List.mapM_cons, zero, hi]

theorem length_hex (positive : 0 < width) (h : n < 16 ^ width) : (hex width n).length = width := by
  have := (Nat.length_toDigits_le_iff (by decide) positive).mpr h
  simp only [hex, List.length_append, List.length_replicate]
  omega

theorem hexNumber?_hex (positive : 0 < width) (h : n < 16 ^ width) (rest : List Char) :
    hexNumber? width (hex width n ++ rest) = some (n, rest) := by
  have length := length_hex positive h
  have ⟨ds, read, count, value⟩ := exists_values_toDigits n
  have digits : (hex width n).mapM hexValue? =
      some (List.replicate (width - (Nat.toDigits 16 n).length) 0 ++ ds) := by
    simp [hex, List.mapM_append, mapM_hexValue?_zeros, read]
  have zeros (k : Nat) : (List.replicate k 0).foldl (16 * · + ·) 0 = 0 := by
    induction k
    case zero       => rfl
    case succ k hi  => simpa [List.replicate_succ] using hi
  have enough : (List.replicate (width - (Nat.toDigits 16 n).length) 0 ++ ds).length = width := by
    simpa [hex, count] using length
  unfold hexNumber?
  rw [List.take_append_of_le_length (by omega), List.take_of_length_le (by omega), digits]
  have behind : (hex width n ++ rest).drop width = rest := by
    rw [List.drop_append_of_le_length (by omega), List.drop_of_length_le (by omega),
      List.nil_append]
  rw [Option.bind_eq_bind, Option.bind_some, if_pos enough, List.foldl_append, zeros, value, behind]

theorem mem_toDigits_plain {c : Char} (h : c ∈ Nat.toDigits 16 n) : c ≠ '\x22' ∧ c ≠ '\\' := by
  induction n using Nat.strongRecOn
  case ind n hi =>
    rw [Nat.toDigits_eq_if (by decide)] at h
    split at h
    case isTrue small => exact List.mem_singleton.mp h ▸ digitChar_plain n small
    case isFalse large =>
      cases List.mem_append.mp h
      case inl h => exact hi (n / 16) (by omega) h
      case inr h => exact List.mem_singleton.mp h ▸ digitChar_plain (n % 16) (by omega)

theorem mem_hex_plain {c : Char} (h : c ∈ hex width n) : c ≠ '\x22' ∧ c ≠ '\\' := by
  cases List.mem_append.mp h
  case inl h => exact List.eq_of_mem_replicate h ▸ by decide
  case inr h => exact mem_toDigits_plain h

end Hexadecimal

namespace Quoted

-- What an escape is like: only its second character may be a quote or a backslash, and what is
-- behind the first one is read back.
structure Escapes (c x : Char) (digits : List Char) : Prop where
  plain : ∀ d ∈ digits, d ≠ '\x22' ∧ d ≠ '\\'
  read  : ∀ rest, unescape? (x :: digits ++ rest) = some (.char c, rest)

theorem escapes_of_shortEscape? {c x : Char} (h : shortEscape? c = some x) : Escapes c x [] := by
  refine ⟨by simp, fun rest => ?_⟩
  unfold shortEscape? at h
  split at h
  case h_8 => contradiction
  all_goals
    rename_i code
    obtain rfl := Option.some.inj h
    rw [← Char.ofNat_toNat c, code]
    rfl

theorem escapes_x {c : Char} (h : c.toNat < 0x80) : Escapes c 'x' (hex 2 c.toNat) := by
  refine ⟨fun d hd => mem_hex_plain hd, fun rest => ?_⟩
  simp only [List.cons_append, unescape?]
  rw [hexNumber?_hex (by decide) (by omega)]
  simp [h]

theorem escapes_u {c : Char} (h : c.toNat ≤ 0xffff) : Escapes c 'u' (hex 4 c.toNat) := by
  refine ⟨fun d hd => mem_hex_plain hd, fun rest => ?_⟩
  simp only [List.cons_append, unescape?]
  rw [hexNumber?_hex (by decide) (by omega)]
  simp

theorem escapes_U (c : Char) : Escapes c 'U' (hex 8 c.toNat) := by
  refine ⟨fun d hd => mem_hex_plain hd, fun rest => ?_⟩
  have bound : c.toNat < 16 ^ 8 := c.val.toNat_lt
  simp only [List.cons_append, unescape?]
  rw [hexNumber?_hex (by decide) bound]
  simp

theorem escape_cases (c : Char) : (escape c = [c] ∧ c ≠ '\x22' ∧ c ≠ '\\') ∨
    ∃ x digits, escape c = '\\' :: x :: digits ∧ Escapes c x digits := by
  unfold escape
  split
  case isTrue h =>
    refine .inr ⟨c, [], rfl, by simp, fun rest => ?_⟩
    cases h <;> subst c <;> rfl
  case isFalse h =>
    split
    case isTrue => exact .inl ⟨rfl, not_or.mp h⟩
    case isFalse =>
      refine .inr ?_
      split
      case h_1 x hx => exact ⟨x, [], rfl, escapes_of_shortEscape? hx⟩
      case h_2 =>
        split
        case isTrue h  => exact ⟨'x', _, rfl, escapes_x (by omega)⟩
        case isFalse =>
          split
          case isTrue h => exact ⟨'u', _, rfl, escapes_u h⟩
          case isFalse  => exact ⟨'U', _, rfl, escapes_U c⟩

theorem decode?_escaped (text rest : List Char) {fuel : Nat} (enough : text.length < fuel) :
    decode? fuel (text.flatMap escape ++ '\x22' :: rest) = some (text.map .char) := by
  induction text generalizing fuel
  case nil =>
    obtain ⟨fuel, rfl⟩ := Nat.exists_eq_add_of_lt enough
    rfl
  case cons c text hi =>
    obtain _ | fuel := fuel
    case zero => omega
    case succ =>
      have hi := @hi fuel (by simpa using enough)
      obtain ⟨he, quote, backslash⟩ | ⟨x, digits, he, escapes⟩ := escape_cases c
      case inl => simp [he, decode?, quote, backslash, hi]
      case inr =>
        have read := escapes.read (text.flatMap escape ++ '\x22' :: rest)
        simp only [List.cons_append] at read
        simp [he, decode?, read, hi]

-- What follows the closing quote.
def behind : List Char → List Char
  | [] => []
  | '\x22' :: cs => cs
  | '\\' :: _ :: cs => behind cs
  | _ :: cs => behind cs

theorem behind_cons {c : Char} (h : c ≠ '\x22' ∧ c ≠ '\\') (cs : List Char) :
    behind (c :: cs) = behind cs := by
  rw [behind]
  · exact h.left
  · exact fun _ _ e _ => h.right e

theorem behind_append {digits : List Char} (h : ∀ d ∈ digits, d ≠ '\x22' ∧ d ≠ '\\')
    (cs : List Char) : behind (digits ++ cs) = behind cs := by
  induction digits
  case nil => rfl
  case cons d digits hi =>
    rw [List.cons_append, behind_cons (h d List.mem_cons_self)]
    exact hi fun d hd => h d (List.mem_cons_of_mem _ hd)

theorem behind_escaped (text rest : List Char) :
    behind (text.flatMap escape ++ '\x22' :: rest) = rest := by
  induction text
  case nil => simp [behind]
  case cons c text hi =>
    rw [List.flatMap_cons, List.append_assoc]
    obtain ⟨he, plain⟩ | ⟨x, digits, he, escapes⟩ := escape_cases c
    case inl => rw [he, List.singleton_append, behind_cons plain, hi]
    case inr =>
      rw [he]
      simp only [List.cons_append, behind]
      rw [behind_append escapes.plain, hi]

end Quoted

theorem toList_quote (s : String) :
    (quote s).toList = '\x22' :: (s.toList.flatMap Quoted.escape ++ ['\x22']) := by
  simp [quote, Quoted.encode]

theorem length_le_escaped (cs : List Char) : cs.length ≤ (cs.flatMap Quoted.escape).length := by
  induction cs
  case nil => exact Nat.zero_le _
  case cons c cs hi =>
    rw [List.flatMap_cons, List.length_append, List.length_cons]
    have : 0 < (Quoted.escape c).length := by
      obtain ⟨he, _⟩ | ⟨x, digits, he, _⟩ := Quoted.escape_cases c <;> simp [he]
    omega

theorem unquote?_quote (s : String) (rest : List Char) :
    unquote? (.ofList ((quote s).toList ++ rest)) = some (.ofString s) := by
  have := length_le_escaped s.toList
  have enough : s.toList.length <
      (s.toList.flatMap Quoted.escape ++ '\x22' :: rest).length + 1 := by
    rw [List.length_append]
    omega
  simp only [unquote?, toList_quote, String.toList_ofList, List.cons_append, List.append_assoc,
    if_true, List.nil_append]
  rw [Quoted.decode?_escaped _ _ enough]
  rfl

theorem behind_quote (s : String) (rest : List Char) :
    Quoted.behind (((quote s).toList ++ rest).drop 1) = rest := by
  simp [toList_quote, Quoted.behind_escaped]

end PointsTo.Text
