namespace PointsTo

def twoPow (k : Nat) : Nat := Nat.pow 2 k

-- Rounded to the nearest; a half goes to the even one.
def roundDiv (a b : Nat) : Nat :=
  let q := a / b
  let r := a % b
  if 2 * r < b then q else if b < 2 * r then q + 1 else q + q % 2

theorem near_roundDiv (a b : Nat) (h : 0 < b) :
    2 * a ≤ 2 * (b * roundDiv a b) + b ∧ 2 * (b * roundDiv a b) ≤ 2 * a + b := by
  have hr : a % b < b := Nat.mod_lt _ h
  have ha : b * (a / b) + a % b = a := Nat.div_add_mod a b
  simp only [roundDiv]
  split
  · omega
  · split
    · rw [Nat.mul_add]
      omega
    · rcases Nat.mod_two_eq_zero_or_one (a / b) with hq | hq <;> rw [hq, Nat.mul_add] <;> omega

structure Binary where
  mantissa : Nat
  exponent : Int
deriving DecidableEq

namespace Binary

def ofQuotient (bits a b : Nat) : Binary :=
  let e : Int := (a.log2 : Int) - b.log2 - bits
  let scaled (e : Int) : Nat × Nat :=
    if 0 ≤ e then (a, b * twoPow e.toNat) else (a * twoPow (-e).toNat, b)
  -- The quotient may have one bit more, which is given up.
  let (num, den) := scaled e
  let e := if num / den < twoPow bits then e else e + 1
  let (num, den) := scaled e
  { mantissa := roundDiv num den, exponent := e }

-- In hexadecimal digits: a fraction of at least a half, and a power of two.
def text (x : Binary) : String :=
  let size := x.mantissa.log2 + 1
  let digits := Nat.toDigits 16 (x.mantissa * twoPow ((4 - size % 4) % 4))
  let digits := (digits.reverse.dropWhile (· = '0')).reverse
  let exponent := x.exponent + size
  "0x." ++ String.ofList digits ++ "p" ++ (if 0 ≤ exponent then "+" else "") ++
    toString exponent

end Binary
end PointsTo
