/-!
This module contains IEEE 754 binary64 numbers as bit patterns: their fields, the comparison of
numbers, and the two conversions that values need, from a natural number and from binary32. All of
it is exact integer arithmetic on the bits.
-/

namespace ContentModel

/--
A binary64 number, given by its bits: a sign, 11 bits of exponent and 52 bits of fraction.
-/
structure Binary64 where
  bits : UInt64
deriving DecidableEq, Repr, Inhabited

namespace Binary64

/--
The biased exponent.
-/
def exponent (x : Binary64) : Nat := (x.bits.toNat >>> 52) % (1 <<< 11)

def fraction (x : Binary64) : Nat := x.bits.toNat % (1 <<< 52)

/--
Not a number: the largest exponent with a fraction.
-/
def isNaN (x : Binary64) : Bool := x.exponent == 2047 && x.fraction != 0

/--
Zero of either sign.
-/
def isZero (x : Binary64) : Bool := x.exponent == 0 && x.fraction == 0

/--
Equality of the numbers and not of their bits: the two zeros are equal, and a NaN equals nothing.
-/
def beq (x y : Binary64) : Bool :=
  !x.isNaN && !y.isNaN && (x.bits == y.bits || x.isZero && y.isZero)

instance : BEq Binary64 := ⟨beq⟩

/--
The quotient `n / d` rounded to the nearest integer, a half going to the even neighbour.
-/
def roundDiv (n d : Nat) : Nat :=
  let q := n / d
  let r := n % d
  if d < 2 * r ∨ (2 * r = d ∧ q % 2 = 1) then q + 1 else q

/--
The binary64 number nearest to `n`, for `n` below `2 ^ 1023`. The significand of 53 bits has its
leading bit at `2 ^ 52`, so adding it to the exponent field less one fills in both fields, also
when rounding carries it to `2 ^ 53`.
-/
def ofNat (n : Nat) : Binary64 :=
  if n = 0 then
    ⟨0⟩
  else
    let exp := n.log2
    let significand :=
      if exp ≤ 52 then n <<< (52 - exp) else roundDiv n (1 <<< (exp - 52))
    ⟨UInt64.ofNat ((exp + 1022) <<< 52 + significand)⟩

/--
The binary64 number equal to a binary32 number given by its bits. A subnormal becomes normal; the
fraction of a NaN is kept.
-/
def ofBinary32 (word : UInt32) : Binary64 :=
  let sign := word.toNat >>> 31
  let exp := (word.toNat >>> 23) % (1 <<< 8)
  let frac := word.toNat % (1 <<< 23)
  let magnitude :=
    if exp = 255 then
      2047 <<< 52 + frac <<< 29
    else if exp = 0 then
      if frac = 0 then 0 else (frac.log2 + 873) <<< 52 + frac <<< (52 - frac.log2)
    else
      (exp + 896) <<< 52 + frac <<< 29
  ⟨UInt64.ofNat (sign <<< 63 + magnitude)⟩

theorem beq_def (x y : Binary64) :
    (x == y) = (!x.isNaN && !y.isNaN && (x.bits == y.bits || x.isZero && y.isZero)) := rfl

theorem beq_self (x : Binary64) : (x == x) = !x.isNaN := by
  simp [beq_def]

theorem beq_comm (x y : Binary64) : (x == y) = (y == x) := by
  simp only [beq_def, Bool.beq_comm (a := x.bits), Bool.and_comm (x := x.isZero),
    Bool.and_comm (x := !x.isNaN)]

theorem beq_trans {x y z : Binary64} (hxy : (x == y) = true) (hyz : (y == z) = true) :
    (x == z) = true := by
  obtain ⟨x⟩ := x
  obtain ⟨y⟩ := y
  obtain ⟨z⟩ := z
  simp only [beq_def, Bool.and_eq_true, Bool.or_eq_true, beq_iff_eq] at *
  obtain ⟨⟨hx, hy⟩, hxy⟩ := hxy
  obtain ⟨⟨_, hz⟩, hyz⟩ := hyz
  refine ⟨⟨hx, hz⟩, ?_⟩
  rcases hxy with rfl | hxy <;> rcases hyz with rfl | hyz <;> simp_all

end Binary64

end ContentModel
