import Mathlib.Data.Nat.Dist
import ContentModel.Binary64

/-!
This module contains what the two conversions to binary64 compute. A natural number becomes the nearest
number, and a binary32 number the one that is equal to it. Magnitudes are counted in units of
`2 ^ (-1074)`, the smallest positive number, so that all of this is about natural numbers.
-/

namespace ContentModel

namespace Binary64

/--
The sign bit is set.
-/
def isNegative (x : Binary64) : Bool := 2 ^ 63 ≤ x.bits.toNat

/--
Neither infinite nor NaN.
-/
def isFinite (x : Binary64) : Bool := x.exponent != 2047

/--
The magnitude of a finite number in units of `2 ^ (-1074)`.
-/
def units (x : Binary64) : Nat :=
  if x.exponent = 0 then x.fraction else (2 ^ 52 + x.fraction) * 2 ^ (x.exponent - 1)

/--
The magnitude of the number one.
-/
def unitsOfOne : Nat := 2 ^ 1074

/--
No finite number is nearer to `n`, and another one that is as near leaves `x` the even fraction.
-/
structure IsNearest (x : Binary64) (n : Nat) : Prop where
  positive : x.isNegative = false
  finite : x.isFinite = true
  least : ∀ y : Binary64, y.isFinite = true →
    x.units.dist (n * unitsOfOne) ≤ y.units.dist (n * unitsOfOne)
  even : ∀ y : Binary64, y.isFinite = true → y.isNegative = false → y ≠ x →
    x.units.dist (n * unitsOfOne) = y.units.dist (n * unitsOfOne) → x.fraction % 2 = 0

theorem two_pow_eq_unitsOfOne {e : Nat} (h : e = 1074) : 2 ^ e = unitsOfOne := by
  unfold unitsOfOne
  rw [h]

theorem unitsOfOne_pos : 0 < unitsOfOne := by
  rw [← two_pow_eq_unitsOfOne rfl]
  generalize 1074 = e
  apply Nat.two_pow_pos

section Fields

variable {x y : Binary64}

theorem exponent_eq (x : Binary64) : x.exponent = x.bits.toNat / 2 ^ 52 % 2 ^ 11 := by
  unfold exponent
  rw [Nat.shiftRight_eq_div_pow]
  rfl

theorem fraction_eq (x : Binary64) : x.fraction = x.bits.toNat % 2 ^ 52 := rfl

theorem fraction_lt (x : Binary64) : x.fraction < 2 ^ 52 := Nat.mod_lt _ (Nat.two_pow_pos 52)

theorem toNat_bits_eq (x : Binary64) :
    x.bits.toNat = x.isNegative.toNat * 2 ^ 63 + (x.exponent * 2 ^ 52 + x.fraction) := by
  have hlt := x.bits.toNat_lt
  rw [exponent_eq, fraction_eq, isNegative]
  by_cases h : 2 ^ 63 ≤ x.bits.toNat
  . rw [decide_eq_true h, Bool.toNat_true]
    omega
  . rw [decide_eq_false h, Bool.toNat_false]
    omega

theorem eq_of_fields (hsign : x.isNegative = y.isNegative) (hexponent : x.exponent = y.exponent)
    (hfraction : x.fraction = y.fraction) : x = y := by
  rcases x with ⟨x⟩
  rcases y with ⟨y⟩
  rw [mk.injEq, ← UInt64.toNat_inj]
  calc
    _ = _ := toNat_bits_eq ⟨x⟩
    _ = _ := by rw [hsign, hexponent, hfraction]
    _ = _ := (toNat_bits_eq ⟨y⟩).symm

theorem units_lt (x : Binary64) : x.units < 2 ^ 52 * 2 ^ x.exponent := by
  have hfraction := x.fraction_lt
  unfold units
  split
  . next h =>
    rw [h]
    omega
  . next h =>
    rcases Nat.exists_eq_succ_of_ne_zero h with ⟨k, hk⟩
    have hpow : 2 ^ k.succ = 2 * 2 ^ k := Nat.pow_succ'
    rw [hk, Nat.succ_sub_one, hpow]
    calc
      _ < (2 ^ 52 + 2 ^ 52) * 2 ^ k := by
        apply Nat.mul_lt_mul_of_pos_right
        . omega
        . apply Nat.two_pow_pos
      _ = 2 ^ 52 * (2 * 2 ^ k) := by rw [← Nat.two_mul, Nat.mul_comm 2, Nat.mul_assoc]

theorem le_units (h : x.exponent ≠ 0) : 2 ^ 52 * 2 ^ (x.exponent - 1) ≤ x.units := by
  unfold units
  rw [if_neg h]
  apply Nat.mul_le_mul_right
  omega

/--
The magnitude grows with the bits.
-/
theorem units_lt_units
    (h : x.exponent * 2 ^ 52 + x.fraction < y.exponent * 2 ^ 52 + y.fraction) :
    x.units < y.units := by
  have hx := x.fraction_lt
  have hy := y.fraction_lt
  rcases Nat.lt_or_ge x.exponent y.exponent with hlt | hge
  . calc
      x.units < 2 ^ 52 * 2 ^ x.exponent := x.units_lt
      _ ≤ 2 ^ 52 * 2 ^ (y.exponent - 1) := by
        apply Nat.mul_le_mul_left
        apply Nat.pow_le_pow_right <;> omega
      _ ≤ y.units := le_units (by omega)
  . have hexponent : x.exponent = y.exponent := by omega
    have hfraction : x.fraction < y.fraction := by omega
    unfold units
    rw [hexponent]
    split
    . exact hfraction
    . apply Nat.mul_lt_mul_of_pos_right
      . omega
      . apply Nat.two_pow_pos

theorem eq_of_units (hsign : x.isNegative = y.isNegative) (h : x.units = y.units) : x = y := by
  have hx := x.fraction_lt
  have hy := y.fraction_lt
  rcases Nat.lt_trichotomy (x.exponent * 2 ^ 52 + x.fraction) (y.exponent * 2 ^ 52 + y.fraction)
    with hlt | heq | hgt
  . have := units_lt_units hlt
    omega
  . apply eq_of_fields hsign <;> omega
  . have := units_lt_units hgt
    omega

/--
A significand with its leading bit at `2 ^ 52`, or just carried to `2 ^ 53`, fills in both fields when
it is added to an exponent field that is one too small.
-/
theorem units_of_bits {sign e m : Nat} (h : x.bits.toNat = sign * 2 ^ 63 + (e * 2 ^ 52 + m))
    (hlo : 2 ^ 52 ≤ m) (hhi : m ≤ 2 ^ 53) (he : e ≤ 2044) :
    x.isNegative = (sign != 0) ∧ x.isFinite = true ∧ x.units = m * 2 ^ e
      ∧ x.fraction % 2 = m % 2 := by
  have hlt := x.bits.toNat_lt
  have hsign : x.isNegative = (sign != 0) := by
    rw [isNegative, h, Bool.eq_iff_iff, decide_eq_true_eq, bne_iff_ne]
    omega
  rcases Nat.lt_or_ge m (2 ^ 53) with hm | hm
  . have hexponent : x.exponent = e + 1 := by
      rw [exponent_eq, h]
      omega
    have hfraction : x.fraction = m - 2 ^ 52 := by
      rw [fraction_eq, h]
      omega
    refine ⟨hsign, ?_, ?_, ?_⟩
    . rw [isFinite, hexponent, bne_iff_ne]
      omega
    . rw [units, hexponent, hfraction, if_neg (Nat.succ_ne_zero e), Nat.add_sub_cancel' hlo]
      rfl
    . rw [hfraction]
      omega
  . have hexponent : x.exponent = e + 2 := by
      rw [exponent_eq, h]
      omega
    have hfraction : x.fraction = 0 := by
      rw [fraction_eq, h]
      omega
    refine ⟨hsign, ?_, ?_, ?_⟩
    . rw [isFinite, hexponent, bne_iff_ne]
      omega
    . have hcarry : m = 2 ^ 52 * 2 := by omega
      rw [units, hexponent, hfraction, if_neg (Nat.succ_ne_zero _), hcarry, Nat.mul_assoc]
      exact congrArg (2 ^ 52 * ·) (Nat.pow_succ' ..)
    . omega

end Fields

section Rounding

theorem roundDiv_cases (n d : Nat) :
    (roundDiv n d = n / d ∧ (2 * (n % d) < d ∨ 2 * (n % d) = d ∧ n / d % 2 = 0))
      ∨ (roundDiv n d = n / d + 1 ∧ (d < 2 * (n % d) ∨ 2 * (n % d) = d ∧ n / d % 2 = 1)) := by
  unfold roundDiv
  dsimp only
  split <;> omega

/--
No multiple of `d` is nearer to `n` than the rounded quotient makes it, and another one that is as near
leaves the quotient even.
-/
theorem roundDiv_least {d : Nat} (hd : 0 < d) (n k : Nat) :
    (roundDiv n d * d).dist n ≤ (k * d).dist n
      ∧ (k ≠ roundDiv n d → (roundDiv n d * d).dist n = (k * d).dist n → roundDiv n d % 2 = 0) := by
  have hn := Nat.div_add_mod' n d
  have hr := Nat.mod_lt n hd
  have hsucc : (n / d + 1) * d = n / d * d + d := Nat.succ_mul ..
  have hsucc' : (n / d + 2) * d = n / d * d + d + d := by rw [Nat.add_mul, Nat.two_mul, ← Nat.add_assoc]
  have hbelow : k < n / d → k * d + d ≤ n / d * d := by
    intro hlt
    rw [← Nat.succ_mul]
    exact Nat.mul_le_mul_right d hlt
  have habove : n / d + 2 ≤ k → n / d * d + d + d ≤ k * d := by
    intro hle
    rw [← hsucc']
    exact Nat.mul_le_mul_right d hle
  -- The number lies between the multiples for the quotient and its successor.
  have hcases : k < n / d ∨ k = n / d ∨ k = n / d + 1 ∨ n / d + 2 ≤ k := by omega
  unfold Nat.dist
  rcases roundDiv_cases n d with ⟨heq, hround⟩ | ⟨heq, hround⟩ <;> rw [heq]
  . rcases hcases with hk | rfl | rfl | hk
    . have := hbelow hk
      omega
    . omega
    . rw [hsucc]
      omega
    . have := habove hk
      omega
  . rw [hsucc]
    rcases hcases with hk | rfl | rfl | hk
    . have := hbelow hk
      omega
    . omega
    . rw [hsucc]
      omega
    . have := habove hk
      omega

/--
A number is a multiple of `2 ^ e` or too small to have all its 53 bits above that.
-/
theorem units_eq_mul_or_lt (x : Binary64) (e : Nat) :
    (∃ k, x.units = k * 2 ^ e) ∨ x.units < 2 ^ 52 * 2 ^ e := by
  rcases Nat.lt_or_ge e x.exponent with hlt | hge
  . left
    refine ⟨(2 ^ 52 + x.fraction) * 2 ^ (x.exponent - 1 - e), ?_⟩
    rw [units, if_neg (by omega), Nat.mul_assoc, ← Nat.pow_add]
    congr
    omega
  . right
    calc
      x.units < 2 ^ 52 * 2 ^ x.exponent := x.units_lt
      _ ≤ 2 ^ 52 * 2 ^ e := Nat.mul_le_mul_left _ (Nat.pow_le_pow_right (by omega) hge)

variable {x : Binary64} {n : Nat}

theorem isNearest_of_units_eq (hpositive : x.isNegative = false) (hfinite : x.isFinite = true)
    (h : x.units = n * unitsOfOne) : x.IsNearest n := by
  have hzero : x.units.dist (n * unitsOfOne) = 0 := by rw [h, Nat.dist_self]
  constructor
  case positive => exact hpositive
  case finite => exact hfinite
  case least =>
    intro y _
    rw [hzero]
    apply Nat.zero_le
  case even =>
    intro y _ hy hne hdist
    have heq : y.units = n * unitsOfOne := Nat.eq_of_dist_eq_zero (by rw [← hdist, hzero])
    exact absurd (eq_of_units (by rw [hy, hpositive]) (by rw [heq, h])) hne

/--
With a leading bit at or above `2 ^ 52` the numbers around `n` are the multiples of `d`, and to round
the quotient is to round to the nearest number.
-/
theorem isNearest_of_units_eq_roundDiv {d e : Nat} (hpositive : x.isNegative = false)
    (hfinite : x.isFinite = true) (hd : 0 < d) (hpow : 2 ^ e = d * unitsOfOne) (hn : 2 ^ 52 * d ≤ n)
    (hunits : x.units = roundDiv n d * 2 ^ e) (hfraction : x.fraction % 2 = roundDiv n d % 2) :
    x.IsNearest n := by
  have hmultiple (k : Nat) : (k * 2 ^ e).dist (n * unitsOfOne) = (k * d).dist n * unitsOfOne := by
    rw [hpow, ← Nat.mul_assoc, Nat.dist_mul_right]
  -- What lies below the multiples is farther off than the multiple with only the leading bit.
  have hbelow {y : Binary64} (hy : y.units < 2 ^ 52 * 2 ^ e) :
      x.units.dist (n * unitsOfOne) < y.units.dist (n * unitsOfOne) := by
    have hle : 2 ^ 52 * 2 ^ e ≤ n * unitsOfOne := by
      rw [hpow, ← Nat.mul_assoc]
      exact Nat.mul_le_mul_right _ hn
    calc
      _ = (roundDiv n d * d).dist n * unitsOfOne := by rw [hunits, hmultiple]
      _ ≤ (2 ^ 52 * d).dist n * unitsOfOne := Nat.mul_le_mul_right _ (roundDiv_least hd n _).1
      _ = n * unitsOfOne - 2 ^ 52 * 2 ^ e := by rw [← hmultiple, Nat.dist_eq_sub_of_le hle]
      _ < n * unitsOfOne - y.units := by
        apply Nat.sub_lt_sub_left
        . apply Nat.lt_of_lt_of_le hy hle
        . exact hy
      _ = y.units.dist (n * unitsOfOne) := by
        rw [Nat.dist_eq_sub_of_le]
        apply Nat.le_of_lt
        apply Nat.lt_of_lt_of_le hy hle
  constructor
  case positive => exact hpositive
  case finite => exact hfinite
  case least =>
    intro y _
    rcases y.units_eq_mul_or_lt e with ⟨k, hk⟩ | hlt
    . rw [hunits, hk, hmultiple, hmultiple]
      exact Nat.mul_le_mul_right _ (roundDiv_least hd n k).1
    . exact Nat.le_of_lt (hbelow hlt)
  case even =>
    intro y _ hy hne hdist
    rcases y.units_eq_mul_or_lt e with ⟨k, hk⟩ | hlt
    . rw [hunits, hk, hmultiple, hmultiple] at hdist
      rw [hfraction]
      apply (roundDiv_least hd n k).2
      . rintro rfl
        exact hne (eq_of_units (by rw [hy, hpositive]) (by rw [hk, hunits]))
      . exact Nat.eq_of_mul_eq_mul_right unitsOfOne_pos hdist
    . have := hbelow hlt
      omega

/--
A significand with its leading bit at `2 ^ 52` and an exponent field that is one too small, as `ofNat`
puts them together.
-/
theorem units_of_eq_ofNat {e m : Nat} (hx : x = ⟨UInt64.ofNat ((e + 1022) <<< 52 + m)⟩)
    (hlo : 2 ^ 52 ≤ m) (hhi : m ≤ 2 ^ 53) (he : e < 1023) :
    x.isNegative = false ∧ x.isFinite = true ∧ x.units = m * 2 ^ (e + 1022)
      ∧ x.fraction % 2 = m % 2 := by
  have hbits : x.bits.toNat = 0 * 2 ^ 63 + ((e + 1022) * 2 ^ 52 + m) := by
    rw [hx, UInt64.toNat_ofNat', Nat.shiftLeft_eq]
    omega
  exact units_of_bits hbits hlo hhi (by omega)

/--
A number of at most 53 bits, moved up to have the leading one at `2 ^ 52`.
-/
theorem significand_bounds (hpos : n ≠ 0) (h : n.log2 ≤ 52) :
    2 ^ 52 ≤ n * 2 ^ (52 - n.log2) ∧ n * 2 ^ (52 - n.log2) ≤ 2 ^ 53 := by
  have hscale : 2 ^ n.log2 * 2 ^ (52 - n.log2) = 2 ^ 52 := by
    rw [← Nat.pow_add, Nat.add_sub_cancel' h]
  constructor
  . calc
      _ = _ := hscale.symm
      _ ≤ _ := Nat.mul_le_mul_right _ (Nat.log2_self_le hpos)
  . calc
      _ ≤ 2 ^ (n.log2 + 1) * 2 ^ (52 - n.log2) :=
        Nat.mul_le_mul_right _ (Nat.le_of_lt Nat.lt_log2_self)
      _ = 2 * 2 ^ 52 := by rw [Nat.pow_succ', Nat.mul_assoc, hscale]

theorem isNearest_of_log2_le (hpos : n ≠ 0) (h : n.log2 ≤ 52)
    (hx : x = ⟨UInt64.ofNat ((n.log2 + 1022) <<< 52 + n * 2 ^ (52 - n.log2))⟩) : x.IsNearest n := by
  rcases significand_bounds hpos h with ⟨hlo, hhi⟩
  rcases units_of_eq_ofNat hx hlo hhi (by omega) with ⟨hsign, hfinite, hunits, _⟩
  apply isNearest_of_units_eq hsign hfinite
  rw [hunits, Nat.mul_assoc, ← Nat.pow_add, two_pow_eq_unitsOfOne (by omega)]

theorem isNearest_of_lt_log2 (hpos : n ≠ 0) (h : 52 < n.log2) (hbound : n.log2 < 1023)
    (hx : x = ⟨UInt64.ofNat ((n.log2 + 1022) <<< 52 + roundDiv n (2 ^ (n.log2 - 52)))⟩) :
    x.IsNearest n := by
  have hlo : 2 ^ n.log2 ≤ n := Nat.log2_self_le hpos
  generalize hlog : n.log2 = e at *
  have hscale : 2 ^ 52 * 2 ^ (e - 52) = 2 ^ e := by
    rw [← Nat.pow_add, Nat.add_sub_cancel' (Nat.le_of_lt h)]
  have hd : 0 < 2 ^ (e - 52) := Nat.two_pow_pos _
  have hquotient : 2 ^ 52 ≤ n / 2 ^ (e - 52) := by
    rw [Nat.le_div_iff_mul_le hd, hscale]
    exact hlo
  have hquotient' : n / 2 ^ (e - 52) < 2 * 2 ^ 52 := by
    rw [Nat.div_lt_iff_lt_mul hd, Nat.mul_assoc, hscale, ← hlog, ← Nat.pow_succ']
    exact Nat.lt_log2_self
  have hround := roundDiv_cases n (2 ^ (e - 52))
  rcases units_of_eq_ofNat hx (by omega) (by omega) hbound with ⟨hsign, hfinite, hunits, hfraction⟩
  apply isNearest_of_units_eq_roundDiv hsign hfinite hd _ _ hunits hfraction
  . rw [← two_pow_eq_unitsOfOne rfl, ← Nat.pow_add]
    congr 1
    omega
  . rw [hscale]
    exact hlo

/--
A natural number becomes the nearest number.
-/
theorem isNearest_ofNat (h : n.log2 < 1023) : (ofNat n).IsNearest n := by
  unfold ofNat
  split
  . next hzero =>
    rw [hzero]
    apply isNearest_of_units_eq rfl rfl
    rw [Nat.zero_mul]
    rfl
  . next hpos =>
    dsimp only
    split
    . next hsmall =>
      rw [Nat.shiftLeft_eq n]
      exact isNearest_of_log2_le hpos hsmall rfl
    . next hlarge =>
      rw [Nat.one_shiftLeft]
      exact isNearest_of_lt_log2 hpos (by omega) h rfl

/--
Between two numbers whose fractions are both even, or both odd, there is a third one.
-/
theorem exists_units_between {y : Binary64} (hx : x.isNegative = false) (hy : y.isNegative = false)
    (hfinite : y.isFinite = true) (hparity : x.fraction % 2 = y.fraction % 2)
    (h : x.units < y.units) :
    ∃ z : Binary64, z.isFinite = true ∧ x.units < z.units ∧ z.units < y.units := by
  have hxbits := x.toNat_bits_eq
  have hybits := y.toNat_bits_eq
  have hxfraction := x.fraction_lt
  have hyfraction := y.fraction_lt
  have hylt := y.bits.toNat_lt
  rw [hx, Bool.toNat_false] at hxbits
  rw [hy, Bool.toNat_false] at hybits
  rw [isFinite, bne_iff_ne] at hfinite
  have hexponent : y.exponent < 2 ^ 11 := by
    rw [exponent_eq]
    apply Nat.mod_lt
    apply Nat.two_pow_pos
  have hlt : x.bits.toNat < y.bits.toNat := by
    rcases Nat.lt_trichotomy x.bits.toNat y.bits.toNat with hlt | heq | hgt
    . exact hlt
    . rw [UInt64.toNat_inj] at heq
      have : x = y := congrArg mk heq
      rw [this] at h
      omega
    . have := units_lt_units (x := y) (y := x) (by omega)
      omega
  -- The next bits make a number whose fraction has the other parity, so it is not yet `y`.
  have hz : (mk (UInt64.ofNat (x.bits.toNat + 1))).bits.toNat = x.bits.toNat + 1 := by
    rw [UInt64.toNat_ofNat']
    omega
  generalize mk (UInt64.ofNat (x.bits.toNat + 1)) = z at hz
  have hzexponent := z.exponent_eq
  have hzfraction := z.fraction_eq
  refine ⟨z, ?_, ?_, ?_⟩
  . rw [isFinite, bne_iff_ne]
    omega
  . apply units_lt_units
    omega
  . apply units_lt_units
    omega

theorem IsNearest.units_le {y : Binary64} (hx : x.IsNearest n) (hy : y.IsNearest n) :
    y.units ≤ x.units := by
  rcases Nat.lt_or_ge x.units y.units with h | hge
  . have hdist := Nat.le_antisymm (hx.least y hy.finite) (hy.least x hx.finite)
    have hne : x ≠ y := by
      rintro rfl
      omega
    have hxeven := hx.even y hy.finite hy.positive hne.symm hdist
    have hyeven := hy.even x hx.finite hx.positive hne hdist.symm
    rcases exists_units_between hx.positive hy.positive hy.finite (by omega) h with ⟨z, hz, hlo, hhi⟩
    have := hx.least z hz
    unfold Nat.dist at *
    omega
  . exact hge

/--
There is one nearest number.
-/
theorem IsNearest.eq {y : Binary64} (hx : x.IsNearest n) (hy : y.IsNearest n) : x = y := by
  apply eq_of_units
  . rw [hx.positive, hy.positive]
  . exact Nat.le_antisymm (hy.units_le hx) (hx.units_le hy)

end Rounding

section Widening

/--
The biased exponent of a binary32 number.
-/
def exponent32 (word : UInt32) : Nat := word.toNat / 2 ^ 23 % 2 ^ 8

def fraction32 (word : UInt32) : Nat := word.toNat % 2 ^ 23

/--
The magnitude of a finite binary32 number in units of `2 ^ (-149)`, its smallest positive number.
-/
def units32 (word : UInt32) : Nat :=
  if exponent32 word = 0 then
    fraction32 word
  else
    (2 ^ 23 + fraction32 word) * 2 ^ (exponent32 word - 1)

/--
The number `x` is equal to a binary32 number. An infinity stays one, and a NaN keeps its fraction in the
upper bits.
-/
structure Widens (x : Binary64) (word : UInt32) : Prop where
  sign : x.isNegative = decide (2 ^ 31 ≤ word.toNat)
  finite : exponent32 word ≠ 255 → x.isFinite = true ∧ x.units = units32 word * 2 ^ 925
  special : exponent32 word = 255 → x.exponent = 2047 ∧ x.fraction = fraction32 word * 2 ^ 29

variable {x y : Binary64} {word : UInt32}

theorem exponent32_lt (word : UInt32) : exponent32 word < 2 ^ 8 := Nat.mod_lt _ (Nat.two_pow_pos 8)

theorem fraction32_lt (word : UInt32) : fraction32 word < 2 ^ 23 :=
  Nat.mod_lt _ (Nat.two_pow_pos 23)

/--
There is one number equal to a binary32 number.
-/
theorem Widens.eq (hx : x.Widens word) (hy : y.Widens word) : x = y := by
  have hsign : x.isNegative = y.isNegative := by rw [hx.sign, hy.sign]
  by_cases h : exponent32 word = 255
  . rcases hx.special h with ⟨hxexponent, hxfraction⟩
    rcases hy.special h with ⟨hyexponent, hyfraction⟩
    apply eq_of_fields hsign
    . rw [hxexponent, hyexponent]
    . rw [hxfraction, hyfraction]
  . apply eq_of_units hsign
    rw [(hx.finite h).2, (hy.finite h).2]

/--
The sign bits are the same, whatever the rest is.
-/
theorem isNegative_of_bits {m : Nat} (hbits : x.bits.toNat = word.toNat / 2 ^ 31 * 2 ^ 63 + m)
    (hm : m < 2 ^ 63) : x.isNegative = decide (2 ^ 31 ≤ word.toNat) := by
  rw [isNegative, hbits, Bool.eq_iff_iff, decide_eq_true_eq, decide_eq_true_eq]
  omega

/--
A finite binary32 number has 24 bits, so its leading bit can be moved to `2 ^ 52` and none is lost.
-/
theorem widens_of_units {e m : Nat} (hexponent : exponent32 word ≠ 255)
    (hbits : x.bits.toNat = word.toNat / 2 ^ 31 * 2 ^ 63 + (e * 2 ^ 52 + m)) (hlo : 2 ^ 52 ≤ m)
    (hhi : m ≤ 2 ^ 53) (he : e ≤ 2044) (hunits : m * 2 ^ e = units32 word * 2 ^ 925) :
    x.Widens word := by
  rcases units_of_bits hbits hlo hhi he with ⟨_, hfinite, hxunits, _⟩
  constructor
  case sign => exact isNegative_of_bits hbits (by omega)
  case finite =>
    intro _
    exact ⟨hfinite, hxunits.trans hunits⟩
  case special =>
    intro h
    exact absurd h hexponent

theorem widens_of_normal (hzero : exponent32 word ≠ 0) (hspecial : exponent32 word ≠ 255)
    (hbits : x.bits.toNat = word.toNat / 2 ^ 31 * 2 ^ 63
      + ((exponent32 word + 895) * 2 ^ 52 + (2 ^ 52 + fraction32 word * 2 ^ 29))) :
    x.Widens word := by
  have hfraction := fraction32_lt word
  have hexponent := exponent32_lt word
  apply widens_of_units hspecial hbits
  . omega
  . omega
  . omega
  . have hleading : 2 ^ 52 + fraction32 word * 2 ^ 29 = (2 ^ 23 + fraction32 word) * 2 ^ 29 := by
      omega
    have hscale : 29 + (exponent32 word + 895) = exponent32 word - 1 + 925 := by omega
    rw [units32, if_neg hzero, hleading, Nat.mul_assoc, Nat.mul_assoc, ← Nat.pow_add, ← Nat.pow_add,
      hscale]

theorem widens_of_subnormal (hzero : exponent32 word = 0) (hne : fraction32 word ≠ 0)
    (hbits : x.bits.toNat = word.toNat / 2 ^ 31 * 2 ^ 63
      + (((fraction32 word).log2 + 873) * 2 ^ 52
        + fraction32 word * 2 ^ (52 - (fraction32 word).log2))) :
    x.Widens word := by
  have hfraction := fraction32_lt word
  have hlog : (fraction32 word).log2 < 23 := (Nat.log2_lt hne).mpr hfraction
  rcases significand_bounds hne (by omega) with ⟨hlo, hhi⟩
  apply widens_of_units (by omega) hbits hlo hhi
  . omega
  . have hshift : 52 - (fraction32 word).log2 + ((fraction32 word).log2 + 873) = 925 := by omega
    rw [units32, if_pos hzero, ← hshift, Nat.mul_assoc, ← Nat.pow_add]

theorem widens_of_zero (hexponent : exponent32 word = 0) (hfraction : fraction32 word = 0)
    (hbits : x.bits.toNat = word.toNat / 2 ^ 31 * 2 ^ 63 + 0) : x.Widens word := by
  have hword := word.toNat_lt
  have hxexponent : x.exponent = 0 := by
    rw [exponent_eq, hbits]
    omega
  have hxfraction : x.fraction = 0 := by
    rw [fraction_eq, hbits]
    omega
  constructor
  case sign => exact isNegative_of_bits hbits (by omega)
  case finite =>
    intro _
    constructor
    . rw [isFinite, hxexponent]
      rfl
    . rw [units, if_pos hxexponent, hxfraction, units32, if_pos hexponent, hfraction, Nat.zero_mul]
  case special =>
    intro h
    omega

theorem widens_of_special (hexponent : exponent32 word = 255)
    (hbits : x.bits.toNat = word.toNat / 2 ^ 31 * 2 ^ 63
      + (2047 * 2 ^ 52 + fraction32 word * 2 ^ 29)) : x.Widens word := by
  have hword := word.toNat_lt
  have hfraction := fraction32_lt word
  constructor
  case sign => exact isNegative_of_bits hbits (by omega)
  case finite =>
    intro h
    exact absurd hexponent h
  case special =>
    intro _
    rw [exponent_eq, fraction_eq, hbits]
    omega

/--
A binary32 number becomes the number equal to it.
-/
theorem widens_ofBinary32 (word : UInt32) : (ofBinary32 word).Widens word := by
  have hword := word.toNat_lt
  have hfraction := fraction32_lt word
  have hexponent := exponent32_lt word
  have hfraction' : word.toNat % (1 <<< 23) = fraction32 word := rfl
  have hexponent' : (word.toNat >>> 23) % (1 <<< 8) = exponent32 word := by
    rw [Nat.shiftRight_eq_div_pow]
    rfl
  have hbits (m : Nat) (hm : m < 2 ^ 63) :
      (mk (UInt64.ofNat ((word.toNat >>> 31) <<< 63 + m))).bits.toNat
        = word.toNat / 2 ^ 31 * 2 ^ 63 + m := by
    rw [UInt64.toNat_ofNat', Nat.shiftLeft_eq, Nat.shiftRight_eq_div_pow]
    omega
  unfold ofBinary32
  dsimp only
  rw [hfraction', hexponent']
  split
  . next hspecial =>
    apply widens_of_special hspecial
    rw [hbits _ (by omega), Nat.shiftLeft_eq, Nat.shiftLeft_eq]
  . next hfinite =>
    split
    . next hsubnormal =>
      split
      . next hzero => exact widens_of_zero hsubnormal hzero (hbits 0 (by omega))
      . next hpos =>
        have hlog : (fraction32 word).log2 < 23 := (Nat.log2_lt hpos).mpr hfraction
        have hbounds := significand_bounds hpos (by omega)
        apply widens_of_subnormal hsubnormal hpos
        rw [Nat.shiftLeft_eq (_ + 873), Nat.shiftLeft_eq (fraction32 word), hbits _ (by omega)]
    . next hnormal =>
      apply widens_of_normal hnormal hfinite
      rw [hbits _ (by omega), Nat.shiftLeft_eq, Nat.shiftLeft_eq]
      omega

end Widening

end Binary64

end ContentModel
