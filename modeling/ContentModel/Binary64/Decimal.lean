import ContentModel.Binary64

/-!
This module contains the decimal text of a binary64 number: the fewest digits that read back as the
same number, written out or with an exponent of ten.
-/

namespace ContentModel

namespace Binary64

/--
The integer significand `m` and the exponent `q` of a finite number of magnitude `m * 2 ^ q`.
-/
def significand (x : Binary64) : Nat × Int :=
  if x.exponent = 0 then (x.fraction, -1074) else (1 <<< 52 + x.fraction, (x.exponent : Int) - 1075)

/--
Which of two decimals is taken when a number lies halfway between them.
-/
inductive Tie where
  | up
  | toEven
deriving DecidableEq, Repr

/--
The integer `d` for which `d * 10 ^ p` lies closest to `m * 2 ^ q` among those that round to it;
none when no positive one does. All is scaled to integers: the reals that round to `m * 2 ^ q` run
from `low` to `high`, ends included when `m` is even.
-/
def decimalOn (tie : Tie) (m : Nat) (q p : Int) : Option Nat :=
  let unit := Nat.pow 10 (-p).toNat <<< (q - 2).toNat
  let grid := Nat.pow 10 p.toNat <<< (2 - q).toNat
  let value := 4 * m * unit
  let low := (if m = 1 <<< 52 ∧ -1074 < q then 4 * m - 1 else 4 * m - 2) * unit
  let high := (4 * m + 2) * unit
  let inside (d : Nat) : Bool :=
    if m % 2 = 0 then low ≤ d * grid && d * grid ≤ high else low < d * grid && d * grid < high
  let d := value / grid
  match d != 0 && inside d, inside (d + 1) with
  | true, true =>
    let downward := 2 * (value % grid) < grid
      ∨ (2 * (value % grid) = grid ∧ tie = .toEven ∧ d % 2 = 0)
    some (if downward then d else d + 1)
  | true, false => some d
  | false, true => some (d + 1)
  | false, false => none

/--
The shortest decimal `d * 10 ^ p` that rounds to `m * 2 ^ q`: the first hit on ever finer grids.
-/
def shortest (tie : Tie) (m : Nat) (q : Int) : Nat × Int :=
  go 24 (((m.log2 : Int) + q) * 30103 / 100000 + 1)
where
  go : Nat → Int → Nat × Int
    | 0, p => (0, p)
    | fuel + 1, p =>
      match decimalOn tie m q p with
      | some d => (d, p)
      | none => go fuel (p - 1)

/--
The decimal `d * 10 ^ p` written out with a point. An integer keeps one zero behind the point.
-/
def plain (d : Nat) (p : Int) : String :=
  let digits := toString d
  let zeros (n : Nat) : String := String.ofList (List.replicate n '0')
  let places := (-p).toNat
  if 0 ≤ p then
    digits ++ zeros p.toNat ++ ".0"
  else if places < digits.length then
    (digits.take (digits.length - places)).copy ++ "."
      ++ (digits.drop (digits.length - places)).copy
  else
    "0." ++ zeros (places - digits.length) ++ digits

/--
The decimal `d * 10 ^ p` with its point behind the first digit and an exponent of ten, which always
has a sign.
-/
def scientific (d : Nat) (p : Int) : String :=
  let digits := toString d
  let point := if digits.length = 1 then "" else "."
  let exponent := p + digits.length - 1
  let sign := if exponent < 0 then "" else "+"
  (digits.take 1).copy ++ point ++ (digits.drop 1).copy ++ s!"e{sign}{exponent}"

/--
The text of a number, given how the shortest decimal of its magnitude is found and written.
-/
def text (tie : Tie) (decimal : Nat → Int → String) (x : Binary64) : String :=
  if x.isNaN then
    "NaN"
  else
    let sign := if x.bits.toNat < 1 <<< 63 then "" else "-"
    let magnitude :=
      if x.exponent = 2047 then
        "inf"
      else if x.isZero then
        "0.0"
      else
        let (d, p) := shortest tie x.significand.1 x.significand.2
        decimal d p
    sign ++ magnitude

/--
The decimal text of a number, written out however long it is, a tie going up.
-/
def positional : Binary64 → String := text .up plain

/--
The decimal text of a number, written out when the point stands less than five places before and at
most 16 places behind the first digit. A tie goes to the even digit.
-/
def concise : Binary64 → String :=
  text .toEven fun d p =>
    let point := p + (toString d).length
    if -5 < point ∧ point ≤ 16 then plain d p else scientific d p

example : positional ⟨0x4271d7f415392480⟩ = "1226200667026.2813" := by decide +kernel

example : concise ⟨0x4271d7f415392480⟩ = "1226200667026.2812" := by decide +kernel

example : concise ⟨0x444b1ae4d6e2ef50⟩ = "1e+21" := by decide +kernel

end Binary64

end ContentModel
