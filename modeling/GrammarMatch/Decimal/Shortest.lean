/-
  File:      GrammarMatch/Decimal/Shortest.lean
  Subject:   The shortest decimal that reads back as a given float.

  A finite float is `m * 2 ^ q`. All reals between the midpoints to its two
  neighbours round to it; the midpoints themselves do when `m` is even. For
  one digit, two digits, … the two decimals next to the value are tried: the
  first that lies in the interval wins, of two the nearer, of two equally
  near the one whose last digit is even. Everything is computed with whole
  numbers: a positive rational is a numerator and a denominator.
-/
namespace GrammarMatch.Decimal

/-- A decimal `digits * 10 ^ exponent`. -/
structure Scaled where
  digits : Nat
  exponent : Int
  deriving DecidableEq, Repr

/-- The exponent of the leading digit of `num / den`. -/
def leadingExponent (num den : Nat) : Int :=
  if den ≤ num then ((Nat.toDigits 10 (num / den)).length : Int) - 1
  else -((Nat.toDigits 10 ((den + num - 1) / num - 1)).length : Int)

/-- `num / den` in units of `10 ^ e`, as a rational. -/
def inUnits (num den : Nat) (e : Int) : Nat × Nat :=
  if 0 ≤ e then (num, den * Nat.pow 10 e.toNat) else (num * Nat.pow 10 (-e).toNat, den)

/-- The decimals of one grid next to the value, if they lie in the interval:
    the nearer first, at equal distance the even one first. `low`, `num` and
    `high` are the interval and the value, all over `den`. -/
def onGrid (low num high den : Nat) (closed : Bool) (e : Int) : Option Nat :=
  let (n, d) := inUnits num den e
  let below := n / d
  let above := below + 1
  let nearerBelow := 2 * (n - below * d) < d || (2 * (n - below * d) == d && below % 2 == 0)
  let candidates := if nearerBelow then [below, above] else [above, below]
  let (l, dl) := inUnits low den e
  let (h, dh) := inUnits high den e
  candidates.find? fun k =>
    if closed then l ≤ k * dl && k * dh ≤ h else l < k * dl && k * dh < h

/-- The first grid with a decimal in the interval, from `count` digits on;
    `fuel` more grids are tried. -/
def firstGrid (low num high den : Nat) (closed : Bool) (lead : Int) : Nat → Nat → Scaled
  | 0, count =>
    let e := lead - count + 1
    let (n, d) := inUnits num den e
    ⟨n / d, e⟩
  | fuel + 1, count =>
    let e := lead - count + 1
    match onGrid low num high den closed e with
    | some k => ⟨k, e⟩
    | none => firstGrid low num high den closed lead fuel (count + 1)

/-- The shortest decimal of `m * 2 ^ q`, for `m` positive. `narrow` says that
    the neighbour below is at half the distance of the one above. -/
def shortest (m : Nat) (q : Int) (narrow : Bool) : Scaled :=
  let scale := if 2 ≤ q then Nat.pow 2 (q - 2).toNat else 1
  let den := if 2 ≤ q then 1 else Nat.pow 2 (2 - q).toNat
  let num := 4 * m * scale
  let low := (4 * m - (if narrow then 1 else 2)) * scale
  let high := (4 * m + 2) * scale
  firstGrid low num high den (m % 2 == 0) (leadingExponent num den) 17 1

end GrammarMatch.Decimal
