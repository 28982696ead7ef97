import ScriptLexer.Double.Basic

/-!
# Shortest decimals

The text of a double with the fewest significant digits that still read back as that double.

The reals that round to a double form an interval around it, its ends included when the
significand is even.  On the decimal grid with `n` significant digits only the two neighbours of
the double can be the nearest point of the interval, so `shortest?` tries the grids in turn, from
one digit to seventeen, and takes the first neighbour that lies inside; of two inside the nearer
one, at equal distance the upper one.

Written out, a magnitude from `10 ^ -4` up to `10 ^ 16` is positional and keeps at least one
decimal; the others have an exponent.
-/

namespace ScriptLexer

/-- a positive decimal `digits * 10 ^ (point - count)`, where `count` is the number of digits: the
decimal point stands behind the first `point` of them -/
structure Decimal where
  digits : List Char
  point : Int
deriving DecidableEq, Repr

namespace Double

/-! ## the interval -/

/-- numerators, over one denominator, of the interval's ends and of the value between them -/
structure Interval where
  low : Nat
  value : Nat
  high : Nat
  den : Nat
  closed : Bool

/-- the reals that round to a finite double above zero; below a power of two they are half as
far apart -/
def interval (d : Double) : Interval :=
  let m := d.significand
  let e := max d.field 1
  let below := if d.fraction = 0 ∧ 1 < d.field then 1 else 2
  let unit := if bias + 2 ≤ e then Nat.pow 2 (e - (bias + 2)) else 1
  let den := if bias + 2 ≤ e then 1 else Nat.pow 2 (bias + 2 - e)
  ⟨(4 * m - below) * unit, 4 * m * unit, (4 * m + 2) * unit, den, m % 2 == 0⟩

/-- the ratio `n / den` lies in the interval, both sides multiplied by `k` -/
def Interval.has (i : Interval) (k n : Nat) : Bool :=
  if i.closed then i.low * k ≤ n && n ≤ i.high * k else i.low * k < n && n < i.high * k

/-! ## the grids -/

/-- the least `p` with `value < 10 ^ p`, for a positive value that a double can have -/
def leadingPower (num den : Nat) : Int :=
  if den ≤ num then (Nat.toDigits 10 (num / den)).length
  else match (List.range 400).find? (fun z => den ≤ num * Nat.pow 10 z) with
    | some z => 1 - z
    | none => 0

/-- the neighbour of the value on the grid of `count` digits that lies in the interval -/
def gridPoint? (i : Interval) (power : Int) (count : Nat) : Option Nat :=
  let up := Nat.pow 10 (count - power).toNat
  let unit := i.den * Nat.pow 10 (power - count).toNat
  let floor := i.value * up / unit
  let inside := fun n => i.has up (n * unit)
  match inside floor, inside (floor + 1) with
  | true, true => some (if 2 * (i.value * up % unit) < unit then floor else floor + 1)
  | true, false => some floor
  | false, true => some (floor + 1)
  | false, false => none

/-- the digits of `n` without the zeros at its end -/
def significantDigits (n : Nat) : List Char :=
  ((Nat.toDigits 10 n).reverse.dropWhile (· == '0')).reverse

/-- the shortest decimal in the interval of a finite double above zero -/
def shortest? (d : Double) : Option Decimal :=
  let i := d.interval
  let power := leadingPower i.value i.den
  (List.range' 1 17).findSome? fun count =>
    (gridPoint? i power count).map fun n =>
      ⟨significantDigits n, power + ((Nat.toDigits 10 n).length - count : Int)⟩

end Double

/-! ## the text -/

namespace Decimal

/-- digits, a point, and at least one digit on both sides of it -/
def positional (x : Decimal) : String :=
  let zeros := fun n => List.replicate n '0'
  let before := x.digits.take x.point.toNat ++ zeros (x.point.toNat - x.digits.length)
  let behind := zeros (-x.point).toNat ++ x.digits.drop x.point.toNat
  let orZero := fun ds => if ds = [] then ['0'] else ds
  String.ofList (orZero before ++ '.' :: orZero behind)

/-- one digit, a point if more digits follow, and the power of ten behind an `e` -/
def exponential (x : Decimal) : String :=
  let more := x.digits.drop 1
  String.ofList (x.digits.take 1 ++ (if more = [] then [] else '.' :: more))
    ++ s!"e{x.point - 1}"

/-- positional from `10 ^ -4` up to `10 ^ 16`, exponential outside -/
def text (x : Decimal) : String :=
  if -3 ≤ x.point ∧ x.point ≤ 16 then x.positional else x.exponential

end Decimal

/-- the shortest text that reads back as the double -/
def Double.shortest (d : Double) : String :=
  d.withSign fun x => if x.1 = 0 then "0.0" else (d.shortest?.map Decimal.text).getD ""

end ScriptLexer
