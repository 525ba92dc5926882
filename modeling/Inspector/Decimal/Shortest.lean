import Inspector.Decimal.Binary64

/-! The fewest decimal digits that read back as a given number. -/
namespace Inspector.Decimal

structure Scientific where
  digits : Nat
  exponent : Int
  deriving DecidableEq, Inhabited, Repr

namespace Scientific

def trim : Nat → Scientific → Scientific
  | 0, x => x
  | fuel + 1, x =>
    if x.digits ≠ 0 ∧ x.digits % 10 = 0 then trim fuel ⟨x.digits / 10, x.exponent + 1⟩ else x

end Scientific

/-- The reals that round to a number, as numerators over a common denominator. -/
structure Interval where
  low : Nat
  mid : Nat
  high : Nat
  den : Nat
  /-- Whether the two ends themselves round to the number. -/
  closed : Bool

namespace Interval

def ofBinary64 (x : Binary64) : Interval :=
  let s := Binary64.scale x.exponent
  let below := if x.mantissa = Nat.pow 2 52 ∧ Binary64.minExponent < x.exponent then 1 else 2
  { low := (4 * x.mantissa - below) * s.1
    mid := 4 * x.mantissa * s.1
    high := (4 * x.mantissa + 2) * s.1
    den := 4 * s.2
    closed := x.mantissa % 2 == 0 }

def contains (i : Interval) (n d : Nat) : Bool :=
  let a := n * i.den
  if i.closed then i.low * d ≤ a && a ≤ i.high * d else i.low * d < a && a < i.high * d

end Interval

def magnitude (n d : Nat) : Nat → Int → Int
  | 0, e => e
  | fuel + 1, e =>
    let up := Nat.pow 10 e.toNat
    let down := Nat.pow 10 (-e).toNat
    if d * up ≤ n * down then magnitude n d fuel (e + 1)
    else if n * down * 10 < d * up then magnitude n d fuel (e - 1)
    else e

/-- A decimal of the interval on the grid of `count` digits, the one nearer to the middle. -/
def onGrid? (i : Interval) (top : Int) (count : Nat) : Option Scientific :=
  let unit := top - count
  let up := Nat.pow 10 unit.toNat
  let down := Nat.pow 10 (-unit).toNat
  let n := i.mid * down
  let d := i.den * up
  let q := n / d
  let hit (k : Nat) : Bool := i.contains (k * up) down
  match hit q, hit (q + 1) with
  | false, false => none
  | true, false => some ⟨q, unit⟩
  | false, true => some ⟨q + 1, unit⟩
  | true, true => some ⟨Binary64.divEven n d, unit⟩

def shortest (x : Binary64) : Scientific :=
  if x.isZero then ⟨0, 0⟩
  else
    let i := Interval.ofBinary64 x
    let top := magnitude i.mid i.den 700 0
    let found := (List.range 17).findSome? fun k => onGrid? i top (k + 1)
    Scientific.trim 20 (found.getD ⟨0, 0⟩)

structure FloatFormat where
  /-- The most digits in front of the point. -/
  whole : Int
  /-- The most zeros between the point and the first digit. -/
  zeros : Int

namespace FloatFormat

def zerosText (n : Int) : String := String.ofList (List.replicate n.toNat '0')

def write (f : FloatFormat) (x : Scientific) : String :=
  let ds := Nat.toDigits 10 x.digits
  let point := ds.length + x.exponent
  if x.digits = 0 then "0.0"
  else if 0 ≤ x.exponent ∧ point ≤ f.whole then
    String.ofList ds ++ zerosText x.exponent ++ ".0"
  else if 0 < point ∧ point ≤ f.whole then
    String.ofList (ds.take point.toNat) ++ "." ++ String.ofList (ds.drop point.toNat)
  else if - f.zeros ≤ point ∧ point ≤ 0 then
    "0." ++ zerosText (-point) ++ String.ofList ds
  else
    let rest := ds.drop 1
    String.ofList (ds.take 1) ++ (if rest.isEmpty then "" else "." ++ String.ofList rest)
      ++ "e" ++ toString (point - 1)

end FloatFormat

end Inspector.Decimal
