/-! Floating-point numbers with 53 bits of precision, kept as exact integers: every operation
rounds its true result once, to the nearest number and a half to the even one. -/
namespace Inspector.Decimal

/-- `mantissa · 2 ^ exponent`, with `mantissa < 2 ^ 53` and the least exponent that allows it. -/
structure Binary64 where
  mantissa : Nat
  exponent : Int
  deriving DecidableEq, Inhabited, Repr

namespace Binary64

def minExponent : Int := -1074
def maxExponent : Int := 971

def zero : Binary64 := ⟨0, minExponent⟩

def isZero (x : Binary64) : Bool := x.mantissa == 0

/-- `n / d` to the nearest integer, a half to the even one. -/
def divEven (n d : Nat) : Nat :=
  let q := n / d
  let r := 2 * (n % d)
  if r < d then q else if d < r then q + 1 else if q % 2 = 0 then q else q + 1

def scale (e : Int) : Nat × Nat := (Nat.pow 2 e.toNat, Nat.pow 2 (-e).toNat)

def ofRatio? (n d : Nat) : Option Binary64 :=
  if n = 0 then some zero
  else
    let high := Nat.log2 n
    let low := Nat.log2 d
    let top : Int :=
      if n * Nat.pow 2 low < d * Nat.pow 2 high then high - low else high - low + 1
    let e := max (top - 53) minExponent
    let m := divEven (n * (scale e).2) (d * (scale e).1)
    let x : Binary64 := if m = Nat.pow 2 53 then ⟨Nat.pow 2 52, e + 1⟩ else ⟨m, e⟩
    if maxExponent < x.exponent then none else some x

def ofNat? (n : Nat) : Option Binary64 := ofRatio? n 1

def ratio (x : Binary64) : Nat × Nat :=
  (x.mantissa * (scale x.exponent).1, (scale x.exponent).2)

def mul? (x y : Binary64) : Option Binary64 :=
  ofRatio? (x.ratio.1 * y.ratio.1) (x.ratio.2 * y.ratio.2)

def div? (x y : Binary64) : Option Binary64 :=
  ofRatio? (x.ratio.1 * y.ratio.2) (x.ratio.2 * y.ratio.1)

end Binary64

end Inspector.Decimal
