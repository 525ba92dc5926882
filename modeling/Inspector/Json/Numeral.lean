import Inspector.Json.Draft

/-! Numbers in JSON texts. -/
namespace Inspector.Json

open Inspector.Decimal

/-- The parts of a number: all digits stand as values below ten. -/
structure Numeral where
  minus : Bool
  whole : List Nat
  fraction : List Nat := []
  /-- The sign and the digits of the exponent. -/
  power : Option (Bool × List Nat) := none
  deriving DecidableEq, Inhabited, Repr

namespace Numeral

def maxWord : Nat := Nat.pow 2 64 - 1

/-- Takes digits into `n` as long as the result fits a word of 64 bits, and returns the others. -/
def fill (n : Nat) : List Nat → Nat × List Nat
  | [] => (n, [])
  | d :: ds => if n * 10 + d ≤ maxWord then fill (n * 10 + d) ds else (n, d :: ds)

def maxTen : Nat := 308

def tenTo? (k : Nat) : Option Binary64 := Binary64.ofNat? (Nat.pow 10 k)

/-- `x · 10 ^ -k`, each step of more than 308 places rounded on its own. -/
def scaleDown (x : Binary64) (k : Nat) : Option Binary64 :=
  if _h : maxTen < k then
    if x.isZero then some x
    else ((tenTo? maxTen).bind x.div?).bind fun y => scaleDown y (k - maxTen)
  else (tenTo? k).bind x.div?
termination_by k
decreasing_by simp only [maxTen] at *; omega

def scaled (n : Nat) (e : Int) : Option Binary64 :=
  (Binary64.ofNat? n).bind fun x =>
    if e < 0 then scaleDown x (-e).toNat
    else if e ≤ maxTen then (tenTo? e.toNat).bind x.mul?
    else if x.isZero then some x
    else none

def maxPower : Nat := Nat.pow 2 31 - 1

def read (m : Numeral) : Except Fault Number :=
  let (whole, lost) := fill 0 m.whole
  if lost.isEmpty && m.fraction.isEmpty && m.power.isNone then
    if !m.minus then .ok (.natural whole)
    else if whole = 0 ∨ Nat.pow 2 63 < whole then
      match Binary64.ofNat? whole with
      | some x => .ok (.float true x)
      | none => .error .malformed
    else .ok (.negative whole)
  else
    let (n, rest) := fill whole m.fraction
    let shift : Int := lost.length - (m.fraction.length - rest.length : Int)
    let float (e : Int) : Except Fault Number :=
      match scaled n e with
      | some x => .ok (.float m.minus x)
      | none => .error .malformed
    match m.power with
    | none => float shift
    | some (minus, ds) =>
      let p := ds.foldl (fun a d => a * 10 + d) 0
      if maxPower < p then
        if n ≠ 0 ∧ !minus then .error .malformed else .ok (.float m.minus .zero)
      else float (if minus then shift - p else shift + p)

end Numeral

def digit? (c : Char) : Option Nat :=
  if '0' ≤ c ∧ c ≤ '9' then some (c.toNat - '0'.toNat) else none

def spanDigits : List Char → List Nat × List Char
  | [] => ([], [])
  | c :: cs =>
    match digit? c with
    | some d => (d :: (spanDigits cs).1, (spanDigits cs).2)
    | none => ([], c :: cs)

/-- A number that lacks a digit. One that is looked for may still be incomplete, one that is
passed over is malformed. -/
def lackingDigit (rest : List Char) : Draft × List Char :=
  (.number (.error (if rest.isEmpty then .truncated else .malformed)) (some .malformed), [])

def finish (m : Numeral) (rest : List Char) : Draft × List Char := (.number m.read none, rest)

def readPower (m : Numeral) (cs : List Char) : Draft × List Char :=
  let (minus, cs) : Bool × List Char :=
    match cs with
    | '+' :: r => (false, r)
    | '-' :: r => (true, r)
    | r => (false, r)
  match spanDigits cs with
  | ([], r) => lackingDigit r
  | (ds, r) => finish { m with power := some (minus, ds) } r

def readTail (m : Numeral) : List Char → Draft × List Char
  | 'e' :: r => readPower m r
  | 'E' :: r => readPower m r
  | r => finish m r

def readNumber (minus : Bool) (cs : List Char) : Draft × List Char :=
  match spanDigits cs with
  | ([], r) => lackingDigit r
  | (0 :: _ :: _, _) => (.number (.error .malformed) (some .malformed), [])
  | (ds, '.' :: r) =>
    match spanDigits r with
    | ([], r) => lackingDigit r
    | (fs, r) => readTail { minus, whole := ds, fraction := fs } r
  | (ds, r) => readTail { minus, whole := ds } r

end Inspector.Json
