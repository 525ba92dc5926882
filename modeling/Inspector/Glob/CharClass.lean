/-! Bracket classes of glob patterns. -/
namespace Inspector.Glob

structure Range where
  first : Char
  last : Char
  deriving DecidableEq, Inhabited, Repr

namespace Range

def single (c : Char) : Range := ⟨c, c⟩

def contains (r : Range) (c : Char) : Bool := decide (r.first ≤ c) && decide (c ≤ r.last)

end Range

/-- The characters of `base` that are in none of the sets of `removed`, or all others. -/
structure CharClass where
  negated : Bool
  base : List Range
  removed : List (List Range) := []
  deriving DecidableEq, Inhabited, Repr

namespace CharClass

def inSet (rs : List Range) (c : Char) : Bool := rs.any (·.contains c)

def admits (k : CharClass) (c : Char) : Bool :=
  (inSet k.base c && !k.removed.any (inSet · c)) != k.negated

def pushRange (r : Range) : List (List Range) → List (List Range)
  | [] => [[r]]
  | rs :: sets => (r :: rs) :: sets

inductive Held where
  | nothing
  | char (x : Char)
  | charDash (x : Char)
  deriving DecidableEq, Inhabited, Repr

/-- The sets that a body lists: `x-y` is a range, which has to be in order, and `--` begins the
next set. A dash that does neither stands for itself. -/
def sets : Held → List Char → Option (List (List Range))
  | .nothing, [] => some [[]]
  | .char x, [] => some [[.single x]]
  | .charDash x, [] => some [[.single x, .single '-']]
  | .nothing, c :: cs => sets (.char c) cs
  | .char x, c :: cs =>
    if c ≠ '-' then (sets (.char c) cs).map (pushRange (.single x))
    else if x ≠ '-' then sets (.charDash x) cs
    else (sets .nothing cs).map ([] :: ·)
  | .charDash x, c :: cs =>
    if c = '-' then (sets .nothing cs).map ([.single x] :: ·)
    else if x ≤ c then (sets .nothing cs).map (pushRange ⟨x, c⟩)
    else none

def ofBody? (body : List Char) : Option CharClass :=
  let (negated, cs) : Bool × List Char :=
    match body with
    | '!' :: cs => (true, cs)
    | cs => (false, cs)
  if cs.isEmpty then none
  else
    let dashes := cs.takeWhile (· = '-')
    match sets .nothing (cs.dropWhile (· = '-')) with
    | some (base :: removed) =>
      some { negated, base := dashes.map Range.single ++ base, removed }
    | _ => none

end CharClass

end Inspector.Glob
