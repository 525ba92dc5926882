/-! Paths as they are spelled, and the components that decide whether two spellings are equal and
which comes first. -/
namespace Inspector.Path

def segments : List Char → List (List Char)
  | [] => [[]]
  | c :: cs =>
    if c = '/' then [] :: segments cs
    else
      match segments cs with
      | [] => [[c]]
      | s :: ss => (c :: s) :: ss

theorem segments_ne_nil (cs : List Char) : segments cs ≠ [] := by
  cases cs with
  | nil => simp [segments]
  | cons c cs =>
    by_cases h : c = '/'
    · simp [segments, h]
    · cases hs : segments cs <;> simp [segments, h, hs]

def unsegments : List (List Char) → List Char
  | [] => []
  | [s] => s
  | s :: t :: ss => s ++ '/' :: unsegments (t :: ss)

theorem unsegments_segments (cs : List Char) : unsegments (segments cs) = cs := by
  induction cs with
  | nil => rfl
  | cons c cs ih =>
    cases hs : segments cs with
    | nil => exact absurd hs (segments_ne_nil cs)
    | cons s ss =>
      rw [hs] at ih
      by_cases h : c = '/'
      · simp [segments, h, hs, unsegments, ih]
      · cases ss with
        | nil => simp_all [segments, unsegments]
        | cons t ss => simp_all [segments, unsegments]

def isAbsolute (p : String) : Bool := p.toList.head? == some '/'

inductive Component where
  | root
  | current
  | parent
  | name (s : String)
  deriving DecidableEq, Inhabited, Repr

namespace Component

def rank : Component → Nat
  | root => 0
  | current => 1
  | parent => 2
  | name _ => 3

def text : Component → String
  | root => ""
  | current => "."
  | parent => ".."
  | name s => s

/-- Names come last and go by their characters. -/
def cmp (a b : Component) : Ordering := (compare a.rank b.rank).then (compare a.text b.text)

end Component

/-- Repeated slashes and dots do not count, except for a dot at the very start. -/
def components (p : String) : List Component :=
  let parts := segments p.toList
  let body := (parts.filter fun s => s ≠ [] ∧ s ≠ ['.']).map fun s =>
    if s = ['.', '.'] then Component.parent else .name (String.ofList s)
  if isAbsolute p then .root :: body
  else if parts.head? = some ['.'] then .current :: body
  else body

def cmp : List Component → List Component → Ordering
  | [], [] => .eq
  | [], _ :: _ => .lt
  | _ :: _, [] => .gt
  | a :: as, b :: bs => (a.cmp b).then (cmp as bs)

def same (p q : String) : Bool := components p == components q

def le (p q : String) : Bool := (cmp (components p) (components q)).isLE

def dedup : List String → List String
  | [] => []
  | p :: ps => p :: (dedup ps).filter fun q => !same p q

/-- In order and without repetition; of equal paths the first spelling stays. -/
def sorted (ps : List String) : List String := dedup (ps.mergeSort le)

def join (p q : String) : String :=
  if isAbsolute q then q
  else if p.isEmpty ∨ p.toList.getLast? = some '/' then p ++ q
  else p ++ "/" ++ q

/-- The part behind the last dot of the last name, if that dot is not its first character. -/
def extension? (p : String) : Option String :=
  match (components p).getLast? with
  | some (.name s) =>
    let cs := s.toList.reverse
    let ext := cs.takeWhile (· ≠ '.')
    match cs.dropWhile (· ≠ '.') with
    | _ :: _ :: _ => some (String.ofList ext.reverse)
    | _ => none
  | _ => none

def ofComponents : List Component → String
  | [] => ""
  | .root :: cs => "/" ++ "/".intercalate (cs.map Component.text)
  | cs => "/".intercalate (cs.map Component.text)

def ancestors (p : String) : List String :=
  let cs := components p
  let above := (List.range (cs.length - 1)).map fun k => ofComponents (cs.take (cs.length - 1 - k))
  if cs.isEmpty then [] else p :: above

end Inspector.Path
