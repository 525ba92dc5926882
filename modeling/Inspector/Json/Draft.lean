import Inspector.Decimal.Shortest

/-! What a text says when it is read as JSON from left to right, up to the place where it stops
being JSON. A reader that looks for a value of a given kind and one that passes over a value it
does not need are not equally strict, so a leaf keeps what each of them finds. -/
namespace Inspector.Json

inductive Fault where
  | truncated
  | malformed
  deriving DecidableEq, Inhabited, Repr

inductive Number where
  | natural (n : Nat)
  /-- The number `-n`. -/
  | negative (n : Nat)
  | float (minus : Bool) (x : Decimal.Binary64)
  deriving DecidableEq, Inhabited, Repr

mutual

inductive Draft where
  /-- The text ends where a value should begin. -/
  | absent
  | broken (f : Fault)
  | null
  | bool (b : Bool)
  | number (read : Except Fault Number) (skipped : Option Fault)
  | text (read : Except Fault (List Char)) (skipped : Option Fault)
  | list (items : Items)
  | object (members : Members)

/-- What follows an opening bracket, or an item. After a comma there is always an item. -/
inductive Items where
  | close
  | broken (f : Fault)
  | item (v : Draft) (rest : Items)

inductive Members where
  | close
  | broken (f : Fault)
  | noKey (found : Draft)
  | member (key : Except Fault (List Char)) (keySkipped : Option Fault) (value : Draft)
    (rest : Members)

end

mutual

/-- The first fault met by a reader that passes over the value. -/
def Draft.skip : Draft → Option Fault
  | .absent => some .truncated
  | .broken f => some f
  | .null => none
  | .bool _ => none
  | .number _ s => s
  | .text _ s => s
  | .list is => is.skip
  | .object ms => ms.skip

def Items.skip : Items → Option Fault
  | .close => none
  | .broken f => some f
  | .item v rest => v.skip.or rest.skip

def Members.skip : Members → Option Fault
  | .close => none
  | .broken f => some f
  | .noKey .absent => some .truncated
  | .noKey _ => some .malformed
  | .member _ s v rest => (s.or v.skip).or rest.skip

end

end Inspector.Json
