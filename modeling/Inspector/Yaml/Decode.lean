import Inspector.Yaml.Document

/-! Reading values out of a document. What a scalar means depends on what is asked for: any scalar
is a text, and only some are numbers or truth values. -/
namespace Inspector.Yaml

/-- A computation over a document that counts down while it follows aliases. -/
abbrev Following (α : Type) := ReaderT (List (Nat × Node Nat)) (StateT Nat (Except Fault)) α

abbrev Decoder (α : Type) := Node Nat → Following α

def follow : Decoder (Node Nat)
  | .alias i => do
    let left ← get
    if left = 0 then throw .dangling
    set (left - 1)
    match (← read).find? (·.1 == i) with
    | some (_, x) => return x
    | none => throw .dangling
  | x => return x

namespace Scalar

def nullTag : String := "tag:yaml.org,2002:null"
def boolTag : String := "tag:yaml.org,2002:bool"
def intTag : String := "tag:yaml.org,2002:int"

def isNullWord (s : String) : Bool := ["~", "null", "Null", "NULL"].contains s

def isBlank (s : Scalar) : Bool := s.style == .plain && s.text.isEmpty

/-- Whether a scalar can be more than a text: it is plain, or a literal with the right tag. -/
def isBare (tag : String) (s : Scalar) : Bool :=
  s.style == .plain || (s.style == .literal && s.tag == some tag)

def bool? (s : Scalar) : Option Bool :=
  if !s.isBare boolTag then none
  else if ["true", "True", "TRUE"].contains s.text then some true
  else if ["false", "False", "FALSE"].contains s.text then some false
  else none

def digit? (base : Nat) (c : Char) : Option Nat := (hexDigit? c).filter (· < base)

def digits? (base : Nat) (cs : List Char) : Option Nat :=
  if cs.isEmpty then none
  else cs.foldlM (fun n c => (digit? base c).map (n * base + ·)) 0

/-- A number without a sign, but a plus may stand in front of it. A decimal number does not start
with a needless zero. -/
def natural? (cs : List Char) : Option Nat :=
  match if cs.head? = some '+' then cs.drop 1 else cs with
  | '0' :: 'x' :: cs => digits? 16 cs
  | '0' :: 'o' :: cs => digits? 8 cs
  | '0' :: 'b' :: cs => digits? 2 cs
  | '0' :: _ :: _ => none
  | cs => digits? 10 cs

def word? (s : Scalar) : Option UInt32 :=
  if !s.isBare intTag then none
  else
    match natural? s.text.toList with
    | some n => if n < UInt32.size then some (UInt32.ofNat n) else none
    | none => none

def isNull (s : Scalar) : Except Fault Bool :=
  if s.style != .plain then .ok false
  else
    match s.tag with
    | none => .ok (s.text.isEmpty || isNullWord s.text)
    | some tag =>
      if tag != nullTag then .ok false
      else if isNullWord s.text then .ok true
      else .error .shape

def ownTag? (s : Scalar) : Option String :=
  match s.tag.map String.toList with
  | some ['!'] => some "!"
  | some ('!' :: name) => some (String.ofList name)
  | _ => none

end Scalar

def scalar : Decoder Scalar := fun x => do
  match ← follow x with
  | .scalar _ s => return s
  | _ => throw .shape

def text : Decoder String := fun x => return (← scalar x).text

def bool : Decoder Bool := fun x => do
  match (← scalar x).bool? with
  | some b => return b
  | none => throw .shape

def word : Decoder UInt32 := fun x => do
  match (← scalar x).word? with
  | some n => return n
  | none => throw .shape

def optional {α : Type} (d : Decoder α) : Decoder (Option α) := fun x => do
  let x ← follow x
  match x with
  | .scalar _ s => if ← s.isNull then return none else return some (← d x)
  | _ => return some (← d x)

def list {α : Type} (d : Decoder α) : Decoder (List α) := fun x => do
  match ← follow x with
  | .list _ items => items.mapM d
  | .scalar _ s => if s.isBlank then return [] else throw .shape
  | _ => throw .shape

def variant {α : Type} (ofName? : String → Option α) : Decoder α := fun x => do
  let s ← scalar x
  let name ←
    match s.ownTag? with
    | none => pure s.text
    | some name =>
      if s.style == .plain && (s.text.isEmpty || Scalar.isNullWord s.text) then pure name
      else throw .shape
  match ofName? name with
  | some a => return a
  | none => throw .shape

structure Slot (σ : Type) where
  key : String
  isSet : σ → Bool
  set : σ → Decoder σ

def Slot.of {σ α : Type} (key : String) (get : σ → Option α) (d : Decoder α)
    (put : σ → α → σ) : Slot σ where
  key := key
  isSet r := (get r).isSome
  set r x := do return put r (← d x)

structure Shape (σ α : Type) where
  slots : List (Slot σ)
  closed : Bool := false
  empty : σ
  build : σ → Except String α

namespace Shape

variable {σ α : Type}

def entry (shape : Shape σ α) (r : σ) (e : Node Nat × Node Nat) : Following σ := do
  let key ← text e.1
  match shape.slots.find? (·.key == key) with
  | some slot => if slot.isSet r then throw .shape else slot.set r e.2
  | none => if shape.closed then throw .shape else return r

def decode (shape : Shape σ α) : Decoder α := fun x => do
  let r ←
    match ← follow x with
    | .map _ entries => entries.foldlM shape.entry shape.empty
    | .scalar _ s => if s.isBlank then pure shape.empty else throw .shape
    | _ => throw .shape
  match shape.build r with
  | .ok a => return a
  | .error _ => throw .shape

end Shape

def decode {α : Type} (d : Decoder α) (s : String) : Except Fault α := do
  let doc ← Document.parse s
  let (a, _) ← (d doc.root).run doc.targets |>.run doc.budget
  return a

end Inspector.Yaml
