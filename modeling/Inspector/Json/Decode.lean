import Inspector.Json.Read
import Inspector.Text.Quoted

/-! Finding values of a given shape in a draft. The first thing that is wrong, in the order of
the text, is the error. -/
namespace Inspector.Json

inductive Found where
  | null
  | bool (b : Bool)
  | number (n : Number)
  | text (s : String)
  | list
  | object
  deriving DecidableEq, Inhabited, Repr

inductive Mismatch where
  | kind (found : Found) (expected : String)
  | range (n : Int) (expected : String)
  | missing (key : String)
  | repeated (key : String)
  | variant (given : String) (expected : List String)
  | count (n : Nat) (expected : String)
  deriving DecidableEq, Inhabited, Repr

inductive Error where
  | fault (f : Fault)
  | mismatch (m : Mismatch)
  deriving DecidableEq, Inhabited, Repr

/-- Sixteen digits in front of the point and four zeros behind it are written out. -/
def floatFormat : Decimal.FloatFormat := ⟨16, 4⟩

def Number.describe : Number → String
  | .natural n => "integer `" ++ toString n ++ "`"
  | .negative n => "integer `-" ++ toString n ++ "`"
  | .float minus x =>
    "floating point `" ++ (if minus then "-" else "") ++ floatFormat.write (Decimal.shortest x)
      ++ "`"

def Found.describe : Found → String
  | .null => "null"
  | .bool true => "boolean `true`"
  | .bool false => "boolean `false`"
  | .number n => n.describe
  | .text s => "string " ++ Text.quoted s
  | .list => "sequence"
  | .object => "map"

def ticked (s : String) : String := "`" ++ s ++ "`"

def Mismatch.message : Mismatch → String
  | .kind found expected => "invalid type: " ++ found.describe ++ ", expected " ++ expected
  | .range n expected => "invalid value: integer `" ++ toString n ++ "`, expected " ++ expected
  | .missing key => "missing field " ++ ticked key
  | .repeated key => "duplicate field " ++ ticked key
  | .variant given expected =>
    "unknown variant " ++ ticked given ++ ", expected one of "
      ++ ", ".intercalate (expected.map ticked)
  | .count n expected => "invalid length " ++ toString n ++ ", expected " ++ expected

def Error.message : Error → String
  | .fault .truncated => "unexpected end of text"
  | .fault .malformed => "malformed text"
  | .mismatch m => m.message

abbrev Decoder (α : Type) := Draft → Except Error α

def ofFault {α : Type} : Except Fault α → Except Error α := Except.mapError .fault

def unexpected {α : Type} (expected : String) : Decoder α
  | .absent => .error (.fault .truncated)
  | .broken f => .error (.fault f)
  | .null => .error (.mismatch (.kind .null expected))
  | .bool b => .error (.mismatch (.kind (.bool b) expected))
  | .number (.error f) _ => .error (.fault f)
  | .number (.ok n) _ => .error (.mismatch (.kind (.number n) expected))
  | .text (.error f) _ => .error (.fault f)
  | .text (.ok s) _ => .error (.mismatch (.kind (.text (String.ofList s)) expected))
  | .list _ => .error (.mismatch (.kind .list expected))
  | .object _ => .error (.mismatch (.kind .object expected))

def textAs (expected : String) : Decoder String
  | .text read _ => ofFault (read.map String.ofList)
  | d => unexpected expected d

def text : Decoder String := textAs "a string"

def bool : Decoder Bool
  | .bool b => .ok b
  | d => unexpected "a boolean" d

def word : Decoder UInt32
  | .number (.ok (.natural n)) _ =>
    if n < UInt32.size then .ok (UInt32.ofNat n) else .error (.mismatch (.range n "u32"))
  | .number (.ok (.negative n)) _ => .error (.mismatch (.range (-n) "u32"))
  | d => unexpected "u32" d

def null : Decoder Unit
  | .null => .ok ()
  | d => unexpected "unit" d

def optional {α : Type} (d : Decoder α) : Decoder (Option α)
  | .null => .ok none
  | v => (d v).map some

def items {α : Type} (d : Decoder α) : Items → Except Error (List α)
  | .close => .ok []
  | .broken f => .error (.fault f)
  | .item v rest => do
    let a ← d v
    let as ← items d rest
    return a :: as

def list {α : Type} (d : Decoder α) : Decoder (List α)
  | .list is => items d is
  | v => unexpected "a sequence" v

/-- One of some names, alone or as the only key of an object that holds `null`. -/
def variant {α : Type} (names : List String) (ofName? : String → Option α) : Decoder α
  | .object ms =>
    match ms with
    | .close => .error (.fault .malformed)
    | .broken f => .error (.fault f)
    | .noKey found => unexpected "variant identifier" found
    | .member key _ v rest => do
      let a ← pick (← ofFault (key.map String.ofList))
      null v
      match rest with
      | .close => return a
      | .broken f => throw (.fault f)
      | .noKey _ => throw (.fault .malformed)
      | .member .. => throw (.fault .malformed)
  | .text read _ => do pick (← ofFault (read.map String.ofList))
  | .absent => .error (.fault .truncated)
  | _ => .error (.fault .malformed)
where
  pick (s : String) : Except Error α :=
    match ofName? s with
    | some a => .ok a
    | none => .error (.mismatch (.variant s names))

structure Slot (σ : Type) where
  key : String
  isSet : σ → Bool
  set : σ → Decoder σ

def Slot.of {σ α : Type} (key : String) (get : σ → Option α) (d : Decoder α)
    (put : σ → α → σ) : Slot σ where
  key := key
  isSet r := (get r).isSome
  set r v := (d v).map (put r)

/-- A record that is written as an object, or as a list of its first values. -/
structure Shape (σ α : Type) where
  label : String
  slots : List (Slot σ)
  /-- How many slots, counted from the first, have no default. -/
  required : Nat
  empty : σ
  build : σ → Except String α

namespace Shape

variable {σ α : Type}

def members (shape : Shape σ α) (r : σ) : Members → Except Error σ
  | .close => .ok r
  | .broken f => .error (.fault f)
  | .noKey .absent => .error (.fault .truncated)
  | .noKey _ => .error (.fault .malformed)
  | .member key _ v rest => do
    let k ← ofFault (key.map String.ofList)
    match shape.slots.find? (·.key == k) with
    | some slot =>
      if slot.isSet r then throw (.mismatch (.repeated k))
      else members shape (← slot.set r v) rest
    | none =>
      match v.skip with
      | some f => throw (.fault f)
      | none => members shape r rest

def fill (shape : Shape σ α) (r : σ) (done : Nat) : List (Slot σ) → Items → Except Error σ
  | _, .broken f => .error (.fault f)
  | [], .close => .ok r
  | [], .item .. => .error (.fault .malformed)
  | _ :: _, .close =>
    if done < shape.required then .error (.mismatch (.count done (expectation shape))) else .ok r
  | slot :: slots, .item v rest => do fill shape (← slot.set r v) (done + 1) slots rest
where
  expectation (shape : Shape σ α) : String :=
    shape.label ++ " with " ++ toString shape.slots.length
      ++ (if shape.slots.length = 1 then " element" else " elements")

def finish (shape : Shape σ α) (r : σ) : Except Error α :=
  (shape.build r).mapError fun key => .mismatch (.missing key)

def decode (shape : Shape σ α) : Decoder α
  | .object ms => do shape.finish (← shape.members shape.empty ms)
  | .list is => do shape.finish (← shape.fill shape.empty 0 shape.slots is)
  | v => unexpected shape.label v

end Shape

def decode {α : Type} (d : Decoder α) (s : String) : Except Error α := do
  let doc := Document.read s
  let a ← d doc.value
  match doc.trailing with
  | none => return a
  | some f => throw (.fault f)

end Inspector.Json
