/-! What a run reports while it works. Events are data: a computation returns the events it gave
off, so a statement about a run can speak of them. -/
namespace Inspector.Log

inductive Level where
  | debug | info | warn | error
  deriving DecidableEq, Inhabited, Repr

namespace Level

def rank : Level → Nat
  | debug => 0
  | info => 1
  | warn => 2
  | error => 3

def name : Level → String
  | debug => "debug"
  | info => "info"
  | warn => "warn"
  | error => "error"

def ofName? (s : String) : Option Level := [debug, info, warn, error].find? (·.name == s)

end Level

inductive Value where
  | count (n : Nat)
  | text (s : String)
  deriving DecidableEq, Inhabited, Repr

structure Event where
  level : Level
  message : String
  fields : List (String × Value) := []
  deriving DecidableEq, Inhabited, Repr

def Event.filter (level : Level) (events : List Event) : List Event :=
  events.filter fun e => decide (level.rank ≤ e.level.rank)

/-- A computation that may fail, with the events it gave off up to its end. -/
structure Traced (ε α : Type) where
  result : Except ε α
  events : List Event := []

namespace Traced

variable {ε α β : Type}

def bind (x : Traced ε α) (f : α → Traced ε β) : Traced ε β :=
  match x.result with
  | .ok a => ⟨(f a).result, x.events ++ (f a).events⟩
  | .error e => ⟨.error e, x.events⟩

instance : Monad (Traced ε) where
  pure a := ⟨.ok a, []⟩
  bind := bind

instance : MonadExcept ε (Traced ε) where
  throw e := ⟨.error e, []⟩
  tryCatch x f :=
    match x.result with
    | .ok a => ⟨.ok a, x.events⟩
    | .error e => ⟨(f e).result, x.events ++ (f e).events⟩

def emit (e : Event) : Traced ε Unit := ⟨.ok (), [e]⟩

def emitAll (events : List Event) : Traced ε Unit := ⟨.ok (), events⟩

def ofExcept (r : Except ε α) : Traced ε α := ⟨r, []⟩

def mapError {δ : Type} (f : ε → δ) (x : Traced ε α) : Traced δ α :=
  ⟨x.result.mapError f, x.events⟩

theorem bind_ok {x : Traced ε α} {f : α → Traced ε β} {a : α} (h : x.result = .ok a) :
    x >>= f = ⟨(f a).result, x.events ++ (f a).events⟩ := by
  simp [Bind.bind, bind, h]

theorem bind_error {x : Traced ε α} {f : α → Traced ε β} {e : ε} (h : x.result = .error e) :
    x >>= f = ⟨.error e, x.events⟩ := by
  simp [Bind.bind, bind, h]

end Traced

end Inspector.Log
