import Inspector.Location

/-! What the extraction front end had to say about a source file. -/
namespace Inspector

/-- From the least to the most severe. -/
inductive Severity where
  | ignored | note | warning | error | fatal
  deriving DecidableEq, Inhabited, Repr

namespace Severity

def rank : Severity → Nat
  | ignored => 0
  | note => 1
  | warning => 2
  | error => 3
  | fatal => 4

instance : LE Severity := ⟨fun a b => a.rank ≤ b.rank⟩
instance : LT Severity := ⟨fun a b => a.rank < b.rank⟩
instance : Ord Severity := ⟨fun a b => compare a.rank b.rank⟩
instance (a b : Severity) : Decidable (a ≤ b) := inferInstanceAs (Decidable (a.rank ≤ b.rank))
instance (a b : Severity) : Decidable (a < b) := inferInstanceAs (Decidable (a.rank < b.rank))

theorem not_le {a b : Severity} : ¬ a ≤ b ↔ b < a := Nat.not_le

def name : Severity → String
  | ignored => "ignored"
  | note => "note"
  | warning => "warning"
  | error => "error"
  | fatal => "fatal"

def all : List Severity := [ignored, note, warning, error, fatal]

def ofName? (s : String) : Option Severity := all.find? (·.name == s)

theorem ofName?_name (a : Severity) : ofName? a.name = some a := by
  cases a <;> rfl

end Severity

structure Diagnostic where
  severity : Severity
  message : String
  location : Location := {}
  deriving DecidableEq, Inhabited, Repr

def Diagnostic.text (d : Diagnostic) : String :=
  d.location.text ++ ": " ++ d.severity.name ++ ": " ++ d.message

end Inspector
