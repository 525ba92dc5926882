import Inspector.Log
import Inspector.Table

/-! The order in which structs are generated. A walk goes from every marked struct to the structs
it needs and finishes those first. A struct that is needed while its own walk is still going on
closes a cycle; such an edge is noted and not followed. -/
namespace Inspector

open Inspector.Log (Event)

/-- An edge to a struct that was in progress. -/
structure BackEdge where
  source : String
  target : String
  deriving DecidableEq, Inhabited, Repr

def BackEdge.event (b : BackEdge) : Event where
  level := .debug
  message := "dependency cycle short-circuited"
  fields := [("from", .text b.source), ("to", .text b.target)]

structure Emission where
  fragments : List (String × String) := []
  backEdges : List BackEdge := []
  deriving DecidableEq, Inhabited, Repr

abbrev Generator := Struct → Table → String

namespace Emission

def order (e : Emission) : List String := e.fragments.map Prod.fst

def isDone (e : Emission) (name : String) : Bool := e.order.contains name

def finish (e : Emission) (name text : String) : Emission :=
  { e with fragments := e.fragments ++ [(name, text)] }

def cut (e : Emission) (source target : String) : Emission :=
  { e with backEdges := e.backEdges ++ [⟨source, target⟩] }

/-- Visits a struct. `chain` holds the structs in progress, the one that led here first. The first
argument bounds how deep walks are nested; one more than the table has structs is enough. -/
def visit (g : Generator) (t : Table) : Nat → List String → Struct → Emission → Emission
  | 0, _, _, e => e
  | depth + 1, chain, s, e =>
    if e.isDone s.name then e
    else if chain.contains s.name then e.cut (chain.headD s.name) s.name
    else
      let below := (t.dependencies s).filterMap t.get?
      (below.foldl (fun e d => visit g t depth (s.name :: chain) d e) e).finish s.name (g s t)

theorem visit_done (g : Generator) (t : Table) (depth : Nat) (chain : List String) (s : Struct)
    {e : Emission} (h : e.isDone s.name = true) : visit g t depth chain s e = e := by
  cases depth with
  | zero => rfl
  | succ depth => simp [visit, h]

theorem visit_inProgress (g : Generator) (t : Table) (depth : Nat) {chain : List String}
    {s : Struct} {e : Emission} (h : e.isDone s.name = false) (hc : s.name ∈ chain) :
    visit g t (depth + 1) chain s e = e.cut (chain.headD s.name) s.name := by
  simp [visit, h, hc]

theorem visit_fresh (g : Generator) (t : Table) (depth : Nat) {chain : List String}
    {s : Struct} {e : Emission} (h : e.isDone s.name = false) (hc : s.name ∉ chain) :
    visit g t (depth + 1) chain s e =
      (((t.dependencies s).filterMap t.get?).foldl
        (fun e d => visit g t depth (s.name :: chain) d e) e).finish s.name (g s t) := by
  simp [visit, h, hc]

def run (g : Generator) (t : Table) : Emission :=
  t.marked.foldl (fun e s => visit g t (t.size + 1) [] s e) {}

def events (e : Emission) : List Event := e.backEdges.map BackEdge.event

end Emission

end Inspector
