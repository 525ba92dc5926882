import Inspector.Yaml.Node

/-! A document: its node and what the aliases in it stand for. An anchor gets as its number how many
different names stood in front of it, so an anchor behind a repeated name can take over the number
of the repetition. Of two anchors with one number the later one counts. -/
namespace Inspector.Yaml

namespace Node

abbrev Numbers := List (String × Nat)

def Numbers.insert (names : Numbers) (name : String) : Numbers :=
  (name, names.length) :: names.filter (·.1 != name)

def numberAnchor (names : Numbers) : Option String → Option Nat × Numbers
  | none => (none, names)
  | some name => (some names.length, names.insert name)

mutual

/-- Replaces names by numbers, from the front of the text to its end. An alias has to follow the
start of the node that it names. -/
def number (names : Numbers) : Node String → Except Fault (Node Nat × Numbers)
  | .alias name =>
    match names.find? (·.1 == name) with
    | some (_, i) => .ok (.alias i, names)
    | none => .error .dangling
  | .scalar anchor s =>
    let (i, names) := numberAnchor names anchor
    .ok (.scalar i s, names)
  | .list anchor items => do
    let (i, names) := numberAnchor names anchor
    let (items, names) ← numberItems names items
    return (.list i items, names)
  | .map anchor entries => do
    let (i, names) := numberAnchor names anchor
    let (entries, names) ← numberEntries names entries
    return (.map i entries, names)

def numberItems (names : Numbers) : List (Node String) → Except Fault (List (Node Nat) × Numbers)
  | [] => .ok ([], names)
  | x :: xs => do
    let (x, names) ← number names x
    let (xs, names) ← numberItems names xs
    return (x :: xs, names)

def numberEntries (names : Numbers) :
    List (Node String × Node String) → Except Fault (List (Node Nat × Node Nat) × Numbers)
  | [] => .ok ([], names)
  | (k, v) :: rest => do
    let (k, names) ← number names k
    let (v, names) ← number names v
    let (rest, names) ← numberEntries names rest
    return ((k, v) :: rest, names)

end

def anchored {ι : Type} (x : Node ι) : Option ι → List (ι × Node ι)
  | none => []
  | some i => [(i, x)]

mutual

def targets {ι : Type} : Node ι → List (ι × Node ι)
  | .alias _ => []
  | .scalar anchor s => anchored (.scalar anchor s) anchor
  | .list anchor items => anchored (.list anchor items) anchor ++ itemTargets items
  | .map anchor entries => anchored (.map anchor entries) anchor ++ entryTargets entries

def itemTargets {ι : Type} : List (Node ι) → List (ι × Node ι)
  | [] => []
  | x :: xs => targets x ++ itemTargets xs

def entryTargets {ι : Type} : List (Node ι × Node ι) → List (ι × Node ι)
  | [] => []
  | (k, v) :: rest => targets k ++ targets v ++ entryTargets rest

end

mutual

/-- How long a document is: a scalar or an alias counts once, a collection twice besides what it
holds. -/
def weight {ι : Type} : Node ι → Nat
  | .alias _ => 1
  | .scalar .. => 1
  | .list _ items => 2 + itemsWeight items
  | .map _ entries => 2 + entriesWeight entries

def itemsWeight {ι : Type} : List (Node ι) → Nat
  | [] => 0
  | x :: xs => weight x + itemsWeight xs

def entriesWeight {ι : Type} : List (Node ι × Node ι) → Nat
  | [] => 0
  | (k, v) :: rest => weight k + weight v + entriesWeight rest

end

end Node

structure Document where
  root : Node Nat
  /-- The last node with an anchor comes first. -/
  targets : List (Nat × Node Nat)
  budget : Nat

namespace Document

def ofNode (root : Node Nat) : Document where
  root := root
  targets := root.targets.reverse
  budget := 100 * root.weight

def parse (s : String) : Except Fault Document := do
  let (root, _) ← Node.number [] (← Node.parse s)
  return ofNode root

end Document

end Inspector.Yaml
