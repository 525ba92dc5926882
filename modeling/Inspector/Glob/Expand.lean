import Inspector.Glob.Pattern
import Inspector.Log
import Inspector.Tree.Walk

/-! Inputs of a run: paths stand for themselves, patterns for the files they match. -/
namespace Inspector.Glob

open Inspector.Log (Event Traced)

inductive Error where
  | invalid (pattern : String)
  | noMatches (pattern : String)
  | walk (root : String) (fault : Tree.WalkFault)
  deriving DecidableEq, Inhabited, Repr

namespace Error

def cause? : Error → Option String
  | invalid _ => some "the pattern has an unusable character class"
  | noMatches _ => none
  | walk _ fault => some fault.message

def message : Error → String
  | invalid pattern =>
    "invalid glob pattern '" ++ pattern ++ "': the pattern has an unusable character class"
  | noMatches pattern => "pattern '" ++ pattern ++ "' did not match any files"
  | walk root fault => "failed to walk '" ++ root ++ "': " ++ fault.message

end Error

def slashed (c : Char) : Char := if c = '\\' then '/' else c

def normalize (cs : List Char) : List Char := cs.map slashed

/-- A pattern cut in front of the first part with a wildcard. -/
structure Split where
  base : String
  rest : List Char
  deriving DecidableEq, Inhabited, Repr

def Split.of (cs : List Char) : Split :=
  let parts := Path.segments cs
  let base := Path.unsegments (parts.takeWhile (!hasWildcard ·))
  { base := if base.isEmpty ∧ cs.head? = some '/' then "/" else String.ofList base
    rest := Path.unsegments (parts.dropWhile (!hasWildcard ·)) }

def Split.root (s : Split) : String := if s.base.isEmpty then "." else s.base

def hasDeep : List Char → Bool
  | '*' :: '*' :: _ => true
  | _ :: cs => hasDeep cs
  | [] => false

def Split.depth (s : Split) : Option Nat :=
  if hasDeep s.rest then none else some (Path.segments s.rest).length

def relative (names : List String) : List Char :=
  normalize (Path.unsegments (names.map String.toList))

def Split.matches (s : Split) (p : Pattern) (files : List (List String)) : List String :=
  let texts := (files.map relative).filter p.accepts
  Path.sorted (texts.map fun cs => Path.join s.base (String.ofList cs))

def expandPattern (t : Tree) (pattern : String) : Traced Error (List String) := do
  let s := Split.of (normalize pattern.toList)
  match Pattern.parse? s.rest with
  | none => throw (.invalid pattern)
  | some p =>
    match t.filesBelow s.root s.depth with
    | .error fault => throw (.walk s.root fault)
    | .ok files =>
      let paths := s.matches p files
      .emit { level := .debug, message := "expanded input pattern",
              fields := [("pattern", .text pattern), ("matched", .count paths.length)] }
      if paths.isEmpty then throw (.noMatches pattern)
      return paths

def expandInput (t : Tree) (input : String) : Traced Error (List String) :=
  if isPattern input then expandPattern t input else pure [input]

def expandEach (t : Tree) : List String → Traced Error (List String)
  | [] => pure []
  | input :: inputs => do
    let paths ← expandInput t input
    let others ← expandEach t inputs
    return paths ++ others

def expand (t : Tree) (inputs : List String) : Traced Error (List String) := do
  return Path.dedup (← expandEach t inputs)

end Inspector.Glob
