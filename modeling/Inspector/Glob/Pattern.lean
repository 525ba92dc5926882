import Inspector.Glob.CharClass

/-! Glob patterns as lists of items, and the texts they accept. An item takes a piece off the
front of a text; a pattern accepts a text if its items can take it piece by piece. -/
namespace Inspector.Glob

inductive Item where
  | char (c : Char)
  /-- `?`, any one character but a slash. -/
  | one
  /-- `*`, any characters but slashes. -/
  | star
  /-- `**`, any characters but line feeds. -/
  | deep
  /-- `**` with the slash behind it: nothing, or characters up to a slash. -/
  | folders
  | cls (k : CharClass)
  deriving DecidableEq, Inhabited, Repr

abbrev Pattern := List Item

def wildcards : List Char := ['*', '?', '[']

def hasWildcard (cs : List Char) : Bool := cs.any (wildcards.contains ·)

def isPattern (s : String) : Bool := hasWildcard s.toList

namespace Pattern

/-- Reads a pattern. Inside a bracket, `body` holds its characters so far, the last one first. A
bracket that is never closed stands for itself. -/
def parse : (body : Option (List Char)) → List Char → Option Pattern
  | _, [] => some []
  | some body, c :: cs =>
    if c = ']' then do
      let k ← CharClass.ofBody? body.reverse
      let p ← parse none cs
      return .cls k :: p
    else parse (some (c :: body)) cs
  | none, '*' :: '*' :: '/' :: cs => (parse none cs).map (.folders :: ·)
  | none, '*' :: '*' :: cs => (parse none cs).map (.deep :: ·)
  | none, c :: cs =>
    if c = '*' then (parse none cs).map (.star :: ·)
    else if c = '?' then (parse none cs).map (.one :: ·)
    else if c = '[' ∧ ']' ∈ cs then parse (some []) cs
    else (parse none cs).map (.char c :: ·)

def parse? (cs : List Char) : Option Pattern := parse none cs

end Pattern

def restsWhile (ok : Char → Bool) : List Char → List (List Char)
  | [] => [[]]
  | c :: cs => (c :: cs) :: (if ok c then restsWhile ok cs else [])

def Item.rests (i : Item) (cs : List Char) : List (List Char) :=
  match i with
  | .char c =>
    match cs with
    | d :: ds => if d = c then [ds] else []
    | [] => []
  | .one =>
    match cs with
    | d :: ds => if d = '/' then [] else [ds]
    | [] => []
  | .star => restsWhile (· ≠ '/') cs
  | .deep => restsWhile (· ≠ '\n') cs
  | .folders =>
    cs :: (restsWhile (· ≠ '\n') cs).filterMap fun r =>
      match r with
      | '/' :: ds => some ds
      | _ => none
  | .cls k =>
    match cs with
    | d :: ds => if k.admits d then [ds] else []
    | [] => []

def Pattern.rests : Pattern → List (List Char) → List (List Char)
  | [], rs => rs
  | i :: p, rs => Pattern.rests p (rs.flatMap i.rests).eraseDups

def Pattern.accepts (p : Pattern) (cs : List Char) : Bool := (p.rests [cs]).contains []

end Inspector.Glob
