import Inspector.Tree

/-! The regular files below a directory, with links followed. -/
namespace Inspector.Tree

inductive WalkFault where
  | link (e : OsError)
  | loop
  deriving DecidableEq, Inhabited, Repr

def WalkFault.message : WalkFault → String
  | link e => e.message
  | loop => "File system loop found"

def target (t : Tree) (root : String) (route : List String) : Except OsError Place :=
  match t.locateSteps root (steps root ++ route) with
  | .ok (.found q) => .ok q
  | .ok (.vacant _) => .error .notFound
  | .error e => .error e

def visitName (t : Tree) (root : String)
    (into : (route : List String) → Place → Except WalkFault (List (List String)))
    (above : List Place) (route : List String) (p : Place) (name : String) :
    Except WalkFault (List (List String)) :=
  match t.get? (p ++ [name]) with
  | some .folder => into (route ++ [name]) (p ++ [name])
  | some (.file _) => .ok [route ++ [name]]
  | some (.link _) =>
    match t.target root (route ++ [name]) with
    | .error e => .error (.link e)
    | .ok q =>
      if t.get? q = some .folder then
        if q ∈ above then .error .loop else into (route ++ [name]) q
      else .ok [route ++ [name]]
  | none => .ok []

/-- The files at most `depth` names below `p`, as routes from `root`. `above` are the directories
that the walk came through, `p` included. -/
def walk (t : Tree) (root : String) : (depth : Nat) → (above : List Place) →
    (route : List String) → Place → Except WalkFault (List (List String))
  | 0, _, _, _ => .ok []
  | depth + 1, above, route, p => do
    let into route q := t.walk root depth (q :: above) route q
    let found ← (t.names p).mapM (t.visitName root into above route p)
    return found.flatten

/-- No walk is deeper: between two links it goes down a chain of directories, and no link leads
to a directory that is still open. -/
def maxDepth (t : Tree) : Nat := (t.entries.length + 2) * (t.entries.length + 2)

def filesBelow (t : Tree) (root : String) (depth : Option Nat) :
    Except WalkFault (List (List String)) :=
  match t.locate root with
  | .ok (.found p) =>
    if t.get? p = some .folder then t.walk root (depth.getD t.maxDepth) [p] [] p else .ok []
  | _ => .ok []

end Inspector.Tree
