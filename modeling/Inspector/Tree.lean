import Inspector.Path

/-! A file system as a value: the entries of all directories by their place, and the directory
that relative paths start from. -/
namespace Inspector

inductive Content where
  | text (s : String)
  /-- Bytes that are no UTF-8. -/
  | bytes (b : List UInt8)
  deriving DecidableEq, Inhabited, Repr

namespace Content

def ofBytes (b : List UInt8) : Content :=
  match String.fromUTF8? (ByteArray.mk b.toArray) with
  | some s => .text s
  | none => .bytes b

end Content

abbrev Place := List String

inductive Entry where
  | folder
  | file (c : Content)
  | link (target : String)
  deriving DecidableEq, Inhabited, Repr

inductive OsError where
  | notFound
  | alreadyExists
  | notFolder
  | isFolder
  | tooManyLinks
  deriving DecidableEq, Inhabited, Repr

def OsError.message : OsError → String
  | notFound => "No such file or directory (os error 2)"
  | alreadyExists => "File exists (os error 17)"
  | notFolder => "Not a directory (os error 20)"
  | isFolder => "Is a directory (os error 21)"
  | tooManyLinks => "Too many levels of symbolic links (os error 40)"

inductive ReadError where
  | os (e : OsError)
  | notText
  deriving DecidableEq, Inhabited, Repr

def ReadError.message : ReadError → String
  | .os e => e.message
  | .notText => "stream did not contain valid UTF-8"

structure Tree where
  entries : List (Place × Entry) := []
  here : Place := []
  deriving Inhabited, Repr

namespace Tree

def get? (t : Tree) (p : Place) : Option Entry :=
  if p = [] then some .folder else t.entries.lookup p

def putEntry (p : Place) (e : Entry) : List (Place × Entry) → List (Place × Entry)
  | [] => [(p, e)]
  | (q, d) :: es => if q = p then (p, e) :: es else (q, d) :: putEntry p e es

def put (t : Tree) (p : Place) (e : Entry) : Tree := { t with entries := putEntry p e t.entries }

theorem lookup_putEntry (p q : Place) (e : Entry) (es : List (Place × Entry)) :
    (putEntry p e es).lookup q = if q = p then some e else es.lookup q := by
  induction es with
  | nil =>
    by_cases h : q = p
    · simp [putEntry, h]
    · simp [putEntry, List.lookup_cons, h, beq_eq_false_iff_ne.2 h]
  | cons x es ih =>
    obtain ⟨r, d⟩ := x
    by_cases hr : r = p
    · by_cases h : q = p
      · simp [putEntry, hr, h]
      · simp [putEntry, hr, List.lookup_cons, h, beq_eq_false_iff_ne.2 h]
    · by_cases h : q = r
      · simp [putEntry, hr, h]
      · simp [putEntry, hr, List.lookup_cons, ih, beq_eq_false_iff_ne.2 h]

theorem get?_put (t : Tree) (p q : Place) (e : Entry) (hp : p ≠ []) :
    (t.put p e).get? q = if q = p then some e else t.get? q := by
  by_cases hq : q = []
  · subst hq
    simp [get?, Ne.symm hp]
  · simp [get?, put, hq, lookup_putEntry]

def names (t : Tree) (p : Place) : List String :=
  t.entries.filterMap fun (q, _) => if q ≠ [] ∧ q.dropLast = p then q.getLast? else none

/-- The steps that a path takes. A final slash asks for a directory, as a final dot does. -/
def steps (p : String) : List String :=
  let parts := (Path.segments p.toList).filter (· ≠ [])
  parts.map String.ofList ++ (if p.toList.getLast? = some '/' then ["."] else [])

/-- Where a path leads: to an entry, or to a name that its directory does not have. -/
inductive Spot where
  | found (p : Place)
  | vacant (p : Place)
  deriving DecidableEq, Inhabited, Repr

def descend (t : Tree) (follow : Place → List String → Except OsError Spot) (p : Place) :
    List String → Except OsError Spot
  | [] => .ok (.found p)
  | s :: rest =>
    if t.get? p ≠ some .folder then .error .notFolder
    else if s = "." then descend t follow p rest
    else if s = ".." then descend t follow p.dropLast rest
    else
      match t.get? (p ++ [s]) with
      | none => if rest = [] then .ok (.vacant (p ++ [s])) else .error .notFound
      | some (.link target) =>
        follow (if Path.isAbsolute target then [] else p) (steps target ++ rest)
      | some _ => descend t follow (p ++ [s]) rest

def resolve (t : Tree) : Nat → Place → List String → Except OsError Spot
  | 0 => t.descend fun _ _ => .error .tooManyLinks
  | links + 1 => t.descend (t.resolve links)

def maxLinks : Nat := 40

def locateSteps (t : Tree) (p : String) (ss : List String) : Except OsError Spot :=
  t.resolve maxLinks (if Path.isAbsolute p then [] else t.here) ss

def locate (t : Tree) (p : String) : Except OsError Spot :=
  if p.isEmpty then .error .notFound else t.locateSteps p (steps p)

def isFolder (t : Tree) (p : String) : Bool :=
  match t.locate p with
  | .ok (.found q) => t.get? q == some .folder
  | _ => false

def read (t : Tree) (p : String) : Except ReadError String :=
  match t.locate p with
  | .error e => .error (.os e)
  | .ok (.vacant _) => .error (.os .notFound)
  | .ok (.found q) =>
    match t.get? q with
    | some (.file (.text s)) => .ok s
    | some (.file (.bytes _)) => .error .notText
    | some .folder => .error (.os .isFolder)
    | _ => .error (.os .notFound)

def write (t : Tree) (p : String) (s : String) : Except OsError Tree :=
  match t.locate p with
  | .error e => .error e
  | .ok (.vacant q) => .ok (t.put q (.file (.text s)))
  | .ok (.found q) =>
    if t.get? q = some .folder then .error .isFolder else .ok (t.put q (.file (.text s)))

def makeFolder (t : Tree) (p : String) : Except OsError Tree :=
  let ss := ((Path.segments p.toList).filter (· ≠ [])).map String.ofList
  if p.isEmpty then .error .notFound
  else
    match ss.getLast? with
    | none => .error .alreadyExists
    | some last =>
      match t.locateSteps p ss.dropLast with
      | .error e => .error e
      | .ok (.vacant _) => .error .notFound
      | .ok (.found q) =>
        if t.get? q ≠ some .folder then .error .notFolder
        else if last = "." ∨ last = ".." then .error .alreadyExists
        else
          match t.get? (q ++ [last]) with
          | some _ => .error .alreadyExists
          | none => .ok (t.put (q ++ [last]) .folder)

/-- Makes the first of the given directories, and before it those of the others that it needs.
Directories made before a failure stay. -/
def makeChain (t : Tree) : List String → Tree × Option OsError
  | [] => (t, none)
  | p :: above =>
    match t.makeFolder p with
    | .ok t => (t, none)
    | .error .notFound =>
      match makeChain t above with
      | (t, some e) => (t, some e)
      | (t, none) =>
        match t.makeFolder p with
        | .ok t => (t, none)
        | .error e => (t, if t.isFolder p then none else some e)
    | .error e => (t, if t.isFolder p then none else some e)

def makeFolders (t : Tree) (p : String) : Tree × Option OsError :=
  t.makeChain (Path.ancestors p)

def files (t : Tree) : List (Place × Content) :=
  t.entries.filterMap fun (p, e) =>
    match e with
    | .file c => some (p, c)
    | _ => none

end Tree

end Inspector
