import Inspector.Yaml.Token

/-! The node that a list of tokens describes. Anchors and aliases are kept as labels; what an alias
stands for is settled in a later step. -/
namespace Inspector.Yaml

structure Scalar where
  tag : Option String := none
  style : Style := .plain
  text : String := ""
  deriving DecidableEq, Inhabited, Repr

/-- A node whose anchors and aliases are labelled by `ι`. -/
inductive Node (ι : Type) where
  | alias (label : ι)
  | scalar (anchor : Option ι) (s : Scalar)
  | list (anchor : Option ι) (items : List (Node ι))
  | map (anchor : Option ι) (entries : List (Node ι × Node ι))
  deriving Inhabited, Repr

def Node.empty {ι : Type} : Node ι := .scalar none {}

abbrev Handles := List (String × String)

def Handles.default : Handles := [("!", "!"), ("!!", "tag:yaml.org,2002:")]

def Handles.resolve (hs : Handles) (handle suffix : String) : Except Fault String :=
  if handle.isEmpty then .ok suffix
  else
    match hs.find? (·.1 == handle) with
    | some (_, lead) => .ok (lead ++ suffix)
    | none => .error .tag

structure Properties where
  anchor : Option String := none
  tag : Option String := none

namespace Properties

def read (hs : Handles) : List Token → Except Fault (Properties × List Token)
  | .anchor a :: .tag h s :: ts => do return (⟨some a, some (← hs.resolve h s)⟩, ts)
  | .tag h s :: .anchor a :: ts => do return (⟨some a, some (← hs.resolve h s)⟩, ts)
  | .anchor a :: ts => .ok (⟨some a, none⟩, ts)
  | .tag h s :: ts => do return (⟨none, some (← hs.resolve h s)⟩, ts)
  | ts => .ok ({}, ts)

/-- A written scalar with the tag `!` counts as one without a tag. -/
def scalar (p : Properties) (style : Style) (text : String) : Node String :=
  .scalar p.anchor { tag := p.tag.filter (· != "!"), style, text }

def alone (p : Properties) : Except Fault (Node String) :=
  match p.anchor, p.tag with
  | none, none => .error .node
  | _, tag => .ok (.scalar p.anchor { tag })

end Properties

abbrev Reader (α : Type) := List Token → Except Fault (α × List Token)

namespace Node

def separated (first : Bool) (close : Token) (ts : List Token) : Except Fault (List Token) :=
  if first ∨ ts.head? = some close then .ok ts
  else
    match ts with
    | .flowEntry :: ts => .ok ts
    | _ => .error .node

mutual

/-- Reads a node. Block collections are read only if `block` is set, and a list that is not
indented only if `bare` is. -/
def read (hs : Handles) (block bare : Bool) : Nat → Reader (Node String)
  | 0, _ => .error .node
  | _ + 1, .alias a :: ts => .ok (.alias a, ts)
  | n + 1, ts => do
    let (p, ts) ← Properties.read hs ts
    match ts with
    | .scalar style text :: ts => return (p.scalar style text, ts)
    | .flowListStart :: ts => do
      let (items, ts) ← flowItems hs true n ts
      return (.list p.anchor items, ts)
    | .flowMapStart :: ts => do
      let (entries, ts) ← flowEntries hs true n ts
      return (.map p.anchor entries, ts)
    | .blockEntry :: _ =>
      if bare then
        let (items, ts) ← bareItems hs n ts
        return (.list p.anchor items, ts)
      else return (← p.alone, ts)
    | .blockListStart :: rest =>
      if block then
        let (items, ts) ← blockItems hs n rest
        return (.list p.anchor items, ts)
      else return (← p.alone, ts)
    | .blockMapStart :: rest =>
      if block then
        let (entries, ts) ← blockEntries hs n rest
        return (.map p.anchor entries, ts)
      else return (← p.alone, ts)
    | _ => return (← p.alone, ts)

def readUnless (stops : List Token) (hs : Handles) (block bare : Bool) :
    Nat → Reader (Node String)
  | 0, _ => .error .node
  | n + 1, ts =>
    if ts.head?.any stops.contains then .ok (.empty, ts) else read hs block bare n ts

def blockItems (hs : Handles) : Nat → Reader (List (Node String))
  | _ + 1, .blockEnd :: ts => .ok ([], ts)
  | n + 1, .blockEntry :: ts => do
    let (x, ts) ← readUnless [.blockEntry, .blockEnd] hs true false n ts
    let (xs, ts) ← blockItems hs n ts
    return (x :: xs, ts)
  | _, _ => .error .node

def bareItems (hs : Handles) : Nat → Reader (List (Node String))
  | 0, _ => .error .node
  | n + 1, .blockEntry :: ts => do
    let (x, ts) ← readUnless [.blockEntry, .key, .value, .blockEnd] hs true false n ts
    let (xs, ts) ← bareItems hs n ts
    return (x :: xs, ts)
  | _ + 1, ts => .ok ([], ts)

def blockEntries (hs : Handles) : Nat → Reader (List (Node String × Node String))
  | _ + 1, .blockEnd :: ts => .ok ([], ts)
  | n + 1, .key :: ts => do
    let (k, ts) ← readUnless [.key, .value, .blockEnd] hs true true n ts
    let (v, ts) ←
      match ts with
      | .value :: ts => readUnless [.key, .value, .blockEnd] hs true true n ts
      | ts => .ok (.empty, ts)
    let (rest, ts) ← blockEntries hs n ts
    return ((k, v) :: rest, ts)
  | _, _ => .error .node

def flowItems (hs : Handles) (first : Bool) : Nat → Reader (List (Node String))
  | 0, _ => .error .node
  | n + 1, ts => do
    match ← separated first .flowListEnd ts with
    | .flowListEnd :: ts => return ([], ts)
    | .key :: ts => do
      let (k, ts) ← pairKey hs n ts
      let (v, ts) ←
        match ts with
        | .value :: ts => readUnless [.flowEntry, .flowListEnd] hs false false n ts
        | ts => .ok (.empty, ts)
      let (xs, ts) ← flowItems hs false n ts
      return (.map none [(k, v)] :: xs, ts)
    | ts => do
      let (x, ts) ← read hs false false n ts
      let (xs, ts) ← flowItems hs false n ts
      return (x :: xs, ts)

/-- The key of a pair inside a list in brackets. The token that shows it to be empty is lost. -/
def pairKey (hs : Handles) : Nat → Reader (Node String)
  | 0, _ => .error .node
  | _ + 1, .value :: ts => .ok (.empty, ts)
  | _ + 1, .flowEntry :: ts => .ok (.empty, ts)
  | _ + 1, .flowListEnd :: ts => .ok (.empty, ts)
  | n + 1, ts => read hs false false n ts

def flowEntries (hs : Handles) (first : Bool) : Nat → Reader (List (Node String × Node String))
  | 0, _ => .error .node
  | n + 1, ts => do
    match ← separated first .flowMapEnd ts with
    | .flowMapEnd :: ts => return ([], ts)
    | .key :: ts => do
      let (k, ts) ← readUnless [.value, .flowEntry, .flowMapEnd] hs false false n ts
      let (v, ts) ←
        match ts with
        | .value :: ts => readUnless [.flowEntry, .flowMapEnd] hs false false n ts
        | ts => .ok (.empty, ts)
      let (rest, ts) ← flowEntries hs false n ts
      return ((k, v) :: rest, ts)
    | ts => do
      let (k, ts) ← read hs false false n ts
      let (rest, ts) ← flowEntries hs false n ts
      return ((k, .empty) :: rest, ts)

end

def directives (version : Bool) (hs : Handles) : Reader Handles
  | .version major minor :: ts =>
    if version ∨ major ≠ 1 ∨ (minor ≠ 1 ∧ minor ≠ 2) then .error .directive
    else directives true hs ts
  | .tagDirective handle lead :: ts =>
    if hs.any (·.1 == handle) then .error .directive
    else directives version (hs ++ [(handle, lead)]) ts
  | ts => .ok (hs ++ Handles.default, ts)

def isDirective : Token → Bool
  | .version .. => true
  | .tagDirective .. => true
  | _ => false

def endsDocument (t : Token) : Bool :=
  isDirective t || t == .documentStart || t == .documentEnd

def readDocument (fuel : Nat) : Reader (Node String)
  | [] => .ok (.empty, [])
  | t :: ts =>
    if isDirective t ∨ t = .documentStart then do
      let (hs, ts) ← directives false [] (t :: ts)
      match ts with
      | .documentStart :: ts =>
        if ts.head?.all endsDocument then return (.empty, ts) else read hs true false fuel ts
      | _ => throw .directive
    else read .default true false fuel (t :: ts)

/-- The node of the only document in a text. No token asks for more than four steps. -/
def parse (s : String) : Except Fault (Node String) := do
  let ts ← Token.scan s
  let (node, rest) ← readDocument (4 * ts.length + 8) ts
  if rest.all (· == .documentEnd) then return node else throw .document

end Node

end Inspector.Yaml
