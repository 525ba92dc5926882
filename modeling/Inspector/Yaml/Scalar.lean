import Inspector.Yaml.Character

/-! The three ways to write a scalar: plain, in quotes, and as an indented block. Each scanner
goes through the text once, character by character, and returns the value with the text and the
position behind it. -/
namespace Inspector.Yaml

inductive Style where
  | plain | quoted | literal | folded
  deriving DecidableEq, Inhabited, Repr

/-- Blanks and line breaks that stand between two words of a scalar. Texts under construction
hold their last character first. -/
inductive Gap where
  | none
  | blanks (cs : List Char)
  /-- The first line break, unless it was escaped, and those behind it. -/
  | breaks (first : Option Char) (more : List Char)
  deriving DecidableEq, Inhabited, Repr

namespace Gap

def isBreaks : Gap → Bool
  | breaks .. => true
  | _ => false

def isNone : Gap → Bool
  | none => true
  | _ => false

def addBlank (c : Char) : Gap → Gap
  | none => blanks [c]
  | blanks cs => blanks (c :: cs)
  | g => g

def addBreak (c : Char) : Gap → Gap
  | breaks first more => breaks first (breakChar c :: more)
  | _ => breaks (some (breakChar c)) []

/-- What a gap leaves in front of the next word: a single line feed becomes a space. -/
def close : Gap → List Char
  | none => []
  | blanks cs => cs
  | breaks (some '\n') [] => [' ']
  | breaks (some '\n') more => more
  | breaks (some c) more => more ++ [c]
  | breaks .none more => more

end Gap

structure Scanned where
  text : String
  rest : List Char
  pos : Pos
  brokeLine : Bool := false

def finishText (text : List Char) : String := String.ofList text.reverse

def flowIndicators : List Char := [',', '[', ']', '\x7b', '\x7d']

def endsPlain (inFlow : Bool) (c : Char) (rest : List Char) : Bool :=
  (c == ':' && atGap rest) || (inFlow && flowIndicators.contains c)

/-- A colon in flow context that is directly followed by an indicator. -/
def badColon (inFlow : Bool) (c : Char) (rest : List Char) : Bool :=
  inFlow && c == ':' &&
    match rest with
    | d :: _ => d == '?' || flowIndicators.contains d
    | [] => false

def scanPlain (inFlow : Bool) (indent : Int) (text : List Char) (gap : Gap) (p : Pos) :
    List Char → Except Fault Scanned
  | [] => .ok ⟨finishText text, [], p, gap.isBreaks⟩
  | c :: cs =>
    let done := Except.ok ⟨finishText text, c :: cs, p, gap.isBreaks⟩
    if isHalfBreak c cs then scanPlain inFlow indent text gap p.halfBreak cs
    else if isBreak c then scanPlain inFlow indent text (gap.addBreak c) p.newLine cs
    else if isBlank c then
      if gap.isBreaks ∧ p.column < indent ∧ c = '\t' then .error .indentation
      else scanPlain inFlow indent text (gap.addBlank c) p.next cs
    else if !gap.isNone ∧ ((!inFlow ∧ p.column < indent) ∨ atMarker p (c :: cs) ∨ c = '#') then
      done
    else if badColon inFlow c cs then .error .indicator
    else if endsPlain inFlow c cs then done
    else scanPlain inFlow indent (c :: gap.close ++ text) .none p.next cs

def unescape? (c : Char) : Option Char :=
  if c = '0' then some (Char.ofNat 0)
  else if c = 'a' then some (Char.ofNat 0x07)
  else if c = 'b' then some (Char.ofNat 0x08)
  else if c = 't' ∨ c = '\t' then some '\t'
  else if c = 'n' then some '\n'
  else if c = 'v' then some (Char.ofNat 0x0B)
  else if c = 'f' then some (Char.ofNat 0x0C)
  else if c = 'r' then some '\r'
  else if c = 'e' then some (Char.ofNat 0x1B)
  else if c = ' ' ∨ c = '"' ∨ c = '/' ∨ c = '\\' then some c
  else if c = 'N' then some nextLine
  else if c = '_' then some (Char.ofNat 0xA0)
  else if c = 'L' then some lineSeparator
  else if c = 'P' then some paragraphSeparator
  else none

def codeLength? (c : Char) : Option Nat :=
  if c = 'x' then some 2 else if c = 'u' then some 4 else if c = 'U' then some 8 else none

def codePoint? (n : Nat) : Option Char := if n.isValidChar then some (Char.ofNat n) else none

inductive Escape where
  | none
  | quote
  | letter
  | code (digits : Nat) (value : Nat)
  deriving DecidableEq, Inhabited, Repr

def scanQuoted (single : Bool) (text : List Char) (gap : Gap) (esc : Escape) (p : Pos) :
    List Char → Except Fault Scanned
  | [] => .error .quote
  | c :: cs =>
    match esc with
    | .quote => scanQuoted single ('\'' :: text) .none .none p.next cs
    | .letter =>
      if isHalfBreak c cs then scanQuoted single text gap .letter p.halfBreak cs
      else if isBreak c then scanQuoted single text (.breaks .none []) .none p.newLine cs
      else
        match unescape? c, codeLength? c with
        | some d, _ => scanQuoted single (d :: text) .none .none p.next cs
        | .none, some n => scanQuoted single text .none (.code n 0) p.next cs
        | .none, .none => .error .escape
    | .code n v =>
      match hexDigit? c with
      | .none => .error .escape
      | some d =>
        if n ≤ 1 then
          match codePoint? (v * 16 + d) with
          | some e => scanQuoted single (e :: text) .none .none p.next cs
          | .none => .error .escape
        else scanQuoted single text .none (.code (n - 1) (v * 16 + d)) p.next cs
    | .none =>
      if isHalfBreak c cs then scanQuoted single text gap .none p.halfBreak cs
      else if isBreak c then scanQuoted single text (gap.addBreak c) .none p.newLine cs
      else if isBlank c then scanQuoted single text (gap.addBlank c) .none p.next cs
      else if atMarker p (c :: cs) then .error .quote
      else
        let text := gap.close ++ text
        if single then
          if c = '\'' then
            if cs.head? = some '\'' then scanQuoted single text .none .quote p.next cs
            else .ok ⟨finishText text, cs, p.next, false⟩
          else scanQuoted single (c :: text) .none .none p.next cs
        else if c = '"' then .ok ⟨finishText text, cs, p.next, false⟩
        else if c = '\\' then scanQuoted single text .none .letter p.next cs
        else scanQuoted single (c :: text) .none .none p.next cs

inductive Chomp where
  | strip | clip | keep
  deriving DecidableEq, Inhabited, Repr

structure Header where
  chomp : Chomp := .clip
  increment : Option Nat := none
  deriving DecidableEq, Inhabited, Repr

def chomp? (c : Char) : Option Chomp :=
  if c = '+' then some .keep else if c = '-' then some .strip else none

def scanIncrement : List Char → Except Fault (Option Nat × List Char)
  | c :: cs =>
    if c = '0' then .error .block
    else if c.isDigit then .ok (some (c.toNat - '0'.toNat), cs)
    else .ok (none, c :: cs)
  | [] => .ok (none, [])

def scanHeader (cs : List Char) : Except Fault (Header × List Char) := do
  match cs with
  | c :: rest =>
    match chomp? c with
    | some chomp => do
      let (increment, rest) ← scanIncrement rest
      return ({ chomp, increment }, rest)
    | none => do
      let (increment, rest) ← scanIncrement cs
      match increment, rest with
      | some _, d :: rest' =>
        match chomp? d with
        | some chomp => return ({ chomp, increment }, rest')
        | none => return ({ increment }, rest)
      | _, _ => return ({ increment }, rest)
  | [] => return ({}, [])

def skipLine (cs : List Char) : Nat × List Char :=
  let rest := cs.dropWhile isBlank
  let rest := if rest.head? = some '#' then rest.dropWhile (!isBreak ·) else rest
  (cs.length - rest.length, rest)

structure Block where
  literal : Bool
  outer : Int
  indent : Option Nat
  /-- The deepest indentation met before the first line with text. -/
  deepest : Nat := 0
  text : List Char := []
  lead : Option Char := none
  trail : List Char := []
  blankStart : Bool := false

namespace Block

def isMargin (b : Block) (p : Pos) : Bool :=
  match b.indent with
  | none => true
  | some n => p.column < n

def settled (b : Block) (p : Pos) : Nat :=
  b.indent.getD (max (max b.deepest p.column) (max (b.outer + 1) 1).toNat)

/-- Begins a line with text whose first character is `c`. In a folded block, a single break
between two lines that do not begin with a blank becomes a space. -/
def startLine (b : Block) (c : Char) : Block :=
  let lead :=
    if !b.literal ∧ b.lead = some '\n' ∧ !b.blankStart ∧ !isBlank c then
      if b.trail.isEmpty then [' '] else []
    else b.lead.toList
  { b with text := b.trail ++ lead ++ b.text, lead := none, trail := [], blankStart := isBlank c }

def finish (b : Block) (chomp : Chomp) : String :=
  let lead := if chomp = .strip then [] else b.lead.toList
  let trail := if chomp = .keep then b.trail else []
  finishText (trail ++ lead ++ b.text)

end Block

def scanBlock (chomp : Chomp) (b : Block) (inLine : Bool) (p : Pos) :
    List Char → Except Fault Scanned
  | [] => .ok ⟨b.finish chomp, [], p, false⟩
  | c :: cs =>
    if isHalfBreak c cs then scanBlock chomp b inLine p.halfBreak cs
    else if inLine then
      if isBreak c then scanBlock chomp { b with lead := some (breakChar c) } false p.newLine cs
      else scanBlock chomp { b with text := c :: b.text } true p.next cs
    else if b.isMargin p ∧ c = ' ' then scanBlock chomp b false p.next cs
    else if b.isMargin p ∧ c = '\t' then .error .indentation
    else if isBreak c then
      scanBlock chomp
        { b with trail := breakChar c :: b.trail, deepest := max b.deepest p.column } false
        p.newLine cs
    else
      let n := b.settled p
      if p.column = n then
        let b := { b with indent := some n }.startLine c
        scanBlock chomp { b with text := c :: b.text } true p.next cs
      else .ok ⟨b.finish chomp, c :: cs, p, false⟩

end Inspector.Yaml
