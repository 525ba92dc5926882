import Inspector.Yaml.Scalar

/-! The tokens of a YAML text. Indentation becomes tokens that open and close blocks, and a key
that is only known by the colon behind it gets its token in front of it afterwards. -/
namespace Inspector.Yaml

inductive Token where
  | version (major minor : Nat)
  | tagDirective (handle lead : String)
  | documentStart
  | documentEnd
  | blockListStart
  | blockMapStart
  | blockEnd
  | flowListStart
  | flowListEnd
  | flowMapStart
  | flowMapEnd
  | blockEntry
  | flowEntry
  | key
  | value
  | alias (name : String)
  | anchor (name : String)
  | tag (handle suffix : String)
  | scalar (style : Style) (text : String)
  deriving DecidableEq, Inhabited, Repr

/-- A place where a key may have begun that is not marked as one. -/
structure Candidate where
  /-- Whether the indentation leaves no other reading. -/
  required : Bool
  /-- How many tokens stood in front of it. -/
  number : Nat
  pos : Pos
  deriving DecidableEq, Inhabited, Repr

structure Scanner where
  rest : List Char
  pos : Pos := {}
  /-- The last token comes first. -/
  tokens : List Token := []
  count : Nat := 0
  /-- The candidate of the innermost level. -/
  candidate : Option Candidate := none
  /-- The candidates of the levels around it: one more for each open flow collection. -/
  outer : List (Option Candidate) := []
  indent : Int := -1
  indents : List Int := []
  keyAllowed : Bool := true

namespace Scanner

def inFlow (s : Scanner) : Bool := !s.outer.isEmpty

def push (s : Scanner) (t : Token) : Scanner :=
  { s with tokens := t :: s.tokens, count := s.count + 1 }

def insert (s : Scanner) (number : Nat) (t : Token) : Scanner :=
  let later := s.count - number
  { s with tokens := s.tokens.take later ++ t :: s.tokens.drop later, count := s.count + 1 }

def advance (s : Scanner) (n : Nat) : Scanner :=
  { s with rest := s.rest.drop n, pos := s.pos.advance n }

/-- A candidate has to be turned into a key on its line and within 1024 characters. -/
def expired (s : Scanner) (k : Candidate) : Bool :=
  k.pos.line < s.pos.line || k.pos.index + 1024 < s.pos.index

def dropExpired (s : Scanner) : Option Candidate → Except Fault (Option Candidate)
  | none => .ok none
  | some k => if s.expired k then (if k.required then .error .key else .ok none) else .ok (some k)

def dropStale (s : Scanner) : Except Fault Scanner := do
  let candidate ← s.dropExpired s.candidate
  let outer ← s.outer.mapM s.dropExpired
  return { s with candidate, outer }

def dropCandidate (s : Scanner) : Except Fault Scanner :=
  match s.candidate with
  | some ⟨true, _, _⟩ => .error .key
  | _ => .ok { s with candidate := none }

def saveCandidate (s : Scanner) : Except Fault Scanner :=
  if s.keyAllowed then do
    let required := !s.inFlow && s.indent == s.pos.column
    let number := s.count
    return { ← s.dropCandidate with candidate := some { required, number, pos := s.pos } }
  else .ok s

def roll (s : Scanner) (column : Nat) (number : Option Nat) (t : Token) : Scanner :=
  if s.inFlow ∨ ¬ s.indent < column then s
  else
    let s := { s with indents := s.indent :: s.indents, indent := column }
    match number with
    | none => s.push t
    | some n => s.insert n t

def unrollTo (column : Int) (s : Scanner) : List Int → Scanner
  | [] => s
  | i :: is =>
    if column < s.indent then
      unrollTo column { s.push .blockEnd with indent := i, indents := is } is
    else s

def unroll (s : Scanner) (column : Int) : Scanner :=
  if s.inFlow then s else unrollTo column s s.indents

/-- Skips blanks, comments and line breaks. Tabs count as blanks where no key can begin. -/
def skip (inFlow : Bool) (inComment keyAllowed : Bool) (p : Pos) :
    List Char → Bool × Pos × List Char
  | [] => (keyAllowed, p, [])
  | c :: cs =>
    if isHalfBreak c cs then skip inFlow inComment keyAllowed p.halfBreak cs
    else if isBreak c then skip inFlow false (keyAllowed || !inFlow) p.newLine cs
    else if inComment ∨ c = ' ' ∨ (c = '\t' ∧ (inFlow ∨ !keyAllowed))
        ∨ (c = byteOrderMark ∧ p.index = 0) then
      skip inFlow inComment keyAllowed p.next cs
    else if c = '#' then skip inFlow true keyAllowed p.next cs
    else (keyAllowed, p, c :: cs)

def skipToToken (s : Scanner) : Scanner :=
  let (keyAllowed, pos, rest) := skip s.inFlow false s.keyAllowed s.pos s.rest
  { s with keyAllowed, pos, rest }

def marker (s : Scanner) (t : Token) : Except Fault Scanner := do
  let s ← (s.unroll (-1)).dropCandidate
  return ({ s with keyAllowed := false }.advance 3).push t

def openFlow (s : Scanner) (t : Token) : Except Fault Scanner := do
  let s ← s.saveCandidate
  let s := { s with outer := s.candidate :: s.outer, candidate := none, keyAllowed := true }
  return (s.advance 1).push t

def closeFlow (s : Scanner) (t : Token) : Except Fault Scanner := do
  let s ← s.dropCandidate
  let s := { s with keyAllowed := false }
  let s :=
    match s.outer with
    | k :: outer => { s with candidate := k, outer }
    | [] => s
  return (s.advance 1).push t

def flowEntry (s : Scanner) : Except Fault Scanner := do
  let s ← s.dropCandidate
  return ({ s with keyAllowed := true }.advance 1).push .flowEntry

def blockEntry (s : Scanner) : Except Fault Scanner := do
  if !s.inFlow ∧ !s.keyAllowed then throw .indicator
  let s ← (s.roll s.pos.column none .blockListStart).dropCandidate
  return ({ s with keyAllowed := true }.advance 1).push .blockEntry

def key (s : Scanner) : Except Fault Scanner := do
  if !s.inFlow ∧ !s.keyAllowed then throw .indicator
  let s ← (s.roll s.pos.column none .blockMapStart).dropCandidate
  return ({ s with keyAllowed := !s.inFlow }.advance 1).push .key

def value (s : Scanner) : Except Fault Scanner := do
  match s.candidate with
  | some k =>
    let s := (s.insert k.number .key).roll k.pos.column (some k.number) .blockMapStart
    return ({ s with candidate := none, keyAllowed := false }.advance 1).push .value
  | none =>
    if !s.inFlow ∧ !s.keyAllowed then throw .indicator
    let s := s.roll s.pos.column none .blockMapStart
    return ({ s with keyAllowed := !s.inFlow }.advance 1).push .value

def named (s : Scanner) (t : String → Token) : Except Fault Scanner := do
  let s ← s.saveCandidate
  let s := { s with keyAllowed := false }.advance 1
  let name := s.rest.takeWhile isWord
  let s := s.advance name.length
  let ends := atGap s.rest
    || (s.rest.head?.any fun c => ['?', ':', ',', ']', '\x7d', '%', '@', '`'].contains c)
  if name.isEmpty ∨ !ends then throw .anchor
  return s.push (t (String.ofList name))

/-- The bytes of a UTF-8 sequence that is written with `n` more `%xx` escapes, and what follows
them. -/
def octets : Nat → List Char → Except Fault (List Nat × List Char)
  | 0, cs => .ok ([], cs)
  | n + 1, '%' :: a :: b :: cs =>
    match hexDigit? a, hexDigit? b with
    | some x, some y => do
      if (x * 16 + y) / 64 ≠ 2 then throw .tag
      let (bs, cs) ← octets n cs
      return ((x * 16 + y) :: bs, cs)
    | _, _ => .error .tag
  | _ + 1, _ => .error .tag

def followers? (octet : Nat) : Option Nat :=
  if octet < 0x80 then some 0
  else if octet / 32 = 6 then some 1
  else if octet / 16 = 14 then some 2
  else if octet / 8 = 30 then some 3
  else none

def uriEscape : List Char → Except Fault (Option Char × List Char)
  | '%' :: a :: b :: cs =>
    match hexDigit? a, hexDigit? b with
    | some x, some y =>
      match followers? (x * 16 + y) with
      | none => .error .tag
      | some n => do
        let (bs, cs) ← octets n cs
        let all := ((x * 16 + y) :: bs).map UInt8.ofNat
        let c := (String.fromUTF8? (ByteArray.mk all.toArray)).bind fun s => s.toList.head?
        return (c, cs)
    | _, _ => .error .tag
  | _ => .error .tag

def isUriChar (verbatim : Bool) (c : Char) : Bool :=
  isWord c || [';', '/', '?', ':', '@', '&', '=', '+', '$', '.', '!', '~', '*', '\'', '(', ')',
    '%'].contains c || (verbatim && [',', '[', ']'].contains c)

/-- The characters of a tag, or nothing if its escapes are no text. The first argument bounds
the steps. -/
def uri (verbatim : Bool) : Nat → List Char → Except Fault (Option (List Char) × List Char)
  | 0, cs => .ok (some [], cs)
  | n + 1, cs =>
    match cs with
    | [] => .ok (some [], [])
    | c :: r =>
      if !isUriChar verbatim c then .ok (some [], cs)
      else if c = '%' then do
        let (d, r) ← uriEscape (c :: r)
        let (ds, r) ← uri verbatim n r
        return ((do return (← d) :: (← ds)), r)
      else do
        let (ds, r) ← uri verbatim n r
        return (ds.map (c :: ·), r)

def scanUri (verbatim : Bool) (cs : List Char) : Except Fault (String × Nat) := do
  let (ds, r) ← uri verbatim cs.length cs
  return (String.ofList (ds.getD []), cs.length - r.length)

def handle (cs : List Char) : List Char :=
  let word := (cs.drop 1).takeWhile isWord
  '!' :: word ++ (if (cs.drop (1 + word.length)).head? = some '!' then ['!'] else [])

def tag (s : Scanner) : Except Fault Scanner := do
  let s ← s.saveCandidate
  let s := { s with keyAllowed := false }
  let (s, t) ←
    if (s.rest.drop 1).head? = some '<' then do
      let s := s.advance 2
      let (suffix, n) ← scanUri true s.rest
      let s := s.advance n
      if n = 0 ∨ s.rest.head? ≠ some '>' then throw .tag
      pure (s.advance 1, Token.tag "" suffix)
    else do
      let h := handle s.rest
      if 1 < h.length ∧ h.getLast? = some '!' then
        let s := s.advance h.length
        let (suffix, n) ← scanUri false s.rest
        if n = 0 then throw .tag
        pure (s.advance n, Token.tag (String.ofList h) suffix)
      else
        let s := s.advance 1
        let (suffix, n) ← scanUri false s.rest
        pure (s.advance n, if n = 0 then Token.tag "" "!" else Token.tag "!" suffix)
  if !(s.inFlow ∧ s.rest.head? = some ',') ∧ !atGap s.rest then throw .tag
  return s.push t

def endLine (fault : Fault) (s : Scanner) : Except Fault Scanner :=
  let (n, _) := skipLine s.rest
  let s := s.advance n
  match s.rest with
  | [] => .ok s
  | c :: cs =>
    if isHalfBreak c cs then .ok { s with rest := cs.drop 1, pos := s.pos.halfBreak.newLine }
    else if isBreak c then .ok { s with rest := cs, pos := s.pos.newLine }
    else .error fault

def skipBlanks (s : Scanner) : Scanner := s.advance (s.rest.takeWhile isBlank).length

def versionNumber (s : Scanner) : Except Fault (Nat × Scanner) :=
  let ds := s.rest.takeWhile Char.isDigit
  if ds.isEmpty ∨ 9 < ds.length then .error .directive
  else .ok (ds.foldl (fun n c => n * 10 + (c.toNat - '0'.toNat)) 0, s.advance ds.length)

def versionDirective (s : Scanner) : Except Fault (Token × Scanner) := do
  let (major, s) ← s.skipBlanks.versionNumber
  if s.rest.head? ≠ some '.' then throw .directive
  let (minor, s) ← (s.advance 1).versionNumber
  return (.version major minor, s)

def tagDirective (s : Scanner) : Except Fault (Token × Scanner) := do
  let s := s.skipBlanks
  if s.rest.head? ≠ some '!' then throw .directive
  let h := handle s.rest
  if 1 < h.length ∧ h.getLast? ≠ some '!' then throw .directive
  let s := s.advance h.length
  if !(s.rest.head?.any isBlank) then throw .directive
  let s := s.skipBlanks
  let (lead, n) ← scanUri true s.rest
  let s := s.advance n
  if n = 0 ∨ !atGap s.rest then throw .directive
  return (.tagDirective (String.ofList h) lead, s)

def directive (s : Scanner) : Except Fault Scanner := do
  let s ← (s.unroll (-1)).dropCandidate
  let s := { s with keyAllowed := false }.advance 1
  let name := s.rest.takeWhile isWord
  let s := s.advance name.length
  if !atGap s.rest then throw .directive
  let (t, s) ←
    if name = "YAML".toList then s.versionDirective
    else if name = "TAG".toList then s.tagDirective
    else throw .directive
  s.push t |>.endLine .directive

def blockScalar (s : Scanner) (literal : Bool) : Except Fault Scanner := do
  let s ← s.dropCandidate
  let s := { s with keyAllowed := true }.advance 1
  let (header, rest) ← scanHeader s.rest
  let s ← (s.advance (s.rest.length - rest.length)).endLine .block
  let indent := header.increment.map fun n => (max s.indent 0).toNat + n
  let r ← scanBlock header.chomp { literal, outer := s.indent, indent } false s.pos s.rest
  return { s with rest := r.rest, pos := r.pos }.push
    (.scalar (if literal then .literal else .folded) r.text)

def quotedScalar (s : Scanner) (single : Bool) : Except Fault Scanner := do
  let s ← s.saveCandidate
  let s := { s with keyAllowed := false }.advance 1
  let r ← scanQuoted single [] .none .none s.pos s.rest
  return { s with rest := r.rest, pos := r.pos }.push (.scalar .quoted r.text)

def plainScalar (s : Scanner) : Except Fault Scanner := do
  let s ← s.saveCandidate
  let r ← scanPlain s.inFlow (s.indent + 1) [] .none s.pos s.rest
  return { s with rest := r.rest, pos := r.pos, keyAllowed := r.brokeLine }.push
    (.scalar .plain r.text)

def indicators : List Char :=
  ['-', '?', ':', ',', '[', ']', '\x7b', '\x7d', '#', '&', '*', '!', '|', '>', '\'', '"', '%',
    '@', '`']

def startsPlain (s : Scanner) (c : Char) (rest : List Char) : Bool :=
  !(isBlank c || isBreak c || indicators.contains c)
    || (c == '-' && !(rest.head?.any isBlank))
    || (!s.inFlow && (c == '?' || c == ':') && !atGap rest)

def next? (s : Scanner) : Except Fault (Option Scanner) := do
  let s ← s.skipToToken.dropStale
  let s := s.unroll s.pos.column
  match s.rest with
  | [] => return none
  | c :: rest =>
    if s.pos.column = 0 ∧ c = '%' then s.directive
    else if s.pos.column = 0 ∧ isMarker '-' s.rest then s.marker .documentStart
    else if s.pos.column = 0 ∧ isMarker '.' s.rest then s.marker .documentEnd
    else if c = '[' then s.openFlow .flowListStart
    else if c = '\x7b' then s.openFlow .flowMapStart
    else if c = ']' then s.closeFlow .flowListEnd
    else if c = '\x7d' then s.closeFlow .flowMapEnd
    else if c = ',' then s.flowEntry
    else if c = '-' ∧ atGap rest then s.blockEntry
    else if c = '?' ∧ (s.inFlow ∨ atGap rest) then s.key
    else if c = ':' ∧ (s.inFlow ∨ atGap rest) then s.value
    else if c = '*' then s.named .alias
    else if c = '&' then s.named .anchor
    else if c = '!' then s.tag
    else if c = '|' ∧ !s.inFlow then s.blockScalar true
    else if c = '>' ∧ !s.inFlow then s.blockScalar false
    else if c = '\'' then s.quotedScalar true
    else if c = '"' then s.quotedScalar false
    else if s.startsPlain c rest then s.plainScalar
    else throw .indicator

def close (s : Scanner) : Except Fault Scanner := do
  let s ← s.skipToToken.dropStale
  (s.unroll (-1)).dropCandidate

def run : Nat → Scanner → Except Fault Scanner
  | 0, s => .ok s
  | n + 1, s => do
    match ← s.next? with
    | some s => run n s
    | none => s.close

end Scanner

def Token.scan (s : String) : Except Fault (List Token) := do
  let cs := s.toList
  let cs := if cs.head? = some byteOrderMark then cs.drop 1 else cs
  if !cs.all isAllowed then throw .character
  let s ← Scanner.run (cs.length + 1) { rest := cs }
  return s.tokens.reverse

end Inspector.Yaml
