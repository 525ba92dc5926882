/-! Character classes of YAML texts, and positions in them. -/
namespace Inspector.Yaml

inductive Fault where
  | character
  | indentation
  | key
  | indicator
  | quote
  | escape
  | block
  | anchor
  | tag
  | directive
  | node
  | document
  | dangling
  | shape
  deriving DecidableEq, Inhabited, Repr

def Fault.message : Fault → String
  | character => "control characters are not allowed"
  | indentation => "found a tab where indentation is expected"
  | key => "could not find the colon of a key"
  | indicator => "found a character that cannot start any token"
  | quote => "found unexpected end of a quoted text"
  | escape => "found an unknown escape"
  | block => "did not find a line break before a block text"
  | anchor => "did not find a name for an anchor or alias"
  | tag => "did not find an expected tag"
  | directive => "found an unusable directive"
  | node => "did not find expected node content"
  | document => "there is more than one document"
  | dangling => "found an alias without an anchor"
  | shape => "the document does not have the expected shape"

def isAllowed (c : Char) : Bool :=
  let n := c.toNat
  n == 0x09 || n == 0x0A || n == 0x0D || (0x20 ≤ n && n ≤ 0x7E) || n == 0x85
    || (0xA0 ≤ n && n ≤ 0xFFFD) || 0x10000 ≤ n

def lineSeparator : Char := Char.ofNat 0x2028
def paragraphSeparator : Char := Char.ofNat 0x2029
def nextLine : Char := Char.ofNat 0x85
def byteOrderMark : Char := Char.ofNat 0xFEFF

def isBreak (c : Char) : Bool :=
  c == '\n' || c == '\r' || c == nextLine || c == lineSeparator || c == paragraphSeparator

def isBlank (c : Char) : Bool := c == ' ' || c == '\t'

def isWord (c : Char) : Bool := c.isAlphanum || c == '_' || c == '-'

def atGap : List Char → Bool
  | [] => true
  | c :: _ => isBlank c || isBreak c

/-- A carriage return in front of a line feed: the two are one line break. -/
def isHalfBreak (c : Char) (rest : List Char) : Bool := c == '\r' && rest.head? == some '\n'

def breakChar (c : Char) : Char :=
  if c = lineSeparator ∨ c = paragraphSeparator then c else '\n'

def hexDigit? (c : Char) : Option Nat :=
  if '0' ≤ c ∧ c ≤ '9' then some (c.toNat - '0'.toNat)
  else if 'a' ≤ c ∧ c ≤ 'f' then some (c.toNat - 'a'.toNat + 10)
  else if 'A' ≤ c ∧ c ≤ 'F' then some (c.toNat - 'A'.toNat + 10)
  else none

structure Pos where
  index : Nat := 0
  line : Nat := 0
  column : Nat := 0
  deriving DecidableEq, Inhabited, Repr

namespace Pos

def advance (p : Pos) (n : Nat) : Pos := ⟨p.index + n, p.line, p.column + n⟩

def next (p : Pos) : Pos := p.advance 1

def newLine (p : Pos) : Pos := ⟨p.index + 1, p.line + 1, 0⟩

def halfBreak (p : Pos) : Pos := { p with index := p.index + 1 }

end Pos

def isMarker (c : Char) : List Char → Bool
  | x :: y :: z :: rest => x == c && y == c && z == c && atGap rest
  | _ => false

def atMarker (p : Pos) (cs : List Char) : Bool :=
  p.column == 0 && (isMarker '-' cs || isMarker '.' cs)

end Inspector.Yaml
