import Inspector.Json.Numeral
import Inspector.Json.Quoted

/-! Reading a text into a draft. -/
namespace Inspector.Json

def isBlank (c : Char) : Bool := c == ' ' || c == '\n' || c == '\t' || c == '\r'

def skipBlanks (cs : List Char) : List Char := cs.dropWhile isBlank

def readWord (v : Draft) : List Char → List Char → Draft × List Char
  | [], cs => (v, cs)
  | _ :: _, [] => (.broken .truncated, [])
  | w :: ws, c :: cs => if w = c then readWord v ws cs else (.broken .malformed, [])

mutual

/-- Reads a value. The first argument bounds the steps, and a step for each character and one
for each nested value are enough. -/
def readValue : Nat → List Char → Draft × List Char
  | 0, _ => (.absent, [])
  | n + 1, cs =>
    match skipBlanks cs with
    | [] => (.absent, [])
    | c :: r =>
      if c = 'n' then readWord .null ['u', 'l', 'l'] r
      else if c = 't' then readWord (.bool true) ['r', 'u', 'e'] r
      else if c = 'f' then readWord (.bool false) ['a', 'l', 's', 'e'] r
      else if c = '"' then
        let (read, skipped, rest) := readText r
        (.text read skipped, rest)
      else if c = '-' then readNumber true r
      else if (digit? c).isSome then readNumber false (c :: r)
      else if c = '[' then
        let (items, rest) := readItems n true r
        (.list items, rest)
      else if c = '\x7b' then
        let (members, rest) := readMembers n true r
        (.object members, rest)
      else (.broken .malformed, [])

def readItems : Nat → Bool → List Char → Items × List Char
  | 0, _, _ => (.broken .truncated, [])
  | n + 1, first, cs =>
    match skipBlanks cs with
    | [] => (.broken .truncated, [])
    | c :: r =>
      if c = ']' then (.close, r)
      else if first ∨ c = ',' then
        let (v, rest) := readValue n (if first then c :: r else r)
        let (items, rest) := readItems n false rest
        (.item v items, rest)
      else (.broken .malformed, [])

def readMembers : Nat → Bool → List Char → Members × List Char
  | 0, _, _ => (.broken .truncated, [])
  | n + 1, first, cs =>
    match skipBlanks cs with
    | [] => if first then (.noKey .absent, []) else (.broken .truncated, [])
    | c :: r =>
      if c = '\x7d' then (.close, r)
      else if first ∨ c = ',' then readMember n (if first then c :: r else r)
      else (.broken .malformed, [])

def readMember : Nat → List Char → Members × List Char
  | 0, _ => (.broken .truncated, [])
  | n + 1, cs =>
    match skipBlanks cs with
    | [] => (.noKey .absent, [])
    | c :: r =>
      if c = '"' then
        let (key, skipped, rest) := readText r
        match skipBlanks rest with
        | [] => (.member key skipped .absent (.broken .truncated), [])
        | c :: r =>
          if c = ':' then
            let (v, rest) := readValue n r
            let (members, rest) := readMembers n false rest
            (.member key skipped v members, rest)
          else (.member key skipped (.broken .malformed) (.broken .malformed), [])
      else (.noKey (readValue n (c :: r)).1, [])

end

structure Document where
  value : Draft
  trailing : Option Fault

def Document.read (s : String) : Document :=
  let cs := s.toList
  let (value, rest) := readValue (3 * cs.length + 3) cs
  { value, trailing := if (skipBlanks rest).isEmpty then none else some .malformed }

end Inspector.Json
