import Inspector.Json.Draft

/-! Strings in JSON texts. -/
namespace Inspector.Json

/-- A piece of a string: a character that stands for itself, or the unit of a `\u` escape. -/
inductive Piece where
  | char (c : Char)
  | unit (n : Nat)
  deriving DecidableEq, Inhabited, Repr

def hexDigit? (c : Char) : Option Nat :=
  if '0' ≤ c ∧ c ≤ '9' then some (c.toNat - '0'.toNat)
  else if 'a' ≤ c ∧ c ≤ 'f' then some (c.toNat - 'a'.toNat + 10)
  else if 'A' ≤ c ∧ c ≤ 'F' then some (c.toNat - 'A'.toNat + 10)
  else none

def hexQuad? (a b c d : Char) : Option Nat := do
  return (((← hexDigit? a) * 16 + (← hexDigit? b)) * 16 + (← hexDigit? c)) * 16 + (← hexDigit? d)

def unescape? (c : Char) : Option Char :=
  if c = '"' ∨ c = '\\' ∨ c = '/' then some c
  else if c = 'b' then some '\x08'
  else if c = 'f' then some '\x0c'
  else if c = 'n' then some '\n'
  else if c = 'r' then some '\r'
  else if c = 't' then some '\t'
  else none

def byteLength (cs : List Char) : Nat := cs.foldr (fun c n => c.utf8Size + n) 0

def pieces : List Char → List Piece × Except Fault (List Char)
  | [] => ([], .error .truncated)
  | c :: r =>
    if c = '"' then ([], .ok r)
    else if c = '\\' then
      match r with
      | [] => ([], .error .truncated)
      | e :: r =>
        if e = 'u' then
          match r with
          | w :: x :: y :: z :: r =>
            match hexQuad? w x y z with
            | some n => (.unit n :: (pieces r).1, (pieces r).2)
            | none => ([], .error .malformed)
          | r => ([], .error (if byteLength r < 4 then .truncated else .malformed))
        else
          match unescape? e with
          | some c => (.char c :: (pieces r).1, (pieces r).2)
          | none => ([], .error .malformed)
    else if c.toNat < 0x20 then ([], .error .malformed)
    else (.char c :: (pieces r).1, (pieces r).2)

def isLeading (n : Nat) : Bool := 0xD800 ≤ n && n ≤ 0xDBFF
def isTrailing (n : Nat) : Bool := 0xDC00 ≤ n && n ≤ 0xDFFF

/-- The text of the pieces that a string ends with `stop`. Units from the surrogate range have
to come in pairs. -/
def join (stop : Option Fault) : List Piece → Except Fault (List Char)
  | [] =>
    match stop with
    | none => .ok []
    | some f => .error f
  | .char c :: ps => (join stop ps).map (c :: ·)
  | .unit n :: ps =>
    if isTrailing n then .error .malformed
    else if isLeading n then
      match ps with
      | .unit m :: ps =>
        if isTrailing m then
          (join stop ps).map (Char.ofNat (0x10000 + (n - 0xD800) * 0x400 + (m - 0xDC00)) :: ·)
        else .error .malformed
      | .char _ :: _ => .error .malformed
      | [] => .error (stop.getD .malformed)
    else (join stop ps).map (Char.ofNat n :: ·)

/-- A string from behind its opening quote: what it says, what keeps it from being passed over,
and the text behind it. -/
def readText (cs : List Char) : Except Fault (List Char) × Option Fault × List Char :=
  match pieces cs with
  | (ps, .ok r) => (join none ps, none, r)
  | (ps, .error f) => (join (some f) ps, some f, [])

end Inspector.Json
