import Inspector.Json.Read
import Inspector.Json.Value

/-! Tokens read back: the characters of a text from their escapes, and a number from its digits. -/
namespace Inspector.Json

section Text

variable {c e : Char}

theorem pieces_escaped (he : e ≠ 'u') (h : unescape? e = some c) (r : List Char) :
    pieces ('\\' :: e :: r) = (.char c :: (pieces r).1, (pieces r).2) := by
  rw [pieces.eq_def]
  simp [he, h]

theorem pieces_unit {w x y z : Char} {n : Nat} (h : hexQuad? w x y z = some n) (r : List Char) :
    pieces ('\\' :: 'u' :: w :: x :: y :: z :: r) = (.unit n :: (pieces r).1, (pieces r).2) := by
  rw [pieces.eq_def]
  simp [h]

theorem pieces_plain (hquote : c ≠ '"') (hslash : c ≠ '\\') (h : ¬ c.toNat < 0x20)
    (r : List Char) : pieces (c :: r) = (.char c :: (pieces r).1, (pieces r).2) := by
  rw [pieces.eq_def]
  simp [hquote, hslash, h]

theorem hexDigit?_digitChar : ∀ n < 16, hexDigit? (Nat.digitChar n) = some n := by decide

theorem hexQuad?_hexPair {n : Nat} (h : n < 0x20) :
    hexQuad? '0' '0' (Nat.digitChar (n / 16 % 16)) (Nat.digitChar (n % 16)) = some n := by
  have hhigh := hexDigit?_digitChar (n / 16 % 16) (by omega)
  have hlow := hexDigit?_digitChar (n % 16) (by omega)
  have hzero : hexDigit? '0' = some 0 := by decide
  simp only [hexQuad?, hhigh, hlow, hzero, Option.bind_eq_bind, Option.bind_some, Option.pure_def]
  congr 1
  omega

/-- The three ways to write a character. -/
theorem escapeChar_cases (c : Char) :
    (∃ e, escapeChar c = ['\\', e] ∧ e ≠ 'u' ∧ unescape? e = some c) ∨
    (c.toNat < 0x20 ∧ escapeChar c = '\\' :: 'u' :: '0' :: '0' :: hexPair c.toNat) ∨
    c ≠ '"' ∧ c ≠ '\\' ∧ ¬ c.toNat < 0x20 ∧ escapeChar c = [c] := by
  by_cases hshort : c = '"' ∨ c = '\\' ∨ c = '\x08' ∨ c = '\t' ∨ c = '\n' ∨ c = '\x0c' ∨ c = '\r'
  · left
    obtain rfl | rfl | rfl | rfl | rfl | rfl | rfl := hshort
    · exact ⟨'"', by decide⟩
    · exact ⟨'\\', by decide⟩
    · exact ⟨'b', by decide⟩
    · exact ⟨'t', by decide⟩
    · exact ⟨'n', by decide⟩
    · exact ⟨'f', by decide⟩
    · exact ⟨'r', by decide⟩
  · right
    simp only [not_or] at hshort
    by_cases h : c.toNat < 0x20
    · exact Or.inl ⟨h, by simp [escapeChar, hshort, h]⟩
    · exact Or.inr ⟨hshort.1, hshort.2.1, h, by simp [escapeChar, hshort, h]⟩

/-- A character that was written is one piece, and that piece says the character. -/
theorem pieces_escapeChar (c : Char) :
    ∃ p, (∀ r, pieces (escapeChar c ++ r) = (p :: (pieces r).1, (pieces r).2)) ∧
      ∀ stop ps, join stop (p :: ps) = (join stop ps).map (c :: ·) := by
  obtain ⟨e, hc, hu, he⟩ | ⟨h, hc⟩ | ⟨hquote, hslash, h, hc⟩ := escapeChar_cases c
  · refine ⟨.char c, fun r => ?_, fun stop ps => by rw [join]⟩
    rw [hc]
    exact pieces_escaped hu he r
  · refine ⟨.unit c.toNat, fun r => ?_, fun stop ps => ?_⟩
    · rw [hc]
      exact pieces_unit (hexQuad?_hexPair h) r
    · have htrailing : isTrailing c.toNat = false := by simp [isTrailing]; omega
      have hleading : isLeading c.toNat = false := by simp [isLeading]; omega
      rw [join.eq_def]
      simp [htrailing, hleading]
  · refine ⟨.char c, fun r => ?_, fun stop ps => by rw [join]⟩
    rw [hc]
    exact pieces_plain hquote hslash h r

theorem pieces_written (cs r : List Char) :
    ∃ ps, pieces (cs.flatMap escapeChar ++ '"' :: r) = (ps, .ok r) ∧ join none ps = .ok cs := by
  induction cs with
  | nil => exact ⟨[], by rw [List.flatMap_nil, List.nil_append, pieces.eq_def]; simp, rfl⟩
  | cons c cs ih =>
    obtain ⟨ps, hps, hcs⟩ := ih
    obtain ⟨p, hp, hc⟩ := pieces_escapeChar c
    refine ⟨p :: ps, ?_, ?_⟩
    · rw [List.flatMap_cons, List.append_assoc, hp, hps]
    · rw [hc, hcs]
      rfl

/-- A text comes back from behind its opening quote. -/
theorem readText_written (s r : List Char) :
    readText (s.flatMap escapeChar ++ '"' :: r) = (.ok s, none, r) := by
  obtain ⟨ps, hps, hs⟩ := pieces_written s r
  rw [readText, hps]
  simp only [hs]

end Text

section Number

variable {n : Nat} {cs rest : List Char}

def digitValues (cs : List Char) : List Nat := cs.map fun c => c.toNat - '0'.toNat

def Numeral.ofNat (n : Nat) : Numeral where
  minus := false
  whole := digitValues (Nat.toDigits 10 n)

theorem digit?_of_isDigit {c : Char} (h : c.isDigit = true) :
    digit? c = some (c.toNat - '0'.toNat) := by
  obtain ⟨hlow, hhigh⟩ := Char.isDigit_iff_toNat.mp h
  exact if_pos ⟨Char.le_def.mpr (UInt32.le_iff_toNat_le.mpr hlow),
    Char.le_def.mpr (UInt32.le_iff_toNat_le.mpr hhigh)⟩

theorem spanDigits_append (hcs : ∀ c ∈ cs, c.isDigit = true)
    (hrest : ∀ c, rest.head? = some c → digit? c = none) :
    spanDigits (cs ++ rest) = (digitValues cs, rest) := by
  induction cs with
  | nil =>
    cases rest with
    | nil => rfl
    | cons c rest => simp [spanDigits, hrest c rfl, digitValues]
  | cons c cs ih =>
    obtain ⟨hc, hcs⟩ := List.forall_mem_cons.mp hcs
    simp [spanDigits, digit?_of_isDigit hc, ih hcs, digitValues]

def Ends (rest : List Char) : Prop :=
  ∀ c, rest.head? = some c → digit? c = none ∧ c ≠ '.' ∧ c ≠ 'e' ∧ c ≠ 'E'

/-- Only zero is written with a zero in front. -/
theorem head?_toDigits (h : (Nat.toDigits 10 n).head? = some '0') : n = 0 := by
  induction n using Nat.strongRecOn with
  | ind n ih =>
    by_cases hn : n < 10
    · rw [Nat.toDigits_of_lt_base hn] at h
      simpa using h
    · rw [Nat.toDigits_of_base_le (by decide) (by omega), List.head?_append] at h
      have hfront : (Nat.toDigits 10 (n / 10)).head? = some '0' := by
        cases hd : (Nat.toDigits 10 (n / 10)).head? with
        | none => exact absurd (List.head?_eq_none_iff.mp hd) Nat.toDigits_ne_nil
        | some d => simpa [hd] using h
      have := ih (n / 10) (by omega) hfront
      omega

theorem readTail_ends (m : Numeral) (h : Ends rest) : readTail m rest = finish m rest := by
  cases rest with
  | nil => rfl
  | cons c rest =>
    obtain ⟨-, -, he, hE⟩ := h c rfl
    rw [readTail.eq_def]
    split
    · next hc => exact absurd (List.cons.inj hc).1 he
    · next hc => exact absurd (List.cons.inj hc).1 hE
    · rfl

theorem toDigits_cons (n : Nat) : ∃ c r, Nat.toDigits 10 n = c :: r ∧ c.isDigit = true := by
  cases hn : Nat.toDigits 10 n with
  | nil => exact absurd hn Nat.toDigits_ne_nil
  | cons c r =>
    exact ⟨c, r, rfl, Nat.isDigit_of_mem_toDigits (by decide) (by decide) (hn ▸ List.mem_cons_self)⟩

theorem digitValues_ne_leading_zero (n d : Nat) (ds : List Nat) :
    digitValues (Nat.toDigits 10 n) ≠ 0 :: d :: ds := by
  intro h
  obtain ⟨c, cs, hn, hdigit⟩ := toDigits_cons n
  obtain ⟨hlow, -⟩ := Char.isDigit_iff_toNat.mp hdigit
  rw [hn] at h
  obtain ⟨hvalue, hrest⟩ := List.cons.inj h
  have hc : c = '0' := Char.toNat_inj.mp (by simp only at hvalue; omega)
  have hzero : n = 0 := head?_toDigits (by rw [hn, hc]; rfl)
  rw [hzero, Nat.toDigits_zero, List.cons.injEq] at hn
  simp [← hn.2] at hrest

/-- A natural number in digits is read as the numeral with these digits. -/
theorem readNumber_digits (n : Nat) (h : Ends rest) :
    readNumber false (Nat.toDigits 10 n ++ rest) = finish (.ofNat n) rest := by
  have hspan : spanDigits (Nat.toDigits 10 n ++ rest) =
      (digitValues (Nat.toDigits 10 n), rest) :=
    spanDigits_append (fun c hc => Nat.isDigit_of_mem_toDigits (by decide) (by decide) hc)
      fun c hc => (h c hc).1
  rw [readNumber, hspan]
  split
  · next hnone => simp [digitValues, Nat.toDigits_ne_nil] at hnone
  · next hzero => exact absurd (Prod.mk.inj hzero).1 (digitValues_ne_leading_zero n _ _)
  · next hpoint =>
    obtain ⟨-, rfl⟩ := Prod.mk.inj hpoint
    exact absurd rfl (h '.' rfl).2.1
  · next hrest =>
    obtain ⟨rfl, rfl⟩ := Prod.mk.inj hrest
    exact readTail_ends _ h

theorem le_ofDigitChars (cs : List Char) (n : Nat) : n ≤ Nat.ofDigitChars 10 cs n := by
  induction cs generalizing n with
  | nil => simp
  | cons c cs ih =>
    have := ih (10 * n + (c.toNat - '0'.toNat))
    rw [Nat.ofDigitChars_cons]
    omega

theorem fill_digitValues (cs : List Char) (n : Nat)
    (h : Nat.ofDigitChars 10 cs n ≤ Numeral.maxWord) :
    Numeral.fill n (digitValues cs) = (Nat.ofDigitChars 10 cs n, []) := by
  induction cs generalizing n with
  | nil => simp [digitValues, Numeral.fill]
  | cons c cs ih =>
    rw [Nat.ofDigitChars_cons] at h ⊢
    have hfits := Nat.le_trans (le_ofDigitChars cs _) h
    have hnext : n * 10 + (c.toNat - '0'.toNat) = 10 * n + (c.toNat - '0'.toNat) := by omega
    simp only [digitValues, List.map_cons, Numeral.fill, hnext, if_pos hfits]
    exact ih _ h

/-- A number that fits a word comes back from its digits. -/
theorem read_digits (h : n ≤ Numeral.maxWord) : (Numeral.ofNat n).read = .ok (.natural n) := by
  have hfill := fill_digitValues (Nat.toDigits 10 n) 0 (by rwa [Nat.ofDigitChars_ten_toDigits])
  rw [Nat.ofDigitChars_ten_toDigits] at hfill
  simp [Numeral.read, Numeral.ofNat, hfill]

end Number

end Inspector.Json
