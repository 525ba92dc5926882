import Inspector.Proofs.JsonToken

/-! Reading what was written. A value can be spelled in many ways, which differ in the blanks
between its tokens; the reader finds the same draft in all of them, and the written form is one of
them. -/
namespace Inspector.Json

variable {first : Bool} {c : Char} {b cs ds r : List Char} {v : Value}

def Blank (b : List Char) : Prop := ∀ c ∈ b, isBlank c = true

theorem skipBlanks_append (hb : Blank b) (cs : List Char) :
    skipBlanks (b ++ cs) = skipBlanks cs :=
  List.dropWhile_append_of_pos hb

theorem readValue_blank (n : Nat) (hb : Blank b) (cs : List Char) :
    readValue n (b ++ cs) = readValue n cs := by
  cases n with
  | zero => simp [readValue]
  | succ n => rw [readValue, readValue, skipBlanks_append hb]

theorem readMember_blank (n : Nat) (hb : Blank b) (cs : List Char) :
    readMember n (b ++ cs) = readMember n cs := by
  cases n with
  | zero => simp [readMember]
  | succ n => rw [readMember, readMember, skipBlanks_append hb]

/-- What stands in front of an item or member: blanks, with a comma unless it is the first. -/
inductive Lead : Bool → List Char → Prop where
  | first {b : List Char} (hb : Blank b) : Lead true b
  | next {b b' : List Char} (hb : Blank b) (hb' : Blank b') : Lead false (b ++ ',' :: b')

mutual

inductive Spells : Value → List Char → Prop where
  | null : Spells .null ['n', 'u', 'l', 'l']
  | yes : Spells (.bool true) ['t', 'r', 'u', 'e']
  | no : Spells (.bool false) ['f', 'a', 'l', 's', 'e']
  | number (n : Nat) : Spells (.number n) (Nat.toDigits 10 n)
  | text (s : String) : Spells (.text s) (writeText s)
  | list {vs : List Value} {cs : List Char} (h : SpellsItems true vs cs) :
    Spells (.list vs) ('[' :: cs)
  | object {ms : List (String × Value)} {cs : List Char} (h : SpellsMembers true ms cs) :
    Spells (.object ms) ('\x7b' :: cs)

inductive SpellsItems : Bool → List Value → List Char → Prop where
  | close (first : Bool) {b : List Char} (hb : Blank b) : SpellsItems first [] (b ++ [']'])
  | item {first : Bool} {v : Value} {vs : List Value} {l cs ds : List Char} (hl : Lead first l)
    (hv : Spells v cs) (hvs : SpellsItems false vs ds) :
    SpellsItems first (v :: vs) (l ++ (cs ++ ds))

inductive SpellsMembers : Bool → List (String × Value) → List Char → Prop where
  | close (first : Bool) {b : List Char} (hb : Blank b) : SpellsMembers first [] (b ++ ['\x7d'])
  | member {first : Bool} {k : String} {v : Value} {ms : List (String × Value)}
    {l b b' cs ds : List Char} (hl : Lead first l) (hb : Blank b) (hb' : Blank b')
    (hv : Spells v cs) (hms : SpellsMembers false ms ds) :
    SpellsMembers first ((k, v) :: ms) (l ++ (writeText k ++ (b ++ ':' :: (b' ++ (cs ++ ds)))))

end

mutual

def Value.draft : Value → Draft
  | .null => .null
  | .bool b => .bool b
  | .number n => .number (Numeral.ofNat n).read none
  | .text s => .text (.ok s.toList) none
  | .list vs => .list (draftItems vs)
  | .object ms => .object (draftMembers ms)

def draftItems : List Value → Items
  | [] => .close
  | v :: vs => .item v.draft (draftItems vs)

def draftMembers : List (String × Value) → Members
  | [] => .close
  | (k, v) :: ms => .member (.ok k.toList) none v.draft (draftMembers ms)

end

theorem ends_nil : Ends [] := by
  intro c hc
  cases hc

/-- What can follow a value does not go on a number. -/
theorem ends_cons (hc : isBlank c = true ∨ c = ',' ∨ c = ']' ∨ c = '\x7d') (r : List Char) :
    Ends (c :: r) := by
  intro d hd
  obtain rfl : c = d := Option.some.inj hd
  simp only [isBlank, Bool.or_eq_true, beq_iff_eq] at hc
  obtain (((rfl | rfl) | rfl) | rfl) | rfl | rfl | rfl := hc <;> decide

theorem ends_blank (hb : Blank b) (hr : Ends r) : Ends (b ++ r) := by
  cases b with
  | nil => exact hr
  | cons c b => exact ends_cons (Or.inl (hb c List.mem_cons_self)) _

theorem Lead.ends {l : List Char} (hl : Lead false l) (r : List Char) : Ends (l ++ r) := by
  cases hl with
  | next hb hb' =>
    rw [List.append_assoc]
    exact ends_blank hb (ends_cons (Or.inr (Or.inl rfl)) _)

theorem SpellsItems.ends {vs : List Value} (h : SpellsItems false vs ds) (r : List Char) :
    Ends (ds ++ r) := by
  cases h with
  | close _ hb =>
    rw [List.append_assoc]
    exact ends_blank hb (ends_cons (Or.inr (Or.inr (Or.inl rfl))) _)
  | item hl _ _ =>
    rw [List.append_assoc]
    exact hl.ends _

theorem SpellsMembers.ends {ms : List (String × Value)} (h : SpellsMembers false ms ds)
    (r : List Char) : Ends (ds ++ r) := by
  cases h with
  | close _ hb =>
    rw [List.append_assoc]
    exact ends_blank hb (ends_cons (Or.inr (Or.inr (Or.inr rfl))) _)
  | member hl _ _ _ _ =>
    rw [List.append_assoc]
    exact hl.ends _

theorem skipBlanks_cons (hc : isBlank c = false) (r : List Char) :
    skipBlanks (c :: r) = c :: r := by
  simp [skipBlanks, hc]

theorem ne_of_isDigit (hc : c.isDigit = true) (d : Char) (hd : d.isDigit = false) : c ≠ d := by
  intro he
  rw [he, hd] at hc
  cases hc

theorem isBlank_of_isDigit (hc : c.isDigit = true) : isBlank c = false := by
  simp [isBlank, ne_of_isDigit hc ' ' rfl, ne_of_isDigit hc '\n' rfl, ne_of_isDigit hc '\t' rfl,
    ne_of_isDigit hc '\r' rfl]

/-- A digit starts a number and nothing else. -/
theorem readValue_digit (n : Nat) (hc : c.isDigit = true) (r : List Char) :
    readValue (n + 1) (c :: r) = readNumber false (c :: r) := by
  rw [readValue, skipBlanks_cons (isBlank_of_isDigit hc)]
  simp [ne_of_isDigit hc 'n' rfl, ne_of_isDigit hc 't' rfl, ne_of_isDigit hc 'f' rfl,
    ne_of_isDigit hc '"' rfl, ne_of_isDigit hc '-' rfl, digit?_of_isDigit hc]

/-- A spelling starts with a character that opens a value. -/
theorem Spells.head (h : Spells v cs) : ∃ c r, cs = c :: r ∧ isBlank c = false ∧ c ≠ ']' := by
  cases h with
  | null => exact ⟨_, _, rfl, by decide, by decide⟩
  | yes => exact ⟨_, _, rfl, by decide, by decide⟩
  | no => exact ⟨_, _, rfl, by decide, by decide⟩
  | number n =>
    obtain ⟨c, r, hc, hdigit⟩ := toDigits_cons n
    exact ⟨c, r, hc, isBlank_of_isDigit hdigit, ne_of_isDigit hdigit ']' rfl⟩
  | text s => exact ⟨_, _, rfl, by decide, by decide⟩
  | list _ => exact ⟨_, _, rfl, by decide, by decide⟩
  | object _ => exact ⟨_, _, rfl, by decide, by decide⟩

theorem Spells.length_pos (h : Spells v cs) : 0 < cs.length := by
  obtain ⟨c, r, rfl, -⟩ := h.head
  exact Nat.succ_pos _

theorem SpellsItems.length_pos {vs : List Value} (h : SpellsItems first vs cs) :
    0 < cs.length := by
  cases h with
  | close _ _ => simp
  | item _ hv _ =>
    have hpos := hv.length_pos
    simp only [List.length_append]
    omega

theorem SpellsMembers.length_pos {ms : List (String × Value)} (h : SpellsMembers first ms cs) :
    0 < cs.length := by
  cases h with
  | close _ _ => simp
  | member _ _ _ _ _ =>
    simp only [List.length_append, List.length_cons]
    omega

/-- An item is read behind all that leads to it. -/
theorem readItems_item {n : Nat} {l : List Char} (hl : Lead first l) (hv : Spells v cs)
    (r : List Char) : readItems (n + 1) first (l ++ (cs ++ r)) =
      (.item (readValue n (cs ++ r)).1 (readItems n false (readValue n (cs ++ r)).2).1,
        (readItems n false (readValue n (cs ++ r)).2).2) := by
  obtain ⟨c, cs, rfl, hc, hclose⟩ := hv.head
  cases hl with
  | first hb =>
    rw [readItems, skipBlanks_append hb, List.cons_append, skipBlanks_cons hc]
    simp [hclose]
  | next hb hb' =>
    rw [List.append_assoc, readItems, skipBlanks_append hb, List.cons_append,
      skipBlanks_cons (by decide)]
    simp [readValue_blank n hb']

theorem readMembers_member {n : Nat} {l : List Char} (hl : Lead first l) (r : List Char) :
    readMembers (n + 1) first (l ++ '"' :: r) = readMember n ('"' :: r) := by
  cases hl with
  | first hb =>
    rw [readMembers, skipBlanks_append hb, skipBlanks_cons (by decide)]
    simp
  | next hb hb' =>
    rw [List.append_assoc, readMembers, skipBlanks_append hb, List.cons_append,
      skipBlanks_cons (by decide)]
    simp [readMember_blank n hb']

/-- A member is read behind all that leads to it: first its key and then its value. -/
theorem readMembers_key {n : Nat} {l : List Char} (hl : Lead first l) (k : String) (hb : Blank b)
    (r : List Char) : readMembers (n + 2) first (l ++ (writeText k ++ (b ++ ':' :: r))) =
      (.member (.ok k.toList) none (readValue n r).1 (readMembers n false (readValue n r).2).1,
        (readMembers n false (readValue n r).2).2) := by
  have htext := readText_written k.toList (b ++ ':' :: r)
  have hcolon : skipBlanks (b ++ ':' :: r) = ':' :: r := by
    rw [skipBlanks_append hb, skipBlanks_cons (by decide)]
  rw [writeText, List.cons_append, List.cons_append, readMembers_member hl, List.append_assoc,
    List.singleton_append, readMember, skipBlanks_cons (by decide)]
  simp [htext, hcolon]

mutual

/-- Whatever the layout, the reader finds the draft of the value. -/
theorem readValue_spells {v : Value} {cs rest : List Char} {n : Nat} (h : Spells v cs)
    (hn : cs.length ≤ n) (hrest : Ends rest) : readValue n (cs ++ rest) = (v.draft, rest) := by
  obtain ⟨n, rfl⟩ := Nat.exists_eq_add_one.mpr (Nat.lt_of_lt_of_le h.length_pos hn)
  cases h with
  | null => simp [readValue, skipBlanks, isBlank, readWord, Value.draft]
  | yes => simp [readValue, skipBlanks, isBlank, readWord, Value.draft]
  | no => simp [readValue, skipBlanks, isBlank, readWord, Value.draft]
  | number m =>
    obtain ⟨c, r, hc, hdigit⟩ := toDigits_cons m
    have hread := readNumber_digits m hrest
    rw [hc, List.cons_append] at hread ⊢
    rw [readValue_digit n hdigit, hread, Value.draft]
    rfl
  | text s =>
    have htext := readText_written s.toList rest
    simp [readValue, writeText, skipBlanks, isBlank, htext, Value.draft]
  | list h =>
    have hitems := readItems_spells h (Nat.le_of_succ_le_succ hn) rest
    simp [readValue, skipBlanks, isBlank, digit?, hitems, Value.draft]
  | object h =>
    have hmembers := readMembers_spells h (Nat.le_of_succ_le_succ hn) rest
    simp [readValue, skipBlanks, isBlank, digit?, hmembers, Value.draft]

theorem readItems_spells {first : Bool} {vs : List Value} {cs : List Char} {n : Nat}
    (h : SpellsItems first vs cs) (hn : cs.length ≤ n) (rest : List Char) :
    readItems n first (cs ++ rest) = (draftItems vs, rest) := by
  obtain ⟨n, rfl⟩ := Nat.exists_eq_add_one.mpr (Nat.lt_of_lt_of_le h.length_pos hn)
  cases h with
  | close first hb =>
    rw [List.append_assoc, readItems, skipBlanks_append hb]
    simp [skipBlanks, isBlank, draftItems]
  | item hl hv hvs =>
    have hv₀ := hv.length_pos
    have hvs₀ := hvs.length_pos
    simp only [List.length_append] at hn
    have hvalue := readValue_spells hv (n := n) (by omega) (hvs.ends rest)
    have hitems := readItems_spells hvs (n := n) (by omega) rest
    rw [List.append_assoc, List.append_assoc, readItems_item hl hv, hvalue]
    simp only [hitems, draftItems]

theorem readMembers_spells {first : Bool} {ms : List (String × Value)} {cs : List Char} {n : Nat}
    (h : SpellsMembers first ms cs) (hn : cs.length ≤ n) (rest : List Char) :
    readMembers n first (cs ++ rest) = (draftMembers ms, rest) := by
  cases h with
  | close first hb =>
    have hpos : 0 < n := by
      rw [List.length_append] at hn
      exact Nat.lt_of_lt_of_le (Nat.succ_pos _) hn
    obtain ⟨n, rfl⟩ := Nat.exists_eq_add_one.mpr hpos
    rw [List.append_assoc, readMembers, skipBlanks_append hb]
    simp [skipBlanks, isBlank, draftMembers]
  | member hl hb hb' hv hms =>
    have hms₀ := hms.length_pos
    simp only [writeText, List.length_append, List.length_cons] at hn
    obtain ⟨n, rfl⟩ : ∃ m, n = m + 2 := ⟨n - 2, by omega⟩
    have hvalue := readValue_spells hv (n := n) (by omega) (hms.ends rest)
    have hmembers := readMembers_spells hms (n := n) (by omega) rest
    simp only [List.append_assoc, List.cons_append]
    rw [readMembers_key hl _ hb, readValue_blank n hb', hvalue]
    simp only [hmembers, draftMembers]

end

theorem blank_nil : Blank [] := by
  intro c hc
  cases hc

theorem blank_space : Blank [' '] := by
  intro c hc
  obtain rfl := List.mem_singleton.mp hc
  decide

theorem blank_newline (level : Nat) : Blank (newline level) := by
  intro c hc
  simp only [newline, List.mem_cons, List.mem_replicate] at hc
  obtain rfl | ⟨-, rfl⟩ := hc
  · decide
  · decide

mutual

/-- The written form is a spelling. -/
theorem spells_write (level : Nat) (v : Value) : Spells v (v.write level) := by
  match v with
  | .null => exact .null
  | .bool true => exact .yes
  | .bool false => exact .no
  | .number n => exact .number n
  | .text s => exact .text s
  | .list [] => exact .list (.close true blank_nil)
  | .list (v :: vs) =>
    have h := Spells.list (.item (.first (blank_newline (level + 1))) (spells_write (level + 1) v)
      (spellsItems_write level vs))
    simpa [Value.write] using h
  | .object [] => exact .object (.close true blank_nil)
  | .object ((k, v) :: ms) =>
    have h := Spells.object (.member (k := k) (.first (blank_newline (level + 1))) blank_nil
      blank_space (spells_write (level + 1) v) (spellsMembers_write level ms))
    simpa [Value.write, writeMember] using h

theorem spellsItems_write (level : Nat) (vs : List Value) :
    SpellsItems false vs (writeItems (level + 1) vs ++ (newline level ++ [']'])) := by
  match vs with
  | [] => exact .close false (blank_newline level)
  | v :: vs =>
    have h := SpellsItems.item (.next blank_nil (blank_newline (level + 1)))
      (spells_write (level + 1) v) (spellsItems_write level vs)
    simpa [writeItems] using h

theorem spellsMembers_write (level : Nat) (ms : List (String × Value)) :
    SpellsMembers false ms (writeMembers (level + 1) ms ++ (newline level ++ ['\x7d'])) := by
  match ms with
  | [] => exact .close false (blank_newline level)
  | (k, v) :: ms =>
    have h := SpellsMembers.member (k := k) (.next blank_nil (blank_newline (level + 1)))
      blank_nil blank_space (spells_write (level + 1) v) (spellsMembers_write level ms)
    simpa [writeMembers, writeMember] using h

end

/-- A text that spells a value holds that value and nothing else. -/
theorem read_spells {s : String} (h : Spells v s.toList) :
    Document.read s = { value := v.draft, trailing := none } := by
  have hread := readValue_spells (n := 3 * s.toList.length + 3) h (by omega) ends_nil
  rw [List.append_nil] at hread
  simp only [Document.read, hread]
  rfl

theorem spells_render (v : Value) : Spells v v.render.toList := by
  rw [Value.render, String.toList_ofList]
  exact spells_write 0 v

end Inspector.Json
