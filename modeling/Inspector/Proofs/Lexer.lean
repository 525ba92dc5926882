import Inspector.Proofs.Lines

/-! Reading generated code token by token. The reader knows words, string literals with backslash
escapes, line comments and single marks. It moves from character to character and stops only where
a literal meets the end of its line. On the tokens it can be told whether brackets are nested and
whether the formats of calls fit the arguments behind them. -/
namespace Inspector.Lexer

/-- Words are names, also qualified ones, and numbers. A literal is given by what stands between its
quotes. -/
inductive Token where
  | word (text : List Char)
  | literal (text : List Char)
  | mark (c : Char)
  deriving DecidableEq, Inhabited, Repr

inductive Mode where
  | code
  | word (read : List Char)
  | slash
  | literal (read : List Char)
  | escape (read : List Char)
  | comment
  deriving DecidableEq, Inhabited, Repr

def isWordChar (c : Char) : Bool := c.isAlphanum || c == '_' || c == ':'

def start (c : Char) : List Token × Mode :=
  if isWordChar c then ([], .word [c])
  else if c = '"' then ([], .literal [])
  else if c = '/' then ([], .slash)
  else if c.isWhitespace then ([], .code)
  else ([.mark c], .code)

/-- Reads a character: the tokens that end before or with it, and what is going on behind it. A
literal has to end in its line. -/
def step : Mode → Char → Option (List Token × Mode)
  | .code, c => some (start c)
  | .word read, c =>
    if isWordChar c then some ([], .word (read ++ [c]))
    else some (.word read :: (start c).1, (start c).2)
  | .slash, c =>
    if c = '/' then some ([], .comment) else some (.mark '/' :: (start c).1, (start c).2)
  | .literal read, c =>
    if c = '\n' then none
    else if c = '"' then some ([.literal read], .code)
    else if c = '\\' then some ([], .escape (read ++ [c]))
    else some ([], .literal (read ++ [c]))
  | .escape read, c => if c = '\n' then none else some ([], .literal (read ++ [c]))
  | .comment, c => some ([], if c = '\n' then .code else .comment)

def run : Mode → List Char → Option (List Token × Mode)
  | m, [] => some ([], m)
  | m, c :: cs =>
    match step m c with
    | none => none
    | some (ts, m') => (run m' cs).map fun r => (ts ++ r.1, r.2)

def Reads (m : Mode) (s : String) (ts : List Token) (m' : Mode) : Prop :=
  run m s.toList = some (ts, m')

instance (m : Mode) (s : String) (ts : List Token) (m' : Mode) : Decidable (Reads m s ts m') :=
  inferInstanceAs (Decidable (_ = _))

def Mode.InLiteral : Mode → Prop
  | literal _ | escape _ => True
  | _ => False

/-- A literal that does not end in its line is the only thing that cannot be read. -/
theorem step_eq_none_iff (m : Mode) (c : Char) : step m c = none ↔ c = '\n' ∧ m.InLiteral := by
  cases m <;> grind [step, Mode.InLiteral]

theorem run_cons_iff {m m'' : Mode} {c : Char} {cs : List Char} {ts : List Token} :
    run m (c :: cs) = some (ts, m'') ↔
      ∃ us m' vs, step m c = some (us, m') ∧ run m' cs = some (vs, m'') ∧ ts = us ++ vs := by
  rw [run]
  cases hstep : step m c with
  | none => simp
  | some r =>
    constructor
    · intro h
      obtain ⟨q, hrun, hq⟩ := Option.map_eq_some_iff.mp h
      cases hq
      exact ⟨r.1, r.2, q.1, rfl, hrun, rfl⟩
    · rintro ⟨us, m', vs, hr, hrun, rfl⟩
      cases hr
      exact Option.map_eq_some_iff.mpr ⟨_, hrun, rfl⟩

theorem run_append {m m' m'' : Mode} {a b : List Char} {ts us : List Token}
    (ha : run m a = some (ts, m')) (hb : run m' b = some (us, m'')) :
    run m (a ++ b) = some (ts ++ us, m'') := by
  induction a generalizing m ts with
  | nil =>
    cases ha
    exact hb
  | cons c cs ih =>
    obtain ⟨first, k, rest, hstep, hrun, rfl⟩ := run_cons_iff.mp ha
    rw [List.cons_append, run_cons_iff]
    exact ⟨first, k, rest ++ us, hstep, ih hrun, List.append_assoc _ _ _⟩

/-- In a text that can be read every line ends outside of literals. -/
theorem outside_at_line_end {m m' : Mode} {front back : List Char} {ts : List Token}
    (h : run m (front ++ '\n' :: back) = some (ts, m')) :
    ∃ us k, run m front = some (us, k) ∧ ¬ k.InLiteral := by
  induction front generalizing m ts with
  | nil =>
    obtain ⟨us, k, _, hstep, _⟩ := run_cons_iff.mp h
    refine ⟨[], m, rfl, ?_⟩
    intro hin
    rw [(step_eq_none_iff m '\n').mpr ⟨rfl, hin⟩] at hstep
    cases hstep
  | cons c cs ih =>
    obtain ⟨us, k, vs, hstep, hrun, _⟩ := run_cons_iff.mp h
    obtain ⟨ws, k', hfront, hout⟩ := ih hrun
    exact ⟨us ++ ws, k', run_cons_iff.mpr ⟨us, k, ws, hstep, hfront, rfl⟩, hout⟩

theorem Reads.append {m m' m'' : Mode} {a b : String} {ts us : List Token}
    (ha : Reads m a ts m') (hb : Reads m' b us m'') : Reads m (a ++ b) (ts ++ us) m'' := by
  rw [Reads, String.toList_append]
  exact run_append ha hb

def IsWord (s : String) : Prop := s.toList ≠ [] ∧ ∀ c ∈ s.toList, isWordChar c = true

instance (s : String) : Decidable (IsWord s) := @instDecidableAnd _ _ _ (List.decidableBAll _ _)

def Plain (s : String) : Prop := ∀ c ∈ s.toList, c ≠ '"' ∧ c ≠ '\\' ∧ c ≠ '\n'

instance (s : String) : Decidable (Plain s) := List.decidableBAll _ _

theorem IsWord.append {a b : String} (ha : IsWord a) (hb : IsWord b) : IsWord (a ++ b) := by
  rw [IsWord, String.toList_append]
  refine ⟨?_, List.forall_mem_append.mpr ⟨ha.2, hb.2⟩⟩
  simp [ha.1]

theorem Plain.append {a b : String} (ha : Plain a) (hb : Plain b) : Plain (a ++ b) := by
  rw [Plain, String.toList_append]
  exact List.forall_mem_append.mpr ⟨ha, hb⟩

theorem run_word {cs : List Char} (h : ∀ c ∈ cs, isWordChar c = true) (read : List Char) :
    run (.word read) cs = some ([], .word (read ++ cs)) := by
  induction cs generalizing read with
  | nil => simp [run]
  | cons c cs ih =>
    obtain ⟨hc, hcs⟩ := List.forall_mem_cons.mp h
    refine run_cons_iff.mpr ⟨[], .word (read ++ [c]), [], by simp [step, hc], ?_, rfl⟩
    simpa using ih hcs (read ++ [c])

theorem IsWord.reads {s : String} (h : IsWord s) : Reads .code s [] (.word s.toList) := by
  obtain ⟨hne, hall⟩ := h
  unfold Reads
  cases hs : s.toList with
  | nil => exact absurd hs hne
  | cons c cs =>
    rw [hs] at hall
    obtain ⟨hc, hcs⟩ := List.forall_mem_cons.mp hall
    exact run_cons_iff.mpr ⟨[], .word [c], [], by simp [step, start, hc], run_word hcs [c], rfl⟩

/-- A text that does not go on with a word ends it and is read as if none had been there. -/
theorem Reads.behindWord {s : String} {ts : List Token} {m : Mode} (h : Reads .code s ts m)
    (hs : s.toList.head?.any (fun c => !isWordChar c) = true) (read : List Char) :
    Reads (.word read) s (.word read :: ts) m := by
  unfold Reads at h ⊢
  cases htext : s.toList with
  | nil => simp [htext] at hs
  | cons c cs =>
    have hc : isWordChar c = false := by simpa [htext] using hs
    rw [htext] at h
    obtain ⟨us, m', vs, hstep, hrun, rfl⟩ := run_cons_iff.mp h
    have hstart : start c = (us, m') := Option.some.inj hstep
    refine run_cons_iff.mpr ⟨.word read :: us, m', vs, ?_, hrun, rfl⟩
    simp [step, hc, hstart]

theorem run_literal {cs : List Char} (h : ∀ c ∈ cs, c ≠ '"' ∧ c ≠ '\\' ∧ c ≠ '\n')
    (read : List Char) : run (.literal read) cs = some ([], .literal (read ++ cs)) := by
  induction cs generalizing read with
  | nil => simp [run]
  | cons c cs ih =>
    obtain ⟨hc, hcs⟩ := List.forall_mem_cons.mp h
    refine run_cons_iff.mpr ⟨[], .literal (read ++ [c]), [], by simp [step, hc], ?_, rfl⟩
    simpa using ih hcs (read ++ [c])

theorem Plain.reads {s : String} (h : Plain s) (read : List Char) :
    Reads (.literal read) s [] (.literal (read ++ s.toList)) :=
  run_literal h read

theorem step_literal {c : Char} (h : c ≠ '"' ∧ c ≠ '\\' ∧ c ≠ '\n') (w : List Char) :
    step (.literal w) c = some ([], .literal (w ++ [c])) := by
  simp [step, h]

theorem step_escape {c : Char} (h : c ≠ '\n') (w : List Char) :
    step (.escape w) c = some ([], .literal (w ++ [c])) := by
  simp [step, h]

/-- How a literal ends does not hang on what it holds so far. -/
theorem run_behindLiteral {cs text : List Char} {ts : List Token} {m : Mode} (front : List Char) :
    (∀ w, run (.literal w) cs = some (.literal text :: ts, m) →
      run (.literal (front ++ w)) cs = some (.literal (front ++ text) :: ts, m)) ∧
    ∀ w, run (.escape w) cs = some (.literal text :: ts, m) →
      run (.escape (front ++ w)) cs = some (.literal (front ++ text) :: ts, m) := by
  induction cs with
  | nil => simp [run]
  | cons c cs ih =>
    obtain ⟨ihLiteral, ihEscape⟩ := ih
    constructor
    · intro w h
      obtain ⟨us, m', vs, hstep, hrun, hts⟩ := run_cons_iff.mp h
      rw [run_cons_iff]
      by_cases hquote : c = '"'
      · subst hquote
        cases hstep
        cases hts
        exact ⟨[.literal (front ++ text)], .code, _, rfl, hrun, rfl⟩
      by_cases hslash : c = '\\'
      · subst hslash
        cases hstep
        cases hts
        exact ⟨[], .escape (front ++ w ++ ['\\']), _, rfl,
          List.append_assoc front w _ ▸ ihEscape _ hrun, rfl⟩
      · have hline : c ≠ '\n' := by
          intro hline
          subst hline
          cases hstep
        rw [step_literal ⟨hquote, hslash, hline⟩] at hstep
        cases hstep
        cases hts
        exact ⟨[], .literal (front ++ w ++ [c]), _, step_literal ⟨hquote, hslash, hline⟩ _,
          List.append_assoc front w _ ▸ ihLiteral _ hrun, rfl⟩
    · intro w h
      obtain ⟨us, m', vs, hstep, hrun, hts⟩ := run_cons_iff.mp h
      have hline : c ≠ '\n' := by
        intro hline
        subst hline
        cases hstep
      rw [step_escape hline] at hstep
      cases hstep
      cases hts
      rw [run_cons_iff]
      exact ⟨[], .literal (front ++ w ++ [c]), _, step_escape hline _,
        List.append_assoc front w _ ▸ ihLiteral _ hrun, rfl⟩

theorem Reads.behindLiteral {s : String} {text : List Char} {ts : List Token} {m : Mode}
    (h : Reads (.literal []) s (.literal text :: ts) m) (w : List Char) :
    Reads (.literal w) s (.literal (w ++ text) :: ts) m := by
  have hread := (run_behindLiteral w).1 [] h
  rwa [List.append_nil] at hread

theorem run_comment {cs : List Char} (h : '\n' ∉ cs) : run .comment cs = some ([], .comment) := by
  induction cs with
  | nil => rfl
  | cons c cs ih =>
    rw [List.mem_cons, not_or] at h
    exact run_cons_iff.mpr ⟨[], .comment, [], by simp [step, Ne.symm h.1], ih h.2, rfl⟩

/-- A name stands between two texts. -/
theorem Reads.name {m m' : Mode} {a w b : String} {ts us : List Token} (ha : Reads m a ts .code)
    (hw : IsWord w) (hb : Reads .code b us m')
    (hend : b.toList.head?.any (fun c => !isWordChar c) = true) :
    Reads m (a ++ w ++ b) (ts ++ .word w.toList :: us) m' := by
  have hread := (ha.append hw.reads).append (hb.behindWord hend _)
  rwa [List.append_nil] at hread

/-- A plain text stands in a literal, next to the quote that opens it. -/
theorem Reads.quoted {m m' : Mode} {a p b : String} {text : List Char} {ts us : List Token}
    (ha : Reads m a ts (.literal [])) (hp : Plain p)
    (hb : Reads (.literal []) b (.literal text :: us) m') :
    Reads m (a ++ p ++ b) (ts ++ .literal (p.toList ++ text) :: us) m' := by
  have hread := (ha.append (hp.reads [])).append (hb.behindLiteral _)
  rwa [List.append_nil] at hread

/-! ### Brackets -/

/-- The brackets that are open behind a mark, the last one first. There is no such list if the mark
closes another bracket than the last one. -/
def nestMark (stack : List Char) (c : Char) : Option (List Char) :=
  if c = '(' ∨ c = '\x7b' then some (c :: stack)
  else if c = ')' then if stack.head? = some '(' then some stack.tail else none
  else if c = '\x7d' then if stack.head? = some '\x7b' then some stack.tail else none
  else some stack

def nest : List Char → List Token → Option (List Char)
  | stack, [] => some stack
  | stack, .mark c :: ts => (nestMark stack c).bind fun stack' => nest stack' ts
  | stack, .word _ :: ts => nest stack ts
  | stack, .literal _ :: ts => nest stack ts

theorem nest_append (stack : List Char) (ts us : List Token) :
    nest stack (ts ++ us) = (nest stack ts).bind fun stack' => nest stack' us := by
  induction ts generalizing stack with
  | nil => rfl
  | cons t ts ih =>
    cases t with
    | word text => exact ih stack
    | literal text => exact ih stack
    | mark c =>
      simp only [List.cons_append, nest, ih, Option.bind_assoc]

theorem nestMark_within {stack stack' : List Char} {c : Char}
    (h : nestMark stack c = some stack') (outer : List Char) :
    nestMark (stack ++ outer) c = some (stack' ++ outer) := by
  cases stack <;> grind [nestMark]

/-- Brackets that are open around the tokens stay open. -/
theorem nest_within {stack stack' : List Char} {ts : List Token} (h : nest stack ts = some stack')
    (outer : List Char) : nest (stack ++ outer) ts = some (stack' ++ outer) := by
  induction ts generalizing stack with
  | nil =>
    cases h
    rfl
  | cons t ts ih =>
    cases t with
    | word text => exact ih h
    | literal text => exact ih h
    | mark c =>
      obtain ⟨next, hmark, hrest⟩ := Option.bind_eq_some_iff.mp h
      rw [nest, nestMark_within hmark]
      exact ih hrest

def Nested (ts : List Token) : Prop := nest [] ts = some []

instance (ts : List Token) : Decidable (Nested ts) := inferInstanceAs (Decidable (_ = _))

theorem Nested.nest {ts : List Token} (h : Nested ts) (stack : List Char) :
    nest stack ts = some stack :=
  nest_within h stack

theorem Nested.append {ts us : List Token} (ht : Nested ts) (hu : Nested us) :
    Nested (ts ++ us) := by
  rw [Nested, nest_append, ht]
  exact hu

/-- Between braces nested tokens leave the first brace open, however far they are read. -/
theorem Nested.open_within {front back : List Token} (h : Nested (front ++ back)) (c : Char) :
    ∃ stack, Lexer.nest [c] front = some (stack ++ [c]) := by
  rw [Nested, nest_append] at h
  obtain ⟨stack, hfront, -⟩ := Option.bind_eq_some_iff.mp h
  exact ⟨stack, nest_within hfront [c]⟩

/-! ### Calls with a format -/

def conversions : List Char → Nat
  | [] => 0
  | '%' :: '%' :: cs => conversions cs
  | c :: cs => if c = '%' then conversions cs + 1 else conversions cs

theorem conversions_append {cs : List Char} (h : '%' ∉ cs) (ds : List Char) :
    conversions (cs ++ ds) = conversions ds := by
  induction cs with
  | nil => rfl
  | cons c cs ih =>
    rw [List.mem_cons, not_or] at h
    simp [conversions, Ne.symm h.1, ih h.2]

/-- The arguments of a call, read behind its opening parenthesis up to the one that closes it.
`depth` counts the parentheses that are open within an argument. -/
def arguments? : Nat → List Token → Option (List (List Token))
  | _, [] => none
  | depth, t :: ts =>
    if depth = 0 ∧ t = .mark ')' then some [[]]
    else if depth = 0 ∧ t = .mark ',' then (arguments? 0 ts).map ([] :: ·)
    else
      let depth' :=
        if t = .mark '(' then depth + 1 else if t = .mark ')' then depth - 1 else depth
      (arguments? depth' ts).map (List.modifyHead (t :: ·))

theorem arguments?_append {depth : Nat} {ts : List Token} {args : List (List Token)}
    (h : arguments? depth ts = some args) (us : List Token) :
    arguments? depth (ts ++ us) = some args := by
  induction ts generalizing depth args with
  | nil => cases h
  | cons t ts ih =>
    simp only [List.cons_append, arguments?] at h ⊢
    split
    · next hclose => rwa [if_pos hclose] at h
    · next hclose =>
      rw [if_neg hclose] at h
      split
      · next hcomma =>
        rw [if_pos hcomma] at h
        obtain ⟨rest, hrest, rfl⟩ := Option.map_eq_some_iff.mp h
        rw [ih hrest]
        rfl
      · next hcomma =>
        rw [if_neg hcomma] at h
        obtain ⟨rest, hrest, rfl⟩ := Option.map_eq_some_iff.mp h
        rw [ih hrest]
        rfl

/-- Behind the opening parenthesis stands a format, and behind that one argument for each value that
the format asks for. -/
def FormatFits (ts : List Token) : Prop :=
  ∃ format args, arguments? 0 ts = some ([.literal format] :: args) ∧ [] ∉ args ∧
    args.length = conversions format

theorem FormatFits.append {ts : List Token} (h : FormatFits ts) (us : List Token) :
    FormatFits (ts ++ us) := by
  obtain ⟨format, args, hargs, hrest⟩ := h
  exact ⟨format, args, arguments?_append hargs us, hrest⟩

def formatted : List Token := [.word "printf".toList, .word "ImGui::Text".toList]

def FormatsFit : List Token → Prop
  | [] => True
  | t :: ts => (t ∈ formatted → ∀ rest, ts = .mark '(' :: rest → FormatFits rest) ∧ FormatsFit ts

@[simp] theorem formatsFit_nil : FormatsFit [] := True.intro

@[simp] theorem formatsFit_mark (c : Char) (ts : List Token) :
    FormatsFit (.mark c :: ts) ↔ FormatsFit ts := by
  simp [FormatsFit, formatted]

@[simp] theorem formatsFit_literal (text : List Char) (ts : List Token) :
    FormatsFit (.literal text :: ts) ↔ FormatsFit ts := by
  simp [FormatsFit, formatted]

@[simp] theorem formatsFit_word {t : Token} (h : t ≠ .mark '(') (w : List Char) (ts : List Token) :
    FormatsFit (.word w :: t :: ts) ↔ FormatsFit (t :: ts) := by
  rw [FormatsFit]
  simp [h]

@[simp] theorem formatsFit_call {w : List Char} (h : .word w ∉ formatted) (ts : List Token) :
    FormatsFit (.word w :: .mark '(' :: ts) ↔ FormatsFit ts := by
  rw [FormatsFit]
  simp [h]

theorem FormatFits.formatsFit {ts : List Token} (h : FormatFits ts) (hts : FormatsFit ts)
    (w : List Char) : FormatsFit (.word w :: .mark '(' :: ts) := by
  refine ⟨?_, (formatsFit_mark _ _).mpr hts⟩
  rintro - rest hrest
  cases hrest
  exact h

def EndsCall (ts : List Token) : Prop := ∀ w, ts.getLast? ≠ some (.word w)

theorem not_formatted_of_endsCall {t : Token} (h : EndsCall [t]) : t ∉ formatted := by
  intro ht
  cases t with
  | word text => exact h text rfl
  | literal text => simp [formatted] at ht
  | mark c => simp [formatted] at ht

theorem FormatsFit.append {ts us : List Token} (ht : FormatsFit ts) (hend : EndsCall ts)
    (hu : FormatsFit us) : FormatsFit (ts ++ us) := by
  induction ts with
  | nil => exact hu
  | cons t ts ih =>
    obtain ⟨hcall, hrest⟩ := ht
    cases ts with
    | nil => exact ⟨fun hmem => absurd hmem (not_formatted_of_endsCall hend), hu⟩
    | cons t' ts =>
      have hend' : EndsCall (t' :: ts) := by
        intro w
        have hlast := hend w
        rwa [List.getLast?_cons_cons] at hlast
      refine ⟨?_, ih hrest hend'⟩
      intro hmem rest hparen
      obtain ⟨rfl, rfl⟩ := List.cons.inj hparen
      exact (hcall hmem ts rfl).append us

structure Sound (ts : List Token) : Prop where
  fits : FormatsFit ts
  ends : EndsCall ts

theorem Sound.append {ts us : List Token} (ht : Sound ts) (hu : Sound us) : Sound (ts ++ us) := by
  refine ⟨ht.fits.append ht.ends hu.fits, ?_⟩
  intro w hlast
  rw [List.getLast?_append] at hlast
  cases hus : us.getLast? with
  | none =>
    rw [hus] at hlast
    exact ht.ends w hlast
  | some t =>
    rw [hus] at hlast
    exact hu.ends w (hus.trans hlast)

/-- A call with nothing but a format that asks for no value. -/
theorem sound_print (w : List Char) {text : List Char} (h : conversions text = 0) :
    Sound [.word w, .mark '(', .literal text, .mark ')', .mark ';'] := by
  have hfits : FormatFits [.literal text, .mark ')', .mark ';'] := ⟨text, [], rfl, by simp, h.symm⟩
  exact ⟨hfits.formatsFit (by simp) w, by simp [EndsCall]⟩

end Inspector.Lexer
