import Inspector.Proofs.ClassBody
import Inspector.Proofs.Expansion

/-! A pattern read from left to right, token by token. The items of a pattern are what its tokens
say, so a text is accepted if and only if it can be cut into pieces, one for each token. -/
namespace Inspector.Glob

open Inspector.Glob.CharClass (bodyAdmits inside ranges)

/-- What a scan of a pattern finds. The body of a class comes without its `!`. -/
inductive Token where
  | char (c : Char)
  | one
  | star
  | deep
  | folders
  | cls (negated : Bool) (body : List Char)
  deriving DecidableEq, Inhabited, Repr

def Token.ofInside : List Char → Token
  | '!' :: body => .cls true body
  | body => .cls false body

/-- The tokens of a pattern. A bracket is closed by the first one that can close it, and stands for
itself if there is none. -/
def tokens : List Char → List Token
  | [] => []
  | '*' :: '*' :: '/' :: cs => .folders :: tokens cs
  | '*' :: '*' :: cs => .deep :: tokens cs
  | '*' :: cs => .star :: tokens cs
  | '?' :: cs => .one :: tokens cs
  | '[' :: cs =>
    if ']' ∈ cs then
      .ofInside (cs.takeWhile (· ≠ ']')) :: tokens (cs.dropWhile (· ≠ ']')).tail
    else .char '[' :: tokens cs
  | c :: cs => .char c :: tokens cs
termination_by cs => cs.length
decreasing_by
  all_goals simp only [List.length_cons, List.length_tail]
  all_goals try omega
  have hle := (List.dropWhile_sublist (l := cs) (· ≠ ']')).length_le
  omega

def Token.Takes : Token → List Char → Prop
  | .char c, u => u = [c]
  | .one, u => ∃ c, u = [c] ∧ c ≠ '/'
  | .star, u => '/' ∉ u
  | .deep, u => '\n' ∉ u
  | .folders, u => u = [] ∨ '\n' ∉ u ∧ u.getLast? = some '/'
  | .cls negated body, u => ∃ c, u = [c] ∧ bodyAdmits body c ≠ negated

inductive Token.Means : Token → Item → Prop where
  | char (c : Char) : Means (.char c) (.char c)
  | one : Means .one .one
  | star : Means .star .star
  | deep : Means .deep .deep
  | folders : Means .folders .folders
  | cls {negated : Bool} {body : List Char} {k : CharClass}
      (h : ∀ c, k.admits c = (bodyAdmits body c != negated)) : Means (.cls negated body) (.cls k)

variable {cs : List Char} {p : Pattern}

theorem Token.Means.takes_iff {tok : Token} {i : Item} (h : tok.Means i) (u : List Char) :
    i.Takes u ↔ tok.Takes u := by
  constructor
  · intro hu
    cases hu with
    | char c =>
      cases h
      exact rfl
    | one hc =>
      cases h
      exact ⟨_, rfl, hc⟩
    | star hu =>
      cases h
      exact hu
    | deep hu =>
      cases h
      exact hu
    | noFolders =>
      cases h
      exact Or.inl rfl
    | folders hu =>
      cases h
      exact Or.inr ⟨by simpa using hu, by simp⟩
    | cls hc =>
      cases h with
      | cls hk =>
        rw [hk] at hc
        exact ⟨_, rfl, by simpa using hc⟩
  · intro hu
    cases h with
    | char c =>
      obtain rfl : u = [c] := hu
      exact .char c
    | one =>
      obtain ⟨c, rfl, hc⟩ := hu
      exact .one hc
    | star => exact .star hu
    | deep => exact .deep hu
    | folders =>
      obtain rfl | ⟨hline, hlast⟩ := hu
      · exact .noFolders
      · obtain ⟨v, rfl⟩ := List.getLast?_eq_some_iff.mp hlast
        exact .folders fun hv => hline (List.mem_append_left _ hv)
    | cls hk =>
      obtain ⟨c, rfl, hc⟩ := hu
      exact .cls (by simpa [hk] using hc)

theorem head?_ne {d : Char} (h : ∀ ds, cs = d :: ds → False) : cs.head? ≠ some d := by
  intro he
  obtain ⟨ds, rfl⟩ := List.head?_eq_some_iff.mp he
  exact h ds rfl

theorem Token.means_ofInside {inner : List Char} {k : CharClass}
    (h : CharClass.ofBody? inner = some k) : (Token.ofInside inner).Means (.cls k) := by
  unfold Token.ofInside
  split
  · next body => exact .cls (CharClass.admits_inside true (Or.inl rfl) h)
  · next hbang =>
    exact .cls (CharClass.admits_inside false (Or.inr (head?_ne hbang)) h)

namespace Pattern

theorem parse_deep (h : cs.head? ≠ some '/') :
    parse none ('*' :: '*' :: cs) = (parse none cs).map (.deep :: ·) := by
  cases cs with
  | nil => simp [parse]
  | cons c cs =>
    have hc : c ≠ '/' := fun he => h (by simp [he])
    simp [parse, hc]

/-- Inside a bracket the text up to the first one that closes it is read as its body. -/
theorem parse_inside (body : List Char) {inner : List Char} (h : ']' ∉ inner) (cs : List Char) :
    parse (some body) (inner ++ ']' :: cs) =
      (CharClass.ofBody? (body.reverse ++ inner)).bind fun k =>
        (parse none cs).map (.cls k :: ·) := by
  induction inner generalizing body with
  | nil => simpa using parse_close body cs
  | cons c inner ih =>
    obtain ⟨hc, hinner⟩ := not_or.mp (mt List.mem_cons.mpr h)
    rw [List.cons_append, parse, if_neg (Ne.symm hc), ih (c :: body) hinner]
    simp

theorem parse_class (h : ']' ∈ cs) : parse none ('[' :: cs) =
    (CharClass.ofBody? (cs.takeWhile (· ≠ ']'))).bind fun k =>
      (parse none (cs.dropWhile (· ≠ ']')).tail).map (.cls k :: ·) := by
  obtain ⟨inner, rest, rfl, hinner⟩ := List.eq_append_cons_of_mem h
  have hpass : ∀ c ∈ inner, decide (c ≠ ']') = true :=
    fun c hc => decide_eq_true fun he => hinner (he ▸ hc)
  rw [parse_open h, parse_inside [] hinner, List.takeWhile_append_of_pos hpass,
    List.dropWhile_append_of_pos hpass]
  simp

/-- The items of a pattern are what its tokens say, one by one. -/
theorem means_of_parse (h : parse none cs = some p) : List.Forall₂ Token.Means (tokens cs) p := by
  fun_induction tokens cs generalizing p with
  | case1 =>
    obtain rfl : [] = p := by simpa [parse] using h
    exact .nil
  | case2 cs ih =>
    rw [parse] at h
    obtain ⟨q, hq, rfl⟩ := Option.map_eq_some_iff.mp h
    exact .cons .folders (ih hq)
  | case3 cs hnext ih =>
    rw [parse_deep (head?_ne hnext)] at h
    obtain ⟨q, hq, rfl⟩ := Option.map_eq_some_iff.mp h
    exact .cons .deep (ih hq)
  | case4 cs hslash hnext ih =>
    rw [parse_star (head?_ne hnext)] at h
    obtain ⟨q, hq, rfl⟩ := Option.map_eq_some_iff.mp h
    exact .cons .star (ih hq)
  | case5 cs ih =>
    have hone : parse none ('?' :: cs) = (parse none cs).map (.one :: ·) := by simp [parse]
    rw [hone] at h
    obtain ⟨q, hq, rfl⟩ := Option.map_eq_some_iff.mp h
    exact .cons .one (ih hq)
  | case6 cs hclose ih =>
    rw [parse_class hclose] at h
    obtain ⟨k, hk, h⟩ := Option.bind_eq_some_iff.mp h
    obtain ⟨q, hq, rfl⟩ := Option.map_eq_some_iff.mp h
    exact .cons (Token.means_ofInside hk) (ih hq)
  | case7 cs hclose ih =>
    rw [parse_char (by decide) (by decide) fun hopen => hclose hopen.2] at h
    obtain ⟨q, hq, rfl⟩ := Option.map_eq_some_iff.mp h
    exact .cons (.char '[') (ih hq)
  | case8 c cs hfolders hdeep hstar hone hopen ih =>
    rw [parse_char hstar hone fun h => hopen h.1] at h
    obtain ⟨q, hq, rfl⟩ := Option.map_eq_some_iff.mp h
    exact .cons (.char c) (ih hq)

theorem takes_iff_pieces {text : List Char} :
    p.Takes text ↔ ∃ pieces, List.Forall₂ Item.Takes p pieces ∧ pieces.flatten = text := by
  constructor
  · intro h
    induction h with
    | nil => exact ⟨[], .nil, rfl⟩
    | @cons i p u v hi _ ih =>
      obtain ⟨pieces, hpieces, rfl⟩ := ih
      exact ⟨u :: pieces, .cons hi hpieces, List.flatten_cons⟩
  · rintro ⟨pieces, h, rfl⟩
    induction h with
    | nil => exact .nil
    | cons hi _ ih =>
      rw [List.flatten_cons]
      exact .cons hi ih

end Pattern

theorem forall₂_takes_iff {ts : List Token} (h : List.Forall₂ Token.Means ts p)
    (pieces : List (List Char)) :
    List.Forall₂ Item.Takes p pieces ↔ List.Forall₂ Token.Takes ts pieces := by
  induction h generalizing pieces with
  | nil => simp
  | cons hi _ ih =>
    cases pieces with
    | nil => simp
    | cons u pieces => rw [List.forall₂_cons, List.forall₂_cons, hi.takes_iff, ih]

/-- A pattern accepts the texts that can be cut into consecutive pieces, one for each of its tokens,
such that every token takes its piece. -/
theorem accepts_iff_pieces (h : Pattern.parse? cs = some p) (text : List Char) :
    p.accepts text = true ↔
      ∃ pieces, List.Forall₂ Token.Takes (tokens cs) pieces ∧ pieces.flatten = text := by
  have hmeans : List.Forall₂ Token.Means (tokens cs) p := Pattern.means_of_parse h
  rw [Pattern.accepts_iff, Pattern.takes_iff_pieces]
  constructor
  · rintro ⟨pieces, hpieces, htext⟩
    exact ⟨pieces, (forall₂_takes_iff hmeans pieces).mp hpieces, htext⟩
  · rintro ⟨pieces, hpieces, htext⟩
    exact ⟨pieces, (forall₂_takes_iff hmeans pieces).mpr hpieces, htext⟩

theorem accepts_iff_pieces_folders :
    tokens "**/[!a-c]?*[.y".toList =
      [.folders, .cls true "a-c".toList, .one, .star, .char '[', .char '.', .char 'y'] ∧
    ∃ pieces, List.Forall₂ Token.Takes (tokens "**/[!a-c]?*[.y".toList) pieces ∧
      pieces.flatten = "b/c/def[.y".toList := by
  have hparse : Pattern.parse? "**/[!a-c]?*[.y".toList = some
      [.folders, .cls ⟨true, [⟨'a', 'c'⟩], []⟩, .one, .star, .char '[', .char '.', .char 'y'] := by
    decide +kernel
  refine ⟨by simp [tokens, Token.ofInside], ?_⟩
  exact (accepts_iff_pieces hparse _).mp (by decide +kernel)

/-- As long as no two dashes follow each other in its body, a class lists characters and ranges and
nothing else. -/
theorem class_lists_characters (h : Pattern.parse? cs = some p) {n : Nat} {negated : Bool}
    {body : List Char} (hclass : (tokens cs)[n]? = some (.cls negated body))
    (hdashes : ¬ ['-', '-'] <:+: body) :
    ∃ k, p[n]? = some (.cls k) ∧ ∀ c, k.admits c = true ↔
      ((∃ r ∈ ranges body, r.first ≤ c ∧ c ≤ r.last) ↔ negated = false) := by
  have hmeans : List.Forall₂ Token.Means (tokens cs) p := Pattern.means_of_parse h
  obtain ⟨hn, htoken⟩ := List.getElem?_eq_some_iff.mp hclass
  have hn' : n < p.length := hmeans.length_eq ▸ hn
  have hitem : Token.Means (.cls negated body) p[n] := htoken ▸ hmeans.get hn hn'
  generalize hi : p[n] = i at hitem
  cases hitem with
  | @cls _ _ k hk =>
    refine ⟨k, by rw [List.getElem?_eq_getElem hn', hi], ?_⟩
    intro c
    have hlisted : bodyAdmits body c = true ↔ ∃ r ∈ ranges body, r.first ≤ c ∧ c ≤ r.last := by
      rw [CharClass.bodyAdmits_of_single_dashes hdashes]
      simp [CharClass.inSet, Range.contains]
    rw [hk, ← hlisted]
    cases negated <;> simp

theorem class_lists_characters_except :
    (tokens "u[!a-c-e]".toList)[1]? = some (.cls true "a-c-e".toList) ∧
    ∃ k, (Pattern.parse? "u[!a-c-e]".toList).bind (·[1]?) = some (.cls k) ∧
      ∀ c, k.admits c = true ↔ ¬ ∃ r ∈ ranges "a-c-e".toList, r.first ≤ c ∧ c ≤ r.last := by
  have hparse : Pattern.parse? "u[!a-c-e]".toList = some
      [.char 'u', .cls ⟨true, [⟨'a', 'c'⟩, .single '-', .single 'e'], []⟩] := by
    decide +kernel
  have htoken : (tokens "u[!a-c-e]".toList)[1]? = some (.cls true "a-c-e".toList) := by
    simp [tokens, Token.ofInside]
  obtain ⟨k, hk, hadmits⟩ := class_lists_characters hparse htoken (by decide)
  refine ⟨htoken, k, by rw [hparse]; exact hk, ?_⟩
  intro c
  rw [hadmits c]
  simp

def letterTree : Tree where
  entries := [(["b"], .file (.text ""))]

theorem double_dash_takes_away :
    tokens "[a-c--b]".toList = [.cls false "a-c--b".toList] ∧
    (∃ r ∈ ranges "a-c--b".toList, r.first ≤ 'b' ∧ 'b' ≤ r.last) ∧
    (∃ k, Pattern.parse? "[a-c--b]".toList = some [.cls k] ∧ k.admits 'b' = false) ∧
    (expand letterTree ["[a-c]"]).result = .ok ["b"] ∧
    (expand letterTree ["[a-c--b]"]).result = .error (.noMatches "[a-c--b]") := by
  refine ⟨by simp [tokens, Token.ofInside], by decide, ?_, by decide +kernel, by decide +kernel⟩
  exact ⟨⟨false, [⟨'a', 'c'⟩], [[.single 'b']]⟩, by decide +kernel, by decide⟩

end Inspector.Glob
