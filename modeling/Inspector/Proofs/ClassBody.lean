import Inspector.Glob.CharClass

/-! What the body of a class says. Three characters `x-y` are a range and every other character
stands for itself, except that dashes at the start are always literal and that `--` takes away what
is listed behind it. -/
namespace Inspector.Glob.CharClass

variable {body cs : List Char} {k : CharClass} {negated : Bool}

/-- The text read from left to right: any three characters `x-y` as the range from `x` to `y`, and
every other character as itself. -/
def ranges : List Char → List Range
  | x :: '-' :: y :: cs => ⟨x, y⟩ :: ranges cs
  | x :: cs => .single x :: ranges cs
  | [] => []

theorem ranges_single {x : Char} (h : cs.head? ≠ some '-') :
    ranges (x :: cs) = .single x :: ranges cs := by
  cases cs with
  | nil => simp [ranges]
  | cons c cs =>
    have hc : c ≠ '-' := fun he => h (by simp [he])
    cases cs <;> simp [ranges, hc]

def parts : List Char → List (List Char)
  | [] => [[]]
  | '-' :: '-' :: cs => [] :: parts cs
  | c :: cs => (parts cs).modifyHead (c :: ·)

theorem parts_ne_nil (cs : List Char) : parts cs ≠ [] := by
  fun_induction parts cs with
  | case1 => simp
  | case2 cs ih => simp
  | case3 c cs hnext ih => simpa using ih

theorem parts_char {c : Char} (h : ¬ (c = '-' ∧ cs.head? = some '-')) :
    parts (c :: cs) = (parts cs).modifyHead (c :: ·) := by
  rw [parts]
  rintro ds rfl rfl
  exact h ⟨rfl, rfl⟩

def Held.text : Held → List Char
  | .nothing => []
  | .char x => [x]
  | .charDash x => [x, '-']

/-- Every part gives a set of its own. -/
theorem sets_eq {held : Held} {rss : List (List Range)} (hdash : held ≠ .charDash '-')
    (h : sets held cs = some rss) : rss = (parts (held.text ++ cs)).map ranges := by
  -- The held characters are still in front of the text. A dash is held behind another character
  -- only, since two dashes end a part at once.
  fun_induction sets held cs generalizing rss with
  | case1 => simp [← Option.some.inj h, Held.text, parts, ranges]
  | case2 x => simp [← Option.some.inj h, Held.text, parts, ranges]
  | case3 x =>
    have hx : x ≠ '-' := by simpa using hdash
    have htext : parts [x, '-'] = [[x, '-']] := by
      rw [parts_char (by simp [hx])]
      rfl
    simp [← Option.some.inj h, Held.text, htext, ranges]
  | case4 c cs ih => exact ih (by simp) h
  | case5 x c cs hc ih =>
    obtain ⟨rss', hrss, rfl⟩ := Option.map_eq_some_iff.mp h
    obtain ⟨first, rest, hparts⟩ := List.exists_cons_of_ne_nil (parts_ne_nil cs)
    have hhead : parts (c :: cs) = (c :: first) :: rest := by
      rw [parts_char (by simp [hc]), hparts]
      rfl
    have htext : parts (x :: c :: cs) = (x :: c :: first) :: rest := by
      rw [parts_char (by simp [hc]), hhead]
      rfl
    have hsingle : ranges (x :: c :: first) = .single x :: ranges (c :: first) :=
      ranges_single (by simp [hc])
    rw [ih (by simp) hrss]
    simp [Held.text, hhead, htext, hsingle, pushRange]
  | case6 x c cs hc hx ih =>
    obtain rfl : c = '-' := Decidable.not_not.mp hc
    exact ih (by simpa using hx) h
  | case7 x c cs hc hx ih =>
    obtain rfl : c = '-' := Decidable.not_not.mp hc
    obtain rfl : x = '-' := Decidable.not_not.mp hx
    obtain ⟨rss', hrss, rfl⟩ := Option.map_eq_some_iff.mp h
    rw [ih (by simp) hrss]
    simp [Held.text, parts, ranges]
  | case8 x cs ih =>
    have hx : x ≠ '-' := by simpa using hdash
    obtain ⟨rss', hrss, rfl⟩ := Option.map_eq_some_iff.mp h
    have htext : parts (x :: '-' :: '-' :: cs) = [x] :: parts cs := by
      rw [parts_char (by simp [hx]), parts]
      rfl
    rw [ih (by simp) hrss]
    simp [Held.text, htext, ranges]
  | case9 x c cs hc hle ih =>
    have hx : x ≠ '-' := by simpa using hdash
    obtain ⟨rss', hrss, rfl⟩ := Option.map_eq_some_iff.mp h
    obtain ⟨first, rest, hparts⟩ := List.exists_cons_of_ne_nil (parts_ne_nil cs)
    have htext : parts (x :: '-' :: c :: cs) = (x :: '-' :: c :: first) :: rest := by
      rw [parts_char (by simp [hx]), parts_char (by simp [hc]), parts_char (by simp [hc]), hparts]
      rfl
    rw [ih (by simp) hrss]
    simp [Held.text, hparts, htext, ranges, pushRange]
  | case10 x c cs hc hle => cases h

/-- Whether a body, without a `!` in front, stands for a character: one that is listed in front of
the first `--`, where dashes at the start count, and nowhere behind it. -/
def bodyAdmits (body : List Char) (c : Char) : Bool :=
  match parts (body.dropWhile (· = '-')) with
  | [] => false
  | first :: others =>
    (decide (c ∈ body.takeWhile (· = '-')) || inSet (ranges first) c) &&
      !others.any fun part => inSet (ranges part) c

def inside (negated : Bool) (body : List Char) : List Char := if negated then '!' :: body else body

theorem contains_single (d c : Char) : (Range.single d).contains c = decide (c = d) := by
  rw [Range.contains, Range.single, ← Bool.decide_and, decide_eq_decide]
  constructor
  · rintro ⟨hle, hge⟩
    exact Char.le_antisymm hge hle
  · rintro rfl
    exact ⟨Char.le_refl c, Char.le_refl c⟩

theorem inSet_map_single (ds : List Char) (c : Char) :
    inSet (ds.map Range.single) c = decide (c ∈ ds) := by
  rw [inSet, List.any_map, Bool.eq_iff_iff]
  simp [contains_single]

/-- A class is made of the sets of its body. -/
theorem sets_of_inside (hbang : negated = true ∨ body.head? ≠ some '!')
    (h : ofBody? (inside negated body) = some k) :
    ∃ base removed, sets .nothing (body.dropWhile (· = '-')) = some (base :: removed) ∧
      k = ⟨negated, (body.takeWhile (· = '-')).map Range.single ++ base, removed⟩ := by
  unfold ofBody? at h
  split at h
  next neg cs hsplit =>
    obtain ⟨rfl, rfl⟩ : negated = neg ∧ body = cs := by
      unfold inside at hsplit
      cases negated with
      | true => exact Prod.mk.inj hsplit
      | false =>
        have hne : body.head? ≠ some '!' := hbang.resolve_left (by simp)
        split at hsplit
        · next hbody =>
          obtain rfl : body = _ := hbody
          exact absurd rfl hne
        · exact Prod.mk.inj hsplit
    split at h
    · cases h
    · split at h
      · next base removed hsets => exact ⟨base, removed, hsets, (Option.some.inj h).symm⟩
      · cases h

/-- The class of a body stands for the characters of the body, or for all others. -/
theorem admits_inside (negated : Bool) (hbang : negated = true ∨ body.head? ≠ some '!')
    (h : ofBody? (inside negated body) = some k) (c : Char) :
    k.admits c = (bodyAdmits body c != negated) := by
  obtain ⟨base, removed, hsets, rfl⟩ := sets_of_inside hbang h
  have hparts := sets_eq (by simp) hsets
  rw [Held.text, List.nil_append] at hparts
  obtain ⟨first, others, hcut⟩ :=
    List.exists_cons_of_ne_nil (parts_ne_nil (body.dropWhile (· = '-')))
  rw [hcut] at hparts
  obtain ⟨rfl, rfl⟩ := List.cons.inj hparts
  have hbase : inSet ((body.takeWhile (· = '-')).map Range.single ++ ranges first) c =
      (decide (c ∈ body.takeWhile (· = '-')) || inSet (ranges first) c) := by
    rw [← inSet_map_single]
    exact List.any_append
  simp only [admits, bodyAdmits, hcut, hbase, List.any_map]
  rfl

theorem parts_of_single_dashes (h : ¬ ['-', '-'] <:+: cs) : parts cs = [cs] := by
  fun_induction parts cs with
  | case1 => rfl
  | case2 cs ih => exact absurd (List.prefix_append ['-', '-'] cs).isInfix h
  | case3 c cs hnext ih =>
    rw [ih fun hcs => h (List.infix_cons hcs)]
    rfl

/-- If no two dashes follow each other, a body is just the list of its characters and ranges. -/
theorem bodyAdmits_of_single_dashes (h : ¬ ['-', '-'] <:+: body) (c : Char) :
    bodyAdmits body c = inSet (ranges body) c := by
  cases body with
  | nil => rfl
  | cons d ds =>
    by_cases hd : d = '-'
    · subst hd
      have hhead : ds.head? ≠ some '-' := by
        intro he
        obtain ⟨es, rfl⟩ := List.head?_eq_some_iff.mp he
        exact h (List.prefix_append ['-', '-'] es).isInfix
      have htake : ('-' :: ds).takeWhile (· = '-') = ['-'] := by
        cases ds <;> simp_all
      have hdrop : ('-' :: ds).dropWhile (· = '-') = ds := by
        cases ds <;> simp_all
      rw [bodyAdmits, htake, hdrop, parts_of_single_dashes fun hds => h (List.infix_cons hds),
        ranges_single hhead, inSet, List.any_cons, contains_single]
      simp [inSet]
    · simp [bodyAdmits, hd, parts_of_single_dashes h]

end Inspector.Glob.CharClass
