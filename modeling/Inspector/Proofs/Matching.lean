import Inspector.Glob.Pattern

/-! What a pattern accepts, said without the search for it: a text that can be cut into pieces, one
for each item, such that every item takes its piece. -/
namespace Inspector.Glob

inductive Item.Takes : Item → List Char → Prop where
  | char (c : Char) : Takes (.char c) [c]
  | one {c : Char} (h : c ≠ '/') : Takes .one [c]
  | star {u : List Char} (h : '/' ∉ u) : Takes .star u
  | deep {u : List Char} (h : '\n' ∉ u) : Takes .deep u
  | noFolders : Takes .folders []
  | folders {u : List Char} (h : '\n' ∉ u) : Takes .folders (u ++ ['/'])
  | cls {k : CharClass} {c : Char} (h : k.admits c = true) : Takes (.cls k) [c]

inductive Pattern.Takes : Pattern → List Char → Prop where
  | nil : Takes [] []
  | cons {i : Item} {p : Pattern} {u v : List Char} (hi : i.Takes u) (hp : Takes p v) :
      Takes (i :: p) (u ++ v)

/-- The pieces in front are those in which every character passes. -/
theorem mem_restsWhile {ok : Char → Bool} {cs r : List Char} :
    r ∈ restsWhile ok cs ↔ ∃ u, (∀ c ∈ u, ok c = true) ∧ u ++ r = cs := by
  induction cs with
  | nil =>
    rw [restsWhile, List.mem_singleton]
    constructor
    · rintro rfl
      exact ⟨[], by simp⟩
    · rintro ⟨u, _, h⟩
      exact (List.append_eq_nil_iff.mp h).2
  | cons c cs ih =>
    rw [restsWhile, List.mem_cons]
    constructor
    · rintro (rfl | h)
      · exact ⟨[], by simp⟩
      · by_cases hc : ok c = true
        · rw [if_pos hc] at h
          obtain ⟨u, hu, rfl⟩ := ih.mp h
          exact ⟨c :: u, List.forall_mem_cons.mpr ⟨hc, hu⟩, rfl⟩
        · rw [if_neg hc] at h
          cases h
    · rintro ⟨u, hu, he⟩
      cases u with
      | nil => exact Or.inl he
      | cons d u =>
        obtain ⟨rfl, rfl⟩ := List.cons.inj he
        obtain ⟨hd, hu⟩ := List.forall_mem_cons.mp hu
        rw [if_pos hd]
        exact Or.inr (ih.mpr ⟨u, hu, rfl⟩)

theorem mem_restsWhile_ne {stop : Char} {cs r : List Char} :
    r ∈ restsWhile (· ≠ stop) cs ↔ ∃ u, stop ∉ u ∧ u ++ r = cs := by
  simp only [mem_restsWhile, decide_eq_true_eq, ← List.forall_mem_ne, ne_comm]

namespace Item

theorem mem_rests_of_takes {i : Item} {u : List Char} (h : i.Takes u) (r : List Char) :
    r ∈ i.rests (u ++ r) := by
  cases h with
  | char c => simp [rests]
  | one hc => simp [rests, hc]
  | star hu => exact mem_restsWhile_ne.mpr ⟨u, hu, rfl⟩
  | deep hu => exact mem_restsWhile_ne.mpr ⟨u, hu, rfl⟩
  | noFolders => exact List.mem_cons_self
  | @folders u hu =>
    have hr : '/' :: r ∈ restsWhile (· ≠ '\n') (u ++ ['/'] ++ r) :=
      mem_restsWhile_ne.mpr ⟨u, hu, by simp⟩
    exact List.mem_cons_of_mem _ (List.mem_filterMap.mpr ⟨_, hr, rfl⟩)
  | cls hc => simp [rests, hc]

theorem takes_of_mem_rests {i : Item} {cs r : List Char} (h : r ∈ i.rests cs) :
    ∃ u, i.Takes u ∧ u ++ r = cs := by
  cases i with
  | char c =>
    cases cs with
    | nil => simp [rests] at h
    | cons d ds =>
      by_cases hd : d = c
      · obtain rfl : r = ds := by simpa [rests, hd] using h
        exact ⟨[c], .char c, by simp [hd]⟩
      · simp [rests, hd] at h
  | one =>
    cases cs with
    | nil => simp [rests] at h
    | cons d ds =>
      by_cases hd : d = '/'
      · simp [rests, hd] at h
      · obtain rfl : r = ds := by simpa [rests, hd] using h
        exact ⟨[d], .one hd, rfl⟩
  | star =>
    obtain ⟨u, hu, he⟩ := mem_restsWhile_ne.mp h
    exact ⟨u, .star hu, he⟩
  | deep =>
    obtain ⟨u, hu, he⟩ := mem_restsWhile_ne.mp h
    exact ⟨u, .deep hu, he⟩
  | folders =>
    obtain rfl | h := List.mem_cons.mp h
    · exact ⟨[], .noFolders, rfl⟩
    · obtain ⟨x, hx, hr⟩ := List.mem_filterMap.mp h
      obtain ⟨u, hu, rfl⟩ := mem_restsWhile_ne.mp hx
      split at hr
      · obtain rfl := Option.some.inj hr
        exact ⟨u ++ ['/'], .folders hu, by simp⟩
      · cases hr
  | cls k =>
    cases cs with
    | nil => simp [rests] at h
    | cons d ds =>
      by_cases hd : k.admits d = true
      · obtain rfl : r = ds := by simpa [rests, hd] using h
        exact ⟨[d], .cls hd, rfl⟩
      · simp [rests, hd] at h

end Item

theorem Pattern.mem_rests (p : Pattern) (rs : List (List Char)) (r : List Char) :
    r ∈ p.rests rs ↔ ∃ u, p.Takes u ∧ u ++ r ∈ rs := by
  induction p generalizing rs with
  | nil =>
    constructor
    · intro h
      exact ⟨[], .nil, h⟩
    · rintro ⟨u, hu, h⟩
      cases hu
      exact h
  | cons i p ih =>
    rw [rests, ih]
    simp only [List.mem_eraseDups, List.mem_flatMap]
    constructor
    · rintro ⟨v, hv, cs, hcs, hrest⟩
      obtain ⟨u, hu, rfl⟩ := Item.takes_of_mem_rests hrest
      exact ⟨u ++ v, .cons hu hv, by rwa [List.append_assoc]⟩
    · rintro ⟨w, hw, h⟩
      cases hw with
      | @cons _ _ u v hu hv =>
        rw [List.append_assoc] at h
        exact ⟨v, hv, _, h, Item.mem_rests_of_takes hu _⟩

theorem Pattern.accepts_iff (p : Pattern) (cs : List Char) : p.accepts cs = true ↔ p.Takes cs := by
  rw [accepts, List.contains_iff_mem, mem_rests]
  simp

theorem Pattern.takes_cons_iff {i : Item} {p : Pattern} {cs : List Char} :
    Takes (i :: p) cs ↔ ∃ u v, i.Takes u ∧ p.Takes v ∧ cs = u ++ v := by
  constructor
  · rintro (_ | ⟨hi, hp⟩)
    exact ⟨_, _, hi, hp, rfl⟩
  · rintro ⟨u, v, hi, hp, rfl⟩
    exact .cons hi hp

theorem Pattern.takes_append_iff {p q : Pattern} {cs : List Char} :
    Takes (p ++ q) cs ↔ ∃ u v, p.Takes u ∧ q.Takes v ∧ cs = u ++ v := by
  induction p generalizing cs with
  | nil =>
    constructor
    · intro h
      exact ⟨[], cs, .nil, h, rfl⟩
    · rintro ⟨u, v, hu, hv, rfl⟩
      cases hu
      exact hv
  | cons i p ih =>
    rw [List.cons_append, takes_cons_iff]
    constructor
    · rintro ⟨u, w, hu, hw, rfl⟩
      obtain ⟨v, x, hv, hx, rfl⟩ := ih.mp hw
      exact ⟨u ++ v, x, .cons hu hv, hx, (List.append_assoc u v x).symm⟩
    · rintro ⟨_, x, hp, hx, rfl⟩
      obtain ⟨u, v, hu, hv, rfl⟩ := takes_cons_iff.mp hp
      exact ⟨u, v ++ x, hu, ih.mpr ⟨v, x, hv, hx, rfl⟩, List.append_assoc u v x⟩

end Inspector.Glob
