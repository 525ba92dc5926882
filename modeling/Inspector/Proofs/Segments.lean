import Inspector.Path

/-! Texts taken apart at their slashes. A text and the list of its parts tell the same, as long as
no part has a slash of its own. The names of a joined path are those of its two halves. -/
namespace Inspector.Path

theorem segments_append_slash (u v : List Char) :
    segments (u ++ '/' :: v) = segments u ++ segments v := by
  induction u with
  | nil => simp [segments]
  | cons c u ih =>
    by_cases hc : c = '/'
    · simp [segments, hc, ih]
    · cases hs : segments u with
      | nil => exact absurd hs (segments_ne_nil u)
      | cons s ss =>
        rw [hs, List.cons_append] at ih
        simp [segments, hc, ih, hs]

theorem segments_of_no_slash {cs : List Char} (h : '/' ∉ cs) : segments cs = [cs] := by
  induction cs with
  | nil => rfl
  | cons c cs ih =>
    rw [List.mem_cons, not_or] at h
    simp [segments, Ne.symm h.1, ih h.2]

theorem no_slash_of_mem_segments {cs s : List Char} (h : s ∈ segments cs) : '/' ∉ s := by
  induction cs generalizing s with
  | nil =>
    obtain rfl := List.mem_singleton.mp h
    exact List.not_mem_nil
  | cons c cs ih =>
    by_cases hc : c = '/'
    · rw [segments, if_pos hc] at h
      obtain rfl | h := List.mem_cons.mp h
      · exact List.not_mem_nil
      · exact ih h
    · cases hs : segments cs with
      | nil => exact absurd hs (segments_ne_nil cs)
      | cons x xs =>
        rw [segments, if_neg hc, hs] at h
        rw [hs] at ih
        obtain rfl | h := List.mem_cons.mp h
        · have hx := ih List.mem_cons_self
          simp [Ne.symm hc, hx]
        · exact ih (List.mem_cons_of_mem x h)

/-- Only a text without slashes has a single part, and that part is the text. -/
theorem segments_eq_of_length_le {cs : List Char} (h : (segments cs).length ≤ 1) :
    segments cs = [cs] := by
  have hcs := unsegments_segments cs
  cases hs : segments cs with
  | nil => exact absurd hs (segments_ne_nil cs)
  | cons s ss =>
    rw [hs, List.length_cons] at h
    obtain rfl : ss = [] := List.eq_nil_of_length_eq_zero (by omega)
    rw [hs, unsegments] at hcs
    rw [hcs]

theorem unsegments_cons (s : List Char) {ss : List (List Char)} (h : ss ≠ []) :
    unsegments (s :: ss) = s ++ '/' :: unsegments ss := by
  cases ss with
  | nil => exact absurd rfl h
  | cons t ss => rfl

theorem segments_unsegments {ss : List (List Char)} (hne : ss ≠ []) (h : ∀ s ∈ ss, '/' ∉ s) :
    segments (unsegments ss) = ss := by
  induction ss with
  | nil => exact absurd rfl hne
  | cons s ss ih =>
    have hs := segments_of_no_slash (h s List.mem_cons_self)
    cases ss with
    | nil => exact hs
    | cons t ss =>
      have hts := ih (List.cons_ne_nil t ss) fun x hx => h x (List.mem_cons_of_mem s hx)
      rw [unsegments_cons s (List.cons_ne_nil t ss), segments_append_slash, hs, hts,
        List.singleton_append]

theorem mem_unsegments {ss : List (List Char)} {c : Char} (h : c ∈ unsegments ss) :
    c = '/' ∨ ∃ s ∈ ss, c ∈ s := by
  induction ss with
  | nil => cases h
  | cons s ss ih =>
    by_cases hss : ss = []
    · subst hss
      exact Or.inr ⟨s, List.mem_cons_self, h⟩
    · rw [unsegments_cons s hss] at h
      obtain h | h := List.mem_append.mp h
      · exact Or.inr ⟨s, List.mem_cons_self, h⟩
      · obtain rfl | h := List.mem_cons.mp h
        · exact Or.inl rfl
        · obtain rfl | ⟨x, hx, hc⟩ := ih h
          · exact Or.inl rfl
          · exact Or.inr ⟨x, List.mem_cons_of_mem s hx, hc⟩

theorem infix_unsegments {s : List Char} {ss : List (List Char)} (h : s ∈ ss) :
    s <:+: unsegments ss := by
  induction ss with
  | nil => cases h
  | cons t ss ih =>
    by_cases hss : ss = []
    · subst hss
      obtain rfl := List.mem_singleton.mp h
      exact List.infix_rfl
    · rw [unsegments_cons t hss]
      obtain rfl | h := List.mem_cons.mp h
      · exact (List.prefix_append s _).isInfix
      · exact (ih h).trans ⟨t ++ ['/'], [], by simp⟩

theorem infix_of_mem_segments {cs s : List Char} (h : s ∈ segments cs) : s <:+: cs := by
  have hcs := infix_unsegments h
  rwa [unsegments_segments] at hcs

theorem nil_mem_segments_of_head {cs : List Char} (h : cs.head? = some '/') :
    [] ∈ segments cs := by
  obtain ⟨u, rfl⟩ := List.head?_eq_some_iff.mp h
  simp [segments]

theorem segments_concat_slash (u : List Char) : segments (u ++ ['/']) = segments u ++ [[]] :=
  segments_append_slash u []

theorem nil_mem_segments_of_last {cs : List Char} (h : cs.getLast? = some '/') :
    [] ∈ segments cs := by
  obtain ⟨u, rfl⟩ := List.getLast?_eq_some_iff.mp h
  rw [segments_concat_slash]
  simp

/-- In front of a relative path stands the directory, with a slash if it does not end in one. -/
theorem toList_join (p : String) {q : String} (hq : isAbsolute q = false) :
    ∃ u, (join p q).toList = u ++ q.toList ∧
      (p.toList = [] ∧ u = [] ∨
        u.getLast? = some '/' ∧ (p.toList = u ∨ p.toList ++ ['/'] = u)) := by
  unfold join
  rw [if_neg (by simp [hq])]
  by_cases hp : p.isEmpty = true ∨ p.toList.getLast? = some '/'
  · rw [if_pos hp]
    refine ⟨p.toList, String.toList_append, ?_⟩
    obtain hp | hp := hp
    · have hnil : p.toList = [] := by simpa using hp
      exact Or.inl ⟨hnil, hnil⟩
    · exact Or.inr ⟨hp, Or.inl rfl⟩
  · rw [if_neg hp]
    refine ⟨p.toList ++ ['/'], ?_, Or.inr ⟨by simp, Or.inr rfl⟩⟩
    simp

theorem filter_segments_join (p : String) {q : String} (hq : isAbsolute q = false) :
    (segments (join p q).toList).filter (· ≠ []) =
      (segments p.toList).filter (· ≠ []) ++ (segments q.toList).filter (· ≠ []) := by
  obtain ⟨u, hjoin, ⟨hp, rfl⟩ | ⟨hlast, hu⟩⟩ := toList_join p hq
  · rw [hjoin, hp]
    simp [segments]
  · obtain ⟨v, rfl⟩ := List.getLast?_eq_some_iff.mp hlast
    have hv : (segments p.toList).filter (· ≠ []) = (segments v).filter (· ≠ []) := by
      obtain hp | hp := hu
      · rw [hp, segments_concat_slash]
        simp
      · rw [List.append_cancel_right hp]
    rw [hjoin, List.append_assoc, List.singleton_append, segments_append_slash,
      List.filter_append, hv]

theorem isAbsolute_join {p q : String} (hp : p.toList ≠ []) (hq : isAbsolute q = false) :
    isAbsolute (join p q) = isAbsolute p := by
  obtain ⟨c, cs, hc⟩ := List.exists_cons_of_ne_nil hp
  obtain ⟨u, hjoin, ⟨hnil, _⟩ | ⟨_, rfl | rfl⟩⟩ := toList_join p hq
  · exact absurd hnil hp
  · simp [isAbsolute, hjoin, hc]
  · simp [isAbsolute, hjoin, hc]

end Inspector.Path
