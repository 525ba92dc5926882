import Inspector.Path
import Mathlib.Data.List.Induction
import Mathlib.Data.List.Sort

/-! The order of paths. Paths are compared component by component, which is a linear order up to
spelling. Sorted lists are strictly increasing, and both ways of dropping repetitions keep the first
spelling of every path. -/
namespace Inspector.Path

variable {p q : String} {ps qs : List String}

instance : Std.TransCmp Component.cmp :=
  inferInstanceAs (Std.TransCmp (compareLex (compareOn Component.rank) (compareOn Component.text)))

instance : Std.LawfulEqCmp Component.cmp where
  eq_of_compare := by
    intro a b h
    obtain ⟨hrank, htext⟩ := Ordering.then_eq_eq.mp h
    have hrank := Std.LawfulEqCmp.eq_of_compare hrank
    have htext := Std.LawfulEqCmp.eq_of_compare htext
    cases a <;> cases b <;> simp_all [Component.rank, Component.text]

theorem cmp_eq_compareLex : cmp = List.compareLex Component.cmp := by
  funext as bs
  induction as generalizing bs with
  | nil => cases bs <;> simp [cmp, List.compareLex]
  | cons a as ih =>
    cases bs with
    | nil => simp [cmp, List.compareLex]
    | cons b bs =>
      rw [cmp, List.compareLex_cons_cons, ih]

instance : Std.TransCmp cmp := cmp_eq_compareLex ▸ inferInstance

instance : Std.LawfulEqCmp cmp := cmp_eq_compareLex ▸ inferInstance

theorem cmp_self (as : List Component) : cmp as as = .eq := Std.ReflCmp.compare_self

theorem cmp_swap (as bs : List Component) : cmp as bs = (cmp bs as).swap :=
  Std.OrientedCmp.eq_swap

def Before (p q : String) : Prop := cmp (components p) (components q) = .lt

theorem same_iff : same p q = true ↔ components p = components q := beq_iff_eq

theorem same_symm (p q : String) : same p q = same q p := by
  rw [Bool.eq_iff_iff, same_iff, same_iff, eq_comm]

theorem le_trans (a b c : String) (hab : le a b = true) (hbc : le b c = true) : le a c = true :=
  Std.TransCmp.isLE_trans hab hbc

theorem le_total (a b : String) : (le a b || le b a) = true := by
  unfold le
  rw [cmp_swap (components b)]
  cases cmp (components a) (components b) <;> rfl

theorem le_of_same (h : same p q = true) : le p q = true := by
  rw [le, same_iff.mp h, cmp_self]
  rfl

theorem before_of_le (hle : le p q = true) (hne : same p q = false) : Before p q := by
  unfold le at hle
  unfold Before
  cases h : cmp (components p) (components q) with
  | lt => rfl
  | eq =>
    have hsame := same_iff.mpr (Std.LawfulEqCmp.eq_of_compare h)
    rw [hne] at hsame
    cases hsame
  | gt =>
    rw [h] at hle
    cases hle

theorem before_irrefl (p : String) : ¬ Before p p := by
  rw [Before, cmp_self]
  simp

theorem before_asymm (h : Before p q) : ¬ Before q p := by
  unfold Before at h ⊢
  rw [cmp_swap, h]
  simp

instance : Std.Irrefl Before := ⟨before_irrefl⟩

instance : Std.Antisymm Before := ⟨fun _ _ hpq hqp => absurd hqp (before_asymm hpq)⟩

/-- A path is kept if it is the first of its spellings in the list. -/
theorem mem_dedup_iff : p ∈ dedup ps ↔ ps.find? (same p) = some p := by
  induction ps with
  | nil => simp [dedup]
  | cons q ps ih =>
    rw [dedup, List.mem_cons, List.mem_filter, ih, List.find?_cons, same_symm q p]
    cases hsame : same p q with
    | true => simp [eq_comm]
    | false =>
      have hne : p ≠ q := by
        rintro rfl
        rw [same_iff.mpr rfl] at hsame
        cases hsame
      simp [hne]

theorem dedup_sublist (ps : List String) : (dedup ps).Sublist ps := by
  induction ps with
  | nil => exact .slnil
  | cons p ps ih => exact (List.filter_sublist.trans ih).cons_cons p

theorem pairwise_dedup (ps : List String) :
    (dedup ps).Pairwise fun p q => same p q = false := by
  induction ps with
  | nil => exact .nil
  | cons p ps ih =>
    rw [dedup, List.pairwise_cons]
    refine ⟨?_, ih.filter _⟩
    intro q hq
    simpa using (List.mem_filter.mp hq).2

/-- Spellings of one path keep their order when a list is sorted. -/
theorem filter_mergeSort (p : String) (ps : List String) :
    (ps.mergeSort le).filter (same p) = ps.filter (same p) := by
  have hequal : (ps.filter (same p)).Pairwise fun a b => le a b = true := by
    apply List.pairwise_of_forall_mem_list
    intro a ha b hb
    have ha := same_iff.mp (List.mem_filter.mp ha).2
    have hb := same_iff.mp (List.mem_filter.mp hb).2
    exact le_of_same (same_iff.mpr (ha.symm.trans hb))
  have hsub := (List.sublist_mergeSort le_trans le_total hequal List.filter_sublist).filter (same p)
  simp only [List.filter_filter, Bool.and_self] at hsub
  exact (hsub.eq_of_length ((List.mergeSort_perm ps le).filter (same p)).length_eq.symm).symm

theorem mem_sorted_iff : p ∈ sorted ps ↔ ps.find? (same p) = some p := by
  rw [sorted, mem_dedup_iff, ← List.head?_filter, filter_mergeSort, List.head?_filter]

theorem pairwise_sorted (ps : List String) : (sorted ps).Pairwise Before := by
  have hle := (List.pairwise_mergeSort le_trans le_total ps).sublist (dedup_sublist _)
  exact (hle.and (pairwise_dedup _)).imp fun h => before_of_le h.1 h.2

theorem sorted_eq_nil_iff : sorted ps = [] ↔ ps = [] := by
  have hdedup : ∀ qs, dedup qs = [] ↔ qs = [] := fun qs => by cases qs <;> simp [dedup]
  rw [sorted, hdedup, ← List.length_eq_zero_iff, List.length_mergeSort, List.length_eq_zero_iff]

/-- A sorted list is known by what it holds. -/
theorem eq_sorted_iff : qs = sorted ps ↔
    qs.Pairwise Before ∧ ∀ p, p ∈ qs ↔ ps.find? (same p) = some p := by
  constructor
  · rintro rfl
    exact ⟨pairwise_sorted ps, fun p => mem_sorted_iff⟩
  · rintro ⟨hsorted, hmem⟩
    apply hsorted.eq_of_mem_iff (pairwise_sorted ps)
    intro p
    rw [hmem, mem_sorted_iff]

/-- `qs` are the paths of `ps` without those that are equal to an earlier one. -/
inductive Firsts : List String → List String → Prop where
  | nil : Firsts [] []
  | new {ps qs : List String} {p : String} (h : Firsts ps qs)
      (hnew : ∀ q ∈ ps, same q p = false) : Firsts (ps ++ [p]) (qs ++ [p])
  | repeated {ps qs : List String} {p q : String} (h : Firsts ps qs) (hq : q ∈ ps)
      (hsame : same q p = true) : Firsts (ps ++ [p]) qs

theorem dedup_concat_new (h : ∀ q ∈ ps, same q p = false) :
    dedup (ps ++ [p]) = dedup ps ++ [p] := by
  induction ps with
  | nil => rfl
  | cons q ps ih =>
    obtain ⟨hq, hps⟩ := List.forall_mem_cons.mp h
    simp [dedup, ih hps, hq]

theorem dedup_concat_repeated (h : ∃ q ∈ ps, same q p = true) :
    dedup (ps ++ [p]) = dedup ps := by
  induction ps with
  | nil => simp at h
  | cons r ps ih =>
    rw [List.cons_append, dedup, dedup]
    by_cases hps : ∃ q ∈ ps, same q p = true
    · rw [ih hps]
    · have hr : same r p = true := by
        obtain ⟨q, hq, hsame⟩ := h
        obtain rfl | hq := List.mem_cons.mp hq
        · exact hsame
        · exact absurd ⟨q, hq, hsame⟩ hps
      have hnew : ∀ q ∈ ps, same q p = false := by simpa using hps
      simp [dedup_concat_new hnew, hr]

theorem firsts_iff : Firsts ps qs ↔ dedup ps = qs := by
  constructor
  · intro h
    induction h with
    | nil => rfl
    | new _ hnew ih => rw [dedup_concat_new hnew, ih]
    | repeated _ hq hsame ih => rw [dedup_concat_repeated ⟨_, hq, hsame⟩, ih]
  · rintro rfl
    induction ps using List.reverseRecOn with
    | nil => exact .nil
    | append_singleton ps p ih =>
      by_cases h : ∃ q ∈ ps, same q p = true
      · rw [dedup_concat_repeated h]
        obtain ⟨q, hq, hsame⟩ := h
        exact .repeated ih hq hsame
      · have hnew : ∀ q ∈ ps, same q p = false := by simpa using h
        rw [dedup_concat_new hnew]
        exact .new ih hnew

end Inspector.Path
