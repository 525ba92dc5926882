import Inspector.Primitive
import Inspector.Text.Lines

/-! Reading generated text line by line: how lines are found again in the text that they make up,
and with which word a line starts. -/
namespace Inspector

open scoped List

namespace Text

def lines (s : String) : List String := (s.toList.splitOn '\n').map String.ofList

def IsLine (s : String) : Prop := '\n' ∉ s.toList

instance (s : String) : Decidable (IsLine s) := inferInstanceAs (Decidable (_ ∉ _))

theorem IsLine.append {s t : String} (hs : IsLine s) (ht : IsLine t) : IsLine (s ++ t) := by
  rw [IsLine, String.toList_append, List.mem_append]
  exact not_or.mpr ⟨hs, ht⟩

/-- A text that ends with a line feed has an empty piece behind it. -/
theorem lines_unlines {ls : List String} (h : ∀ l ∈ ls, IsLine l) :
    lines (unlines ls) = ls ++ [""] := by
  induction ls with
  | nil => rfl
  | cons l ls ih =>
    have hl : '\n' ∉ l.toList := h l List.mem_cons_self
    have hls := ih fun x hx => h x (List.mem_cons_of_mem l hx)
    have htext : (unlines (l :: ls)).toList = l.toList ++ '\n' :: (unlines ls).toList := by
      simp [unlines]
    rw [lines] at hls ⊢
    rw [htext, List.splitOn_append_cons_self_of_not_mem hl, List.map_cons, hls,
      String.ofList_toList, List.cons_append]

theorem isLine_toString (n : Nat) : IsLine (toString n) := by
  rw [IsLine, Nat.toString_eq_ofList_toDigits, String.toList_ofList]
  intro h
  exact absurd (Nat.isDigit_of_mem_toDigits (by decide) (by decide) h) (by decide)

def Opens (w line : String) : Prop := w.toList <+: line.toList.dropWhile Char.isWhitespace

instance (w line : String) : Decidable (Opens w line) := inferInstanceAs (Decidable (_ <+: _))

theorem Opens.of_append {w x line : String} (h : Opens (w ++ x) line) : Opens w line := by
  rw [Opens, String.toList_append] at h
  exact (List.prefix_append _ _).trans h

theorem opens_indented {w line : String} : Opens w ("  " ++ line) ↔ Opens w line := by
  have hspace : ' '.isWhitespace = true := by decide
  simp [Opens, hspace]

/-- A line does not start with `w` if its first piece has a word there that is as long and another
one. -/
theorem not_opens_append {w p : String} (h : ¬ Opens w p ∧ 0 < w.toList.length ∧
    w.toList.length ≤ (p.toList.dropWhile Char.isWhitespace).length) (rest : String) :
    ¬ Opens w (p ++ rest) := by
  obtain ⟨hne, hw, hp⟩ := h
  intro ho
  have hstop : (p.toList.dropWhile Char.isWhitespace).isEmpty = false := by
    rw [List.isEmpty_eq_false_iff, ← List.length_pos_iff]
    omega
  rw [Opens, String.toList_append, List.dropWhile_append, hstop] at ho
  exact hne (List.prefix_of_prefix_length_le ho (List.prefix_append _ _) hp)

/-- Words without a parenthesis are equal if they stand before the same first one. -/
theorem prefix_call_iff {a b rest : List Char} (ha : '(' ∉ a) (hb : '(' ∉ b) :
    a ++ ['('] <+: b ++ '(' :: rest ↔ a = b := by
  induction a generalizing b with
  | nil =>
    cases b with
    | nil => simp
    | cons y b =>
      have hy : '(' ≠ y := fun he => hb (he ▸ List.mem_cons_self)
      simp [hy]
  | cons x a ih =>
    have hx : x ≠ '(' := fun he => ha (he ▸ List.mem_cons_self)
    have htail : '(' ∉ a := fun hm => ha (List.mem_cons_of_mem x hm)
    cases b with
    | nil => simp [hx]
    | cons y b =>
      have hrest := ih htail fun hm => hb (List.mem_cons_of_mem y hm)
      simp [hrest]

end Text

def isIdentifier (s : String) : Bool :=
  match s.toList with
  | [] => false
  | c :: cs => (c.isAlpha || c == '_') && cs.all fun d => d.isAlphanum || d == '_'

theorem not_mem_of_isIdentifier {s : String} (h : isIdentifier s = true) {c : Char}
    (hc : (c.isAlphanum || c == '_') = false) : c ∉ s.toList := by
  unfold isIdentifier at h
  split at h
  · cases h
  · next d ds hs =>
    rw [Bool.and_eq_true, List.all_eq_true] at h
    rw [hs]
    intro hmem
    obtain rfl | hmem := List.mem_cons.mp hmem
    · simp_all [Char.isAlphanum]
    · simp [h.2 c hmem] at hc

theorem isLine_of_isIdentifier {s : String} (h : isIdentifier s = true) : Text.IsLine s :=
  not_mem_of_isIdentifier h (by decide)

theorem Primitive.isLine_spelling (p : Primitive) : Text.IsLine p.spelling := by
  cases p <;> decide

end Inspector
