/-! Sets of names as lists in strictly increasing order. -/
namespace Inspector.Names

def insert (s : String) : List String → List String
  | [] => [s]
  | x :: xs => if s < x then s :: x :: xs else if x < s then x :: insert s xs else x :: xs

def ofList : List String → List String
  | [] => []
  | s :: ss => insert s (ofList ss)

theorem mem_insert (s t : String) (xs : List String) : t ∈ insert s xs ↔ t = s ∨ t ∈ xs := by
  induction xs with
  | nil => simp [insert]
  | cons x xs ih =>
    simp only [insert]
    split
    · simp
    · split
      · simp only [List.mem_cons, ih]
        exact ⟨fun h => by rcases h with h | h | h <;> simp [h],
          fun h => by rcases h with h | h | h <;> simp [h]⟩
      · next h₁ h₂ =>
        have : s = x := String.le_antisymm h₂ h₁
        simp [this]

theorem mem_ofList (t : String) (ss : List String) : t ∈ ofList ss ↔ t ∈ ss := by
  induction ss with
  | nil => simp [ofList]
  | cons s ss ih => simp [ofList, mem_insert, ih]

theorem lt_of_mem_insert {s x t : String} {xs : List String} (hx : ∀ y ∈ xs, x < y) (hs : x < s)
    (ht : t ∈ insert s xs) : x < t := by
  rcases (mem_insert s t xs).1 ht with rfl | ht
  · exact hs
  · exact hx t ht

theorem pairwise_insert (s : String) {xs : List String} (h : xs.Pairwise (· < ·)) :
    (insert s xs).Pairwise (· < ·) := by
  induction xs with
  | nil => simp [insert]
  | cons x xs ih =>
    obtain ⟨hx, hxs⟩ := List.pairwise_cons.1 h
    simp only [insert]
    split
    · next hs =>
      refine List.pairwise_cons.2 ⟨fun y hy => ?_, h⟩
      rcases List.mem_cons.1 hy with rfl | hy
      · exact hs
      · exact String.lt_trans hs (hx y hy)
    · split
      · next hs => exact List.pairwise_cons.2 ⟨fun _ ht => lt_of_mem_insert hx hs ht, ih hxs⟩
      · exact h

theorem pairwise_ofList (ss : List String) : (ofList ss).Pairwise (· < ·) := by
  induction ss with
  | nil => exact List.Pairwise.nil
  | cons s ss ih => exact pairwise_insert s ih

end Inspector.Names
