/-! Entries under their names, in the order in which the names were first seen. -/
namespace Inspector

class Named (α : Type) where
  name : α → String

structure Register (α : Type) [Named α] where
  entries : List α := []
  nodup : (entries.map Named.name).Nodup := by simp

namespace Register

variable {α β : Type} [Named α] [Named β]

def put (a : α) : List α → List α
  | [] => [a]
  | b :: bs => if Named.name b = Named.name a then a :: bs else b :: put a bs

theorem put_of_fresh {a : α} {bs : List α} (h : Named.name a ∉ bs.map Named.name) :
    put a bs = bs ++ [a] := by
  induction bs with
  | nil => rfl
  | cons b bs ih =>
    rw [List.map_cons, List.mem_cons, not_or] at h
    rw [put, if_neg (Ne.symm h.1), ih h.2, List.cons_append]

theorem map_name_put (a : α) (bs : List α) :
    (put a bs).map Named.name =
      if Named.name a ∈ bs.map Named.name then bs.map Named.name
      else bs.map Named.name ++ [Named.name a] := by
  induction bs with
  | nil => simp [put]
  | cons b bs ih =>
    by_cases h : Named.name b = Named.name a
    · simp [put, h]
    · by_cases hm : Named.name a ∈ bs.map Named.name
      · simp only [put, h, if_false, List.map_cons, ih, hm, if_true, List.mem_cons, or_true]
      · simp only [put, h, if_false, List.map_cons, ih, hm, List.mem_cons, Ne.symm h, or_self,
          List.cons_append]

theorem nodup_put {a : α} {bs : List α} (h : (bs.map Named.name).Nodup) :
    ((put a bs).map Named.name).Nodup := by
  rw [map_name_put]
  split
  · exact h
  · next hm =>
    rw [List.nodup_append]
    exact ⟨h, by simp, fun x hx y hy e => hm (by simp_all)⟩

def empty : Register α := {}

def names (r : Register α) : List String := r.entries.map Named.name

def get? (r : Register α) (name : String) : Option α := r.entries.find? (Named.name · == name)

def contains (r : Register α) (name : String) : Bool := r.names.contains name

def size (r : Register α) : Nat := r.entries.length

/-- Adds an entry, or replaces the one with its name where that stands. -/
def insert (r : Register α) (a : α) : Register α := ⟨put a r.entries, nodup_put r.nodup⟩

theorem names_insert (r : Register α) (a : α) :
    (r.insert a).names =
      if Named.name a ∈ r.names then r.names else r.names ++ [Named.name a] :=
  map_name_put a r.entries

theorem find?_put (a : α) (bs : List α) (name : String) :
    (put a bs).find? (Named.name · == name) =
      if Named.name a = name then some a else bs.find? (Named.name · == name) := by
  induction bs with
  | nil => by_cases h : Named.name a = name <;> simp [put, h]
  | cons b bs ih =>
    by_cases hb : Named.name b = Named.name a
    · by_cases h : Named.name a = name <;> simp [put, hb, h]
    · by_cases h : Named.name a = name
      · subst h
        simp [put, hb, ih]
      · simp [put, hb, ih, h, List.find?_cons]

theorem get?_insert (r : Register α) (a : α) (name : String) :
    (r.insert a).get? name = if Named.name a = name then some a else r.get? name :=
  find?_put a r.entries name

theorem mem_of_get? {r : Register α} {name : String} {a : α} (h : r.get? name = some a) :
    a ∈ r.entries ∧ Named.name a = name :=
  ⟨List.mem_of_find?_eq_some h, by simpa using List.find?_some h⟩

theorem find?_of_mem {as : List α} {a : α} (h : (as.map Named.name).Nodup) (ha : a ∈ as) :
    as.find? (Named.name · == Named.name a) = some a := by
  induction as with
  | nil => simp at ha
  | cons b bs ih =>
    obtain ⟨hb, hbs⟩ := List.nodup_cons.1 h
    rcases List.mem_cons.1 ha with rfl | ha
    · simp
    · have hne : Named.name b ≠ Named.name a := fun e => hb (e ▸ List.mem_map_of_mem ha)
      simpa [List.find?_cons, beq_eq_false_iff_ne.2 hne] using ih hbs ha

/-- Every entry is found under its name. -/
theorem get?_name {r : Register α} {a : α} (h : a ∈ r.entries) :
    r.get? (Named.name a) = some a :=
  find?_of_mem r.nodup h

theorem contains_iff (r : Register α) (name : String) :
    r.contains name = true ↔ ∃ a ∈ r.entries, Named.name a = name := by
  simp [contains, names]

def map (r : Register α) (f : α → β) (h : ∀ a, Named.name (f a) = Named.name a) : Register β where
  entries := r.entries.map f
  nodup := by simpa [Function.comp_def, h] using r.nodup

theorem names_map (r : Register α) (f : α → β) (h : ∀ a, Named.name (f a) = Named.name a) :
    (r.map f h).names = r.names := by
  simp [names, map, Function.comp_def, h]

def ofList (as : List α) : Register α := as.foldl insert empty

end Register

end Inspector
