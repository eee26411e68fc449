import GroupCalendar.Item.Basic

/-! # Tables

A table holds items in the order of their keys, one under each key.
-/

namespace GroupCalendar

namespace Fields

variable {α : Type}

theorem lt_of_not_lt {a b : String} (hne : a ≠ b) (h : ¬ a < b) : b < a := by
  rcases Classical.em (b < a) with hb | hb
  · exact hb
  · exact absurd (String.le_antisymm (String.not_lt.1 hb) (String.not_lt.1 h)) hne

theorem mem_insert {name : String} {value : α} {fs : Fields α} {f : String × α}
    (h : f ∈ insert name value fs) : f = (name, value) ∨ f ∈ fs := by
  induction fs with
  | nil => simpa [insert] using h
  | cons g rest ih =>
    obtain ⟨k, v⟩ := g
    simp only [insert] at h
    split at h
    · rcases List.mem_cons.1 h with h | h
      · exact .inl h
      · exact .inr (List.mem_cons_of_mem _ h)
    · split at h
      · rcases List.mem_cons.1 h with h | h
        · exact .inl h
        · exact .inr h
      · rcases List.mem_cons.1 h with h | h
        · exact .inr (h ▸ List.mem_cons_self)
        · exact (ih h).imp id (List.mem_cons_of_mem _)

theorem sorted_insert {name : String} {value : α} {fs : Fields α} (h : fs.Sorted) :
    (insert name value fs).Sorted := by
  induction fs with
  | nil => simp [insert, Sorted]
  | cons g rest ih =>
    obtain ⟨k, v⟩ := g
    have hs := List.pairwise_cons.1 h
    simp only [insert]
    split
    · next hk => subst hk; exact List.pairwise_cons.2 ⟨hs.1, hs.2⟩
    · split
      · next _ hlt =>
        refine List.pairwise_cons.2 ⟨fun f hf => ?_, h⟩
        rcases List.mem_cons.1 hf with rfl | hf
        · exact hlt
        · exact String.lt_trans hlt (hs.1 f hf)
      · next hne hlt =>
        refine List.pairwise_cons.2 ⟨fun f hf => ?_, ih hs.2⟩
        rcases mem_insert hf with rfl | hf
        · exact lt_of_not_lt (Ne.symm hne) hlt
        · exact hs.1 f hf

theorem mem_erase {name : String} {fs : Fields α} {f : String × α} (h : f ∈ erase name fs) :
    f ∈ fs := by
  induction fs with
  | nil => simp [erase] at h
  | cons g rest ih =>
    obtain ⟨k, v⟩ := g
    simp only [erase] at h
    split at h
    · exact List.mem_cons_of_mem _ h
    · rcases List.mem_cons.1 h with h | h
      · exact h ▸ List.mem_cons_self
      · exact List.mem_cons_of_mem _ (ih h)

theorem sorted_erase {name : String} {fs : Fields α} (h : fs.Sorted) : (erase name fs).Sorted := by
  induction fs with
  | nil => simp [erase, Sorted]
  | cons g rest ih =>
    obtain ⟨k, v⟩ := g
    have hs := List.pairwise_cons.1 h
    simp only [erase]
    split
    · exact hs.2
    · exact List.pairwise_cons.2 ⟨fun f hf => hs.1 f (mem_erase hf), ih hs.2⟩

theorem get?_eq_none_of_forall_lt {name : String} {fs : Fields α} (h : ∀ f ∈ fs, name < f.1) :
    get? name fs = none := by
  induction fs with
  | nil => rfl
  | cons g rest ih =>
    obtain ⟨k, v⟩ := g
    have hk : name < k := h (k, v) List.mem_cons_self
    simp only [get?]
    rw [if_neg (fun e => String.lt_irrefl _ (e ▸ hk)),
      ih fun f hf => h f (List.mem_cons_of_mem _ hf)]

theorem get?_erase {name other : String} {fs : Fields α} (h : fs.Sorted) :
    get? other (erase name fs) = if name = other then none else get? other fs := by
  induction fs with
  | nil => simp [erase, get?]
  | cons g rest ih =>
    obtain ⟨k, v⟩ := g
    have hs := List.pairwise_cons.1 h
    simp only [erase]
    split
    · next hk =>
      subst hk
      by_cases ho : k = other
      · subst ho; simp [get?_eq_none_of_forall_lt hs.1]
      · simp [get?, ho]
    · next hk =>
      by_cases ho : k = other
      · subst ho; simp [get?, Ne.symm hk]
      · simp [get?, ho, ih hs.2]

end Fields

namespace Store

structure Table where
  rows : Fields Item
  sorted : rows.Sorted

namespace Table

def empty : Table := ⟨[], List.Pairwise.nil⟩

def get? (t : Table) (key : String) : Option Item :=
  Fields.get? key t.rows

def insert (t : Table) (key : String) (item : Item) : Table :=
  ⟨t.rows.insert key item, Fields.sorted_insert t.sorted⟩

def erase (t : Table) (key : String) : Table :=
  ⟨t.rows.erase key, Fields.sorted_erase t.sorted⟩

/-- All items by key. -/
def items (t : Table) : List Item :=
  t.rows.map (·.2)

theorem get?_insert (t : Table) (key other : String) (item : Item) :
    (t.insert key item).get? other = if key = other then some item else t.get? other :=
  Fields.get?_insert ..

theorem get?_erase (t : Table) (key other : String) :
    (t.erase key).get? other = if key = other then none else t.get? other :=
  Fields.get?_erase t.sorted

@[simp]
theorem get?_empty (key : String) : empty.get? key = none := rfl

end Table

end Store

end GroupCalendar
