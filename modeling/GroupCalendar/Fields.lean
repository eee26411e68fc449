/-! # Fields

Values under names, kept in the order of the names with no name twice. Tables, items, objects of
JSON and settings are all of this shape.
-/

namespace GroupCalendar

abbrev Fields (α : Type) := List (String × α)

namespace Fields

variable {α : Type}

/-- The value under a name. -/
def get? (name : String) : Fields α → Option α
  | [] => none
  | (k, v) :: rest => if k = name then some v else get? name rest

/-- A value put under a name in place of any earlier one. -/
def insert (name : String) (value : α) : Fields α → Fields α
  | [] => [(name, value)]
  | (k, v) :: rest =>
    if k = name then (name, value) :: rest
    else if name < k then (name, value) :: (k, v) :: rest
    else (k, v) :: insert name value rest

/-- The fields without the one of a name. -/
def erase (name : String) : Fields α → Fields α
  | [] => []
  | (k, v) :: rest => if k = name then rest else (k, v) :: erase name rest

/-- The fields of a list of pairs, of which the last with a name counts. -/
def ofPairs (pairs : List (String × α)) : Fields α :=
  pairs.foldl (fun fs (k, v) => fs.insert k v) []

/-- Fields overlaid by later ones. -/
def overlay (fs later : Fields α) : Fields α :=
  later.foldl (fun fs (k, v) => fs.insert k v) fs

def names (fs : Fields α) : List String :=
  fs.map (·.1)

/-- The names stand in increasing order. -/
def Sorted (fs : Fields α) : Prop :=
  fs.Pairwise (·.1 < ·.1)

theorem get?_insert (name other : String) (value : α) (fs : Fields α) :
    get? other (insert name value fs) = if name = other then some value else get? other fs := by
  induction fs with
  | nil => simp [insert, get?]
  | cons f rest ih =>
    obtain ⟨k, v⟩ := f
    simp only [insert]
    split
    · next h => subst h; by_cases h : k = other <;> simp [get?, h]
    · split
      · by_cases h : name = other <;> simp [get?, h]
      · next hk _ =>
        by_cases h : k = other
        · subst h; simp [get?, Ne.symm hk]
        · simp [get?, h, ih]

@[simp]
theorem get?_insert_self (name : String) (value : α) (fs : Fields α) :
    get? name (insert name value fs) = some value := by
  simp [get?_insert]

end Fields

end GroupCalendar
