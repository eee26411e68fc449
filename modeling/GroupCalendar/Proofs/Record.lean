import GroupCalendar.Proofs.Store.Contents
import GroupCalendar.Record
import Mathlib.Data.List.Forall2

/-! # What reading a record does

What every field keeps is kept by reading all of them, and a part of the record that one field alone
changes is set from the value of this field, whether values have names or stand in a row.
-/

namespace GroupCalendar.Record

variable {ν ε ρ β : Type} {fields : List (Field ν ε ρ)} {skip : ν → Except ε Unit}
  {short : Nat → ε} {n : Nat} {r r' : ρ}

/-- What a list is read as, element by element. -/
theorem forall₂_of_mapM {α : Type} {f : α → Except ε β} {xs : List α} {ys : List β}
    (h : xs.mapM f = .ok ys) : List.Forall₂ (fun x y => f x = .ok y) xs ys := by
  induction xs generalizing ys with
  | nil =>
    cases h
    exact .nil
  | cons x xs ih =>
    rw [List.mapM_cons] at h
    obtain ⟨y, hy, h⟩ := bind_eq_ok h
    obtain ⟨ys, hys, h⟩ := bind_eq_ok h
    cases h
    exact .cons hy (ih hys)

theorem mapError_eq_ok_iff {ε' α : Type} {f : ε → ε'} {x : Except ε α} {a : α} :
    x.mapError f = .ok a ↔ x = .ok a := by
  cases x <;> simp [Except.mapError]

theorem ok_of_mapError {ε' α : Type} {f : ε → ε'} {x : Except ε α} {a : α}
    (h : x.mapError f = .ok a) : x = .ok a :=
  mapError_eq_ok_iff.mp h

theorem readNamed_eq_ok {missing : String → ε} {values : Fields ν}
    (h : readNamed fields skip missing values r = .ok r') :
    setNamed fields skip values r = .ok r' ∧
      ∀ f ∈ fields, f.required = true → (values.get? f.name).isSome := by
  obtain ⟨r₁, hr, h⟩ := bind_eq_ok h
  split at h
  · cases h
  · next hn =>
    cases h
    refine ⟨hr, fun f hf hq => ?_⟩
    have hv := List.find?_eq_none.mp hn f hf
    simpa [hq, Option.isSome_iff_ne_none] using hv

section Kept

variable {p : ρ → Prop}

/-- What every value that is set keeps, all of them keep. -/
theorem setNamed_keeps {values : Fields ν}
    (hset : ∀ f ∈ fields, ∀ v, (f.name, v) ∈ values → ∀ r r', f.set v r = .ok r' → p r → p r')
    (h : setNamed fields skip values r = .ok r') (hr : p r) : p r' := by
  induction values generalizing r with
  | nil =>
    cases h
    exact hr
  | cons field rest ih =>
    obtain ⟨name, v⟩ := field
    have hrest : ∀ f ∈ fields, ∀ v, (f.name, v) ∈ rest → ∀ r r', f.set v r = .ok r' → p r → p r' :=
      fun f hf v hv => hset f hf v (List.mem_cons_of_mem _ hv)
    simp only [setNamed] at h
    split at h
    · next f hf =>
      obtain ⟨r₁, hr₁, h⟩ := bind_eq_ok h
      obtain rfl : f.name = name := by simpa using List.find?_some hf
      exact ih hrest h
        (hset f (List.mem_of_find?_eq_some hf) v List.mem_cons_self r r₁ hr₁ hr)
    · obtain ⟨-, -, h⟩ := bind_eq_ok h
      exact ih hrest h hr

/-- What every value that is set keeps, a row of them keeps. -/
theorem readRow_keeps {values rest : List ν} (hset : ∀ f ∈ fields, ∀ v r r', f.set v r = .ok r' → p r → p r')
    (h : readRow short n fields values r = .ok (r', rest)) (hr : p r) : p r' := by
  induction fields generalizing n values r with
  | nil =>
    cases h
    exact hr
  | cons f fields ih =>
    obtain ⟨hf, hfields⟩ := List.forall_mem_cons.mp hset
    cases values with
    | nil =>
      rw [readRow] at h
      split at h
      · cases h
      · exact ih hfields h hr
    | cons v values =>
      obtain ⟨r₁, hr₁, h⟩ := bind_eq_ok h
      exact ih hfields h (hf v r r₁ hr₁ hr)

end Kept

section Parts

variable {part : ρ → β} {name : String}

/-- A part of a record is left as it is without a value, and otherwise set from the value by a field
of a name. -/
def Sets (fields : List (Field ν ε ρ)) (part : ρ → β) (name : String) (r r' : ρ) :
    Option ν → Prop
  | none => part r' = part r
  | some v => ∃ f ∈ fields, f.name = name ∧
      ∃ r₁ r₂, part r₁ = part r ∧ f.set v r₁ = .ok r₂ ∧ part r' = part r₂

/-- A part of the record that one field alone changes is set from the value under its name. -/
theorem setNamed_sets
    (hother : ∀ f ∈ fields, f.name ≠ name → ∀ v r r', f.set v r = .ok r' → part r' = part r)
    (hmem : name ∈ fields.map (·.name)) {values : Fields ν} (hs : values.Sorted)
    (h : setNamed fields skip values r = .ok r') :
    Sets fields part name r r' (values.get? name) := by
  induction values generalizing r with
  | nil =>
    cases h
    rfl
  | cons field rest ih =>
    obtain ⟨k, v⟩ := field
    obtain ⟨hlt, hs⟩ := List.pairwise_cons.1 hs
    have hfind : fields.find? (·.name = k) = none → k ≠ name := by
      rintro hn rfl
      obtain ⟨f, hf, hk⟩ := List.mem_map.mp hmem
      simpa [hk] using List.find?_eq_none.mp hn f hf
    simp only [setNamed] at h
    simp only [Fields.get?]
    split at h
    · next f hf =>
      obtain ⟨r₁, hr, h⟩ := bind_eq_ok h
      have hf' := List.mem_of_find?_eq_some hf
      have hk : f.name = k := by simpa using List.find?_some hf
      have hrest := ih hs h
      split
      · next hkn =>
        rw [Fields.get?_eq_none_of_forall_lt (hkn ▸ hlt)] at hrest
        exact ⟨f, hf', hk.trans hkn, r, r₁, rfl, hr, hrest⟩
      · next hkn =>
        have hpart := hother f hf' (fun e => hkn (hk.symm.trans e)) v r r₁ hr
        simp only [Sets, hpart] at hrest ⊢
        exact hrest
    · next hn =>
      obtain ⟨-, -, h⟩ := bind_eq_ok h
      rw [if_neg (hfind hn)]
      exact ih hs h

/-- A part of the record that one field alone sets is what that field reads. -/
theorem setNamed_eq_ok (part : ρ → β) (read : ν → Except ε β) (name : String)
    (hname : ∀ f ∈ fields, f.name = name → ∀ v r r', f.set v r = .ok r' → read v = .ok (part r'))
    (hother : ∀ f ∈ fields, f.name ≠ name → ∀ v r r', f.set v r = .ok r' → part r' = part r)
    (hmem : name ∈ fields.map (·.name)) {values : Fields ν} (hs : values.Sorted)
    (h : setNamed fields skip values r = .ok r') :
    (values.get? name).elim (part r' = part r) fun v => read v = .ok (part r') := by
  have hsets := setNamed_sets hother hmem hs h
  cases hv : values.get? name with
  | none =>
    rw [hv] at hsets
    exact hsets
  | some v =>
    rw [hv] at hsets
    obtain ⟨f, hf, hn, r₁, r₂, -, hset, hpart⟩ := hsets
    exact hpart ▸ hname f hf hn v r₁ r₂ hset

theorem Sets.cons (f : Field ν ε ρ) (h : Sets fields part name r₁ r' v)
    (hr : part r₁ = part r) : Sets (f :: fields) part name r r' v := by
  cases v with
  | none => exact Eq.trans h hr
  | some v =>
    obtain ⟨g, hg, hn, r₂, r₃, hpart, hset, he⟩ := h
    exact ⟨g, List.mem_cons_of_mem _ hg, hn, r₂, r₃, hpart.trans hr, hset, he⟩

theorem eq_of_readRow_nil {rest : List ν}
    (h : readRow short n fields [] r = .ok (r', rest)) : r' = r := by
  induction fields generalizing n with
  | nil =>
    cases h
    rfl
  | cons f fields ih =>
    rw [readRow] at h
    split at h
    · cases h
    · exact ih h

/-- A part of the record that one field alone changes is set from the value in the place of the
field. -/
theorem readRow_sets {i : Nat} {values rest : List ν}
    (hother : ∀ f ∈ fields, f.name ≠ name → ∀ v r r', f.set v r = .ok r' → part r' = part r)
    (hi : (fields.map (·.name))[i]? = some name) (hd : (fields.map (·.name)).Nodup)
    (h : readRow short n fields values r = .ok (r', rest)) :
    Sets fields part name r r' values[i]? := by
  induction fields generalizing n i values r with
  | nil => cases hi
  | cons f fields ih =>
    simp only [List.map_cons, List.nodup_cons, List.mem_map, not_exists, not_and] at hd
    obtain ⟨hdistinct, hd⟩ := hd
    obtain ⟨hf, hfields⟩ := List.forall_mem_cons.mp hother
    cases values with
    | nil => exact congrArg part (eq_of_readRow_nil h)
    | cons v values =>
      obtain ⟨r₁, hr₁, h⟩ := bind_eq_ok h
      cases i with
      | zero =>
        obtain rfl : f.name = name := Option.some.inj hi
        have hrest : part r' = part r₁ := by
          refine readRow_keeps (p := fun r => part r = part r₁) ?_ h rfl
          intro g hg v r r' hset hr
          exact (hfields g hg (hdistinct g hg) v r r' hset).trans hr
        exact ⟨f, List.mem_cons_self, rfl, r, r₁, rfl, hr₁, hrest⟩
      | succ i =>
        replace hi : (fields.map (·.name))[i]? = some name := hi
        obtain ⟨g, hg, hgn⟩ := List.mem_map.mp (List.mem_of_getElem? hi)
        have hn : f.name ≠ name := fun e => hdistinct g hg (hgn.trans e.symm)
        exact (ih hfields hi hd h).cons f (hf hn v r r₁ hr₁)

end Parts

end GroupCalendar.Record
