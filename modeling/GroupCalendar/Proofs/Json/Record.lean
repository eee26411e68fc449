import GroupCalendar.Json.Decode
import GroupCalendar.Proofs.Record

/-! # Records read from JSON

What reading a record from named values or from a row does, said of objects and of lists alike.
-/

namespace GroupCalendar.Json

open Record (Sets bind_eq_ok)

variable {ρ β : Type} {fields : List (Field ρ)} {part : ρ → β} {name : String} {r r' : ρ}
  {i : Nat} {x y : Json}

/-- What is read from an object is set from its members. -/
theorem setNamed_of_decodeRecord {initial : ρ} {members : Fields Json}
    (h : decodeRecord name fields initial (.object members) = .ok r) :
    Record.setNamed fields (fun _ => .ok ()) members initial = .ok r := by
  have hread : Record.readNamed fields (fun _ => .ok ()) .missingField members initial = .ok r := h
  exact (Record.readNamed_eq_ok hread).1

theorem decodeRecord_keeps {p : ρ → Prop}
    (hset : ∀ f ∈ fields, ∀ v r r', f.set v r = .ok r' → p r → p r')
    (h : decodeRecord name fields r x = .ok r') (hr : p r) : p r' := by
  cases x with
  | object members =>
    exact Record.setNamed_keeps (fun f hf v _ => hset f hf v) (setNamed_of_decodeRecord h) hr
  | array elements =>
    obtain ⟨⟨r₁, rest⟩, hrow, h⟩ := bind_eq_ok h
    dsimp only at h
    split at h <;> cases h
    exact Record.readRow_keeps hset hrow hr
  | _ => cases h

theorem decodeOption_eq_ok {α : Type} {decode : Json → Decoded α} {a : α}
    (h : decodeOption decode x = .ok (some a)) : decode x = .ok a := by
  cases x with
  | null => cases h
  | _ =>
    change some <$> decode _ = _ at h
    cases hx : decode _ with
    | error e =>
      rw [hx] at h
      cases h
    | ok b =>
      rw [hx] at h
      cases h
      rfl

/-- A value with the members of all its objects in order. -/
inductive Ordered : Json → Prop
  | null : Ordered .null
  | bool (b : Bool) : Ordered (.bool b)
  | integer (n : Int) : Ordered (.integer n)
  | float (x : Binary64) : Ordered (.float x)
  | string (s : String) : Ordered (.string s)
  | array {elements : List Json} (h : ∀ x ∈ elements, Ordered x) : Ordered (.array elements)
  | object {members : Fields Json} (hs : members.Sorted) (h : ∀ f ∈ members, Ordered f.2) :
    Ordered (.object members)

theorem Ordered.member (name : String) (h : x.Ordered) : (Json.object [(name, x)]).Ordered :=
  .object (List.pairwise_singleton _ _) (List.forall_mem_singleton.mpr h)

/-- The value of a field of a record: the member of its name, or the element in its place. -/
def field? (i : Nat) (name : String) : Json → Option Json
  | .object members => Fields.get? name members
  | .array elements => elements[i]?
  | _ => none

theorem Ordered.field? (hx : x.Ordered) (h : x.field? i name = some y) : y.Ordered := by
  cases hx with
  | array hall => exact hall y (List.mem_of_getElem? h)
  | object hs hall => exact hall (name, y) ((Fields.get?_eq_some_iff hs).mp h)
  | null | bool | integer | float | string => cases h

/-- A part of a record that one field alone changes is set from the value of this field. -/
theorem decodeRecord_sets {expected : String} (hx : x.Ordered)
    (hother : ∀ f ∈ fields, f.name ≠ name → ∀ v r r', f.set v r = .ok r' → part r' = part r)
    (hi : (fields.map (·.name))[i]? = some name) (hd : (fields.map (·.name)).Nodup)
    (h : decodeRecord expected fields r x = .ok r') :
    Sets fields part name r r' (x.field? i name) := by
  cases hx with
  | object hs _ =>
    exact Record.setNamed_sets hother (List.mem_of_getElem? hi) hs (setNamed_of_decodeRecord h)
  | array _ =>
    obtain ⟨⟨r₁, rest⟩, hrow, h⟩ := bind_eq_ok h
    dsimp only at h
    split at h <;> cases h
    exact Record.readRow_sets hother hi hd hrow
  | null | bool | integer | float | string => cases h

/-- A record with one field is left as it is, or set from the value of this field. -/
theorem decodeRecord_singleton {expected : String} {f : Field ρ} (hx : x.Ordered)
    (h : decodeRecord expected [f] r x = .ok r') :
    x.field? 0 f.name = none ∧ r' = r ∨ ∃ y, x.field? 0 f.name = some y ∧ f.set y r = .ok r' := by
  have hsets : Sets [f] id f.name r r' (x.field? 0 f.name) := by
    refine decodeRecord_sets hx ?_ rfl (List.pairwise_singleton _ _) h
    intro g hg hn
    exact absurd (congrArg Record.Field.name (List.mem_singleton.mp hg)) hn
  cases hy : x.field? 0 f.name with
  | none =>
    rw [hy] at hsets
    exact .inl ⟨rfl, hsets⟩
  | some y =>
    rw [hy] at hsets
    obtain ⟨g, hg, -, r₁, r₂, rfl, hset, rfl⟩ := hsets
    rw [List.mem_singleton.mp hg] at hset
    exact .inr ⟨y, rfl, hset⟩

end GroupCalendar.Json
