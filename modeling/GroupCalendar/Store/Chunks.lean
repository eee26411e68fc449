/-! # Chunks

A list cut into consecutive parts of one length; only the last may be shorter.
-/

namespace GroupCalendar.Store

variable {α : Type}

/-- The first chunks of a list, at most so many. -/
def chunksUpTo (size : Nat) : Nat → List α → List (List α)
  | 0, _ => []
  | most + 1, xs =>
    if xs.isEmpty then [] else xs.take size :: chunksUpTo size most (xs.drop size)

def chunks (size : Nat) (xs : List α) : List (List α) :=
  chunksUpTo size xs.length xs

theorem flatten_chunksUpTo {size most : Nat} {xs : List α} (hs : 0 < size)
    (h : xs.length ≤ most) : (chunksUpTo size most xs).flatten = xs := by
  induction most generalizing xs with
  | zero => simp [chunksUpTo, List.eq_nil_of_length_eq_zero (Nat.le_zero.1 h)]
  | succ most ih =>
    cases xs with
    | nil => simp [chunksUpTo]
    | cons x rest =>
      simp only [chunksUpTo, List.isEmpty_cons, Bool.false_eq_true, if_false, List.flatten_cons]
      rw [ih (by simp at h ⊢; omega), List.take_append_drop]

/-- Nothing is lost or moved. -/
theorem flatten_chunks {size : Nat} (xs : List α) (hs : 0 < size) :
    (chunks size xs).flatten = xs :=
  flatten_chunksUpTo hs (Nat.le_refl _)

theorem length_le_of_mem_chunksUpTo {size most : Nat} {xs c : List α}
    (h : c ∈ chunksUpTo size most xs) : c.length ≤ size ∧ (0 < size → c ≠ []) := by
  induction most generalizing xs with
  | zero => simp [chunksUpTo] at h
  | succ most ih =>
    cases xs with
    | nil => simp [chunksUpTo] at h
    | cons x rest =>
      simp only [chunksUpTo, List.isEmpty_cons, Bool.false_eq_true, if_false,
        List.mem_cons] at h
      rcases h with rfl | h
      · refine ⟨List.length_take_le .., fun hs => ?_⟩
        cases size with
        | zero => omega
        | succ n => simp
      · exact ih h

end GroupCalendar.Store
