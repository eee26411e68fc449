import GroupCalendar.Text.Split

/-! # Parts between separators

Where the separator is in none of the parts, cutting undoes joining.
-/

namespace GroupCalendar.Text

variable {α : Type} [DecidableEq α] {sep : α} {part : List α}

theorem splitAt_of_notMem (h : sep ∉ part) : splitAt sep part = [part] := by
  induction part with
  | nil => rfl
  | cons c rest ih =>
    obtain ⟨hc, hr⟩ := not_or.mp (mt List.mem_cons.mpr h)
    rw [splitAt, if_neg (Ne.symm hc), ih hr]

/-- A part without the separator stands alone before the parts behind the separator. -/
theorem splitAt_append (h : sep ∉ part) (rest : List α) :
    splitAt sep (part ++ sep :: rest) = part :: splitAt sep rest := by
  induction part with
  | nil => rw [List.nil_append, splitAt, if_pos rfl]
  | cons c part ih =>
    obtain ⟨hc, hp⟩ := not_or.mp (mt List.mem_cons.mpr h)
    rw [List.cons_append, splitAt, if_neg (Ne.symm hc), ih hp]

omit [DecidableEq α] in
theorem joinWith_cons {rest : List (List α)} (part : List α) (h : rest ≠ []) :
    joinWith sep (part :: rest) = part ++ sep :: joinWith sep rest := by
  cases rest with
  | nil => exact absurd rfl h
  | cons next rest => rfl

theorem splitAt_joinWith {parts : List (List α)} (hne : parts ≠ [])
    (h : ∀ part ∈ parts, sep ∉ part) : splitAt sep (joinWith sep parts) = parts := by
  induction parts with
  | nil => exact absurd rfl hne
  | cons part rest ih =>
    obtain ⟨hpart, hrest⟩ := List.forall_mem_cons.mp h
    cases rest with
    | nil => exact splitAt_of_notMem hpart
    | cons next rest =>
      have hnext := List.cons_ne_nil next rest
      rw [joinWith_cons part hnext, splitAt_append hpart, ih hnext hrest]

omit [DecidableEq α] in
theorem mem_joinWith {c : α} {parts : List (List α)} (h : c ∈ joinWith sep parts) :
    c = sep ∨ ∃ part ∈ parts, c ∈ part := by
  induction parts with
  | nil => cases h
  | cons part rest ih =>
    cases rest with
    | nil => exact .inr ⟨part, List.mem_cons_self, h⟩
    | cons next rest =>
      rcases List.mem_append.mp h with h | h
      · exact .inr ⟨part, List.mem_cons_self, h⟩
      · rcases List.mem_cons.mp h with h | h
        · exact .inl h
        · exact (ih h).imp_right fun ⟨part, hpart, hc⟩ => ⟨part, List.mem_cons_of_mem _ hpart, hc⟩

theorem cutAt_append (h : sep ∉ part) (rest : List α) :
    cutAt sep (part ++ sep :: rest) = some (part, rest) := by
  induction part with
  | nil => rw [List.nil_append, cutAt, if_pos rfl]
  | cons c part ih =>
    obtain ⟨hc, hp⟩ := not_or.mp (mt List.mem_cons.mpr h)
    rw [List.cons_append, cutAt, if_neg (Ne.symm hc), ih hp]
    rfl

/-- Only the part behind the last separator must be without it. -/
theorem cutAtLast_append (h : sep ∉ part) (front : List α) :
    cutAtLast sep (front ++ sep :: part) = some (front, part) := by
  have hreverse : (front ++ sep :: part).reverse = part.reverse ++ sep :: front.reverse := by
    rw [List.reverse_append, List.reverse_cons, List.append_assoc, List.singleton_append]
  rw [cutAtLast, hreverse, cutAt_append (mt List.mem_reverse.mp h), Option.map_some]
  dsimp only
  rw [List.reverse_reverse, List.reverse_reverse]

omit [DecidableEq α] in
/-- What is done with every element of the parts is done with the joined parts. -/
theorem flatMap_joinWith {β : Type} (f : α → List β) {sep' : β} (hsep : f sep = [sep'])
    (parts : List (List α)) :
    (joinWith sep parts).flatMap f = joinWith sep' (parts.map (·.flatMap f)) := by
  induction parts with
  | nil => rfl
  | cons part rest ih =>
    cases rest with
    | nil => rfl
    | cons next rest =>
      rw [joinWith_cons part (List.cons_ne_nil next rest), List.flatMap_append, List.flatMap_cons,
        hsep, ih]
      rfl

end GroupCalendar.Text
