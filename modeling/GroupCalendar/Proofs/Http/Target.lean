import GroupCalendar.Http.Message
import GroupCalendar.Proofs.Text.Split
import Mathlib.Data.List.TakeWhile

/-! # Reading a target

A target that is written as a path of segments and a query is read as these, if no segment has a
sign that ends it.
-/

namespace GroupCalendar.Http.Request

open Text

variable {r : Request} {parts : List (List Char)} {query : List Char}

theorem joinWith_slash (parts : List (List Char)) :
    parts.flatMap ('/' :: ·) = joinWith '/' ([] :: parts) := by
  have hsteps : ∀ part, part ++ parts.flatMap ('/' :: ·) = joinWith '/' (part :: parts) := by
    induction parts with
    | nil => exact List.append_nil
    | cons next rest ih =>
      intro part
      rw [joinWith_cons part (List.cons_ne_nil next rest), ← ih next]
      rfl
  exact hsteps []

section Written

variable (htarget : r.target = String.ofList (parts.flatMap ('/' :: ·) ++ '?' :: query))
  (hne : parts ≠ []) (hparts : ∀ part ∈ parts, ∀ c ∈ ['/', '?', '#'], c ∉ part)
  (hquery : '#' ∉ query)

include htarget hne hparts hquery

theorem pathAndQuery_of_target : r.pathAndQuery = (parts.flatMap ('/' :: ·), query) := by
  have hpath : ∀ c ∈ ['?', '#'], c ∉ parts.flatMap ('/' :: ·) := by
    intro c hc hmem
    obtain ⟨part, hpart, hmem⟩ := List.mem_flatMap.mp hmem
    rcases List.mem_cons.mp hmem with rfl | hmem
    · revert hc
      decide
    · exact hparts part hpart c (List.mem_cons_of_mem _ hc) hmem
  have hkept : r.target.toList.takeWhile (· ≠ '#') = parts.flatMap ('/' :: ·) ++ '?' :: query := by
    rw [htarget, String.toList_ofList]
    refine List.takeWhile_eq_self_iff.mpr fun c hc => decide_eq_true ?_
    rintro rfl
    rcases List.mem_append.mp hc with hc | hc
    · exact hpath '#' (by decide) hc
    · rcases List.mem_cons.mp hc with hc | hc
      · cases hc
      · exact hquery hc
  have hslash : (parts.flatMap ('/' :: ·) ++ '?' :: query).head? = some '/' := by
    obtain ⟨part, rest, rfl⟩ := List.exists_cons_of_ne_nil hne
    rfl
  rw [pathAndQuery, hkept]
  simp only [hslash, if_true, cutAt_append (hpath '?' (by decide))]
  rfl

theorem segments_of_target : r.segments = parts := by
  have hslash : ∀ part ∈ [] :: parts, '/' ∉ part := by
    intro part hpart
    rcases List.mem_cons.mp hpart with rfl | hpart
    · exact List.not_mem_nil
    · exact hparts part hpart '/' (by decide)
  rw [segments, pathAndQuery_of_target htarget hne hparts hquery, joinWith_slash,
    splitAt_joinWith (List.cons_ne_nil _ _) hslash]
  rfl

theorem query_of_target : r.query = query := by
  rw [Request.query, pathAndQuery_of_target htarget hne hparts hquery]

end Written

end GroupCalendar.Http.Request
