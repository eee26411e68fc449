import GroupCalendar.Proofs.Store.Paging
import Mathlib.Data.Prod.Lex
import Mathlib.Data.String.Basic
import Mathlib.Order.WithBot

/-! # The order of an answer

The matching items of a query stand in the strict order of their places, which are pairs of texts:
first the text by which the query sorts, then the key. What follows a key is therefore what has a
later place, as long as the item with the key is among the matching items.
-/

namespace GroupCalendar.Store

namespace Schema

variable {s : Schema} {q : Query} {t : Table}

/-- No text comes before every text. -/
def rank : Option String → WithBot String
  | none => ⊥
  | some text => text

theorem textBefore_iff (a b : Option String) : textBefore a b = true ↔ rank a < rank b := by
  cases a <;> cases b <;> simp [textBefore, rank]

theorem rank_inj {a b : Option String} : rank a = rank b ↔ a = b := by
  cases a <;> cases b <;> simp [rank]

/-- The place of an item in the answer to a query. -/
def place (s : Schema) (q : Query) (item : Item) : WithBot String ×ₗ WithBot String :=
  toLex (rank (s.sortKey q item).1, rank (s.sortKey q item).2)

theorem notAfter_iff (a b : Option String × Option String) :
    notAfter a b = true ↔ toLex (rank a.1, rank a.2) ≤ toLex (rank b.1, rank b.2) := by
  rw [Prod.Lex.toLex_le_toLex, notAfter, Bool.or_eq_true, Bool.and_eq_true, Bool.not_eq_true',
    ← Bool.not_eq_true, textBefore_iff, textBefore_iff, decide_eq_true_eq, not_lt, rank_inj]

theorem sortedLE_matching (s : Schema) (q : Query) (t : Table) :
    (s.matching q t).Pairwise fun a b => s.place q a ≤ s.place q b := by
  have h : (s.matching q t).Pairwise fun a b =>
      notAfter (s.sortKey q a) (s.sortKey q b) = true := by
    refine List.pairwise_mergeSort ?_ ?_ _
    · intro a b c hab hbc
      rw [notAfter_iff] at hab hbc ⊢
      exact le_trans hab hbc
    · intro a b
      rw [Bool.or_eq_true, notAfter_iff, notAfter_iff]
      exact le_total _ _
  exact h.imp fun hab => (notAfter_iff _ _).mp hab

/-- Items that already stand in the order of the answer are not moved. -/
theorem matching_eq_of_sorted (h : (t.items.filter (s.isMatch q)).Pairwise fun a b =>
    notAfter (s.sortKey q a) (s.sortKey q b) = true) :
    s.matching q t = t.items.filter (s.isMatch q) :=
  List.mergeSort_of_pairwise h

/-- Of items under different keys the places differ. -/
theorem sorted_matching (hk : t.Keyed (s.keyName q.table)) :
    (s.matching q t).Pairwise fun a b => s.place q a < s.place q b := by
  refine (sortedLE_matching s q t).imp₂ ?_ (distinct_matching hk)
  intro a b hle hne
  refine lt_of_le_of_ne hle fun he => hne ?_
  have hrank := congrArg (fun p => (ofLex p).2) he
  exact rank_inj.mp hrank

/-- The answer is told by its items and their order. -/
theorem matching_eq_of_perm (hk : t.Keyed (s.keyName q.table)) {items : List Item}
    (hp : items.Perm (t.items.filter (s.isMatch q)))
    (hs : items.Pairwise fun a b => notAfter (s.sortKey q b) (s.sortKey q a) = false) :
    s.matching q t = items := by
  refine ((matching_perm s q t).trans hp.symm).eq_of_pairwise ?_ (sorted_matching hk)
    (hs.imp fun {a b} hab => ?_)
  · intro a b _ _ hab hba
    exact absurd (hab.trans hba) (lt_irrefl _)
  · rw [← Bool.not_eq_true, notAfter_iff, not_le] at hab
    exact hab

/-- What follows an item of the answer has a later place. -/
theorem resume_eq_filter (hk : t.Keyed (s.keyName q.table)) {item key : Item}
    (hi : item ∈ s.matching q t)
    (hkey : key.text? (s.keyName q.table) = item.text? (s.keyName q.table)) :
    s.resume q (some key) (s.matching q t) =
      (s.matching q t).filter (s.place q item < s.place q ·) := by
  obtain ⟨front, rest, hsplit⟩ := List.append_of_mem hi
  have hd := distinct_matching (s := s) (q := q) hk
  have hs := sorted_matching (s := s) (q := q) hk
  rw [hsplit] at hd hs ⊢
  obtain ⟨-, hs', hfront⟩ := List.pairwise_append.mp hs
  rw [resume_append hd hkey, List.filter_append, List.filter_cons_of_neg (by simp),
    List.filter_eq_nil_iff.mpr, List.filter_eq_self.mpr, List.nil_append]
  · intro b hb
    exact decide_eq_true ((List.pairwise_cons.mp hs').1 b hb)
  · intro a ha
    simpa using (hfront a ha item List.mem_cons_self).le

end Schema

end GroupCalendar.Store
