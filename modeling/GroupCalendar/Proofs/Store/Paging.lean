import GroupCalendar.Proofs.Store.Session
import GroupCalendar.Store.Batch

/-! # Reading all pages

The items that match a query stand under different keys, so the key of the last item of a page
says where the next page starts. The pages of a query on tables that do not change are its
matching items in their order, each once.
-/

namespace GroupCalendar.Store

namespace Schema

variable {s : Schema} {q : Query} {t : Table}

theorem matching_perm (s : Schema) (q : Query) (t : Table) :
    (s.matching q t).Perm (t.items.filter (s.isMatch q)) :=
  List.mergeSort_perm ..

theorem mem_matching {item : Item} :
    item ∈ s.matching q t ↔ item ∈ t.items ∧ s.isMatch q item = true := by
  rw [(matching_perm s q t).mem_iff, List.mem_filter]

/-- No two items stand under one text of a name. -/
def Distinct (name : String) (items : List Item) : Prop :=
  items.Pairwise fun a b => a.text? name ≠ b.text? name

theorem distinct_items {name : String} (h : t.Keyed name) : Distinct name t.items := by
  refine List.pairwise_map.mpr (List.Pairwise.imp_of_mem ?_ t.sorted)
  intro a b ha hb hlt he
  have hka := h _ _ ((Fields.get?_eq_some_iff t.sorted).mpr ha)
  have hkb := h _ _ ((Fields.get?_eq_some_iff t.sorted).mpr hb)
  rw [hka, hkb, Option.some.injEq] at he
  exact String.lt_irrefl _ (he ▸ hlt)

theorem distinct_matching {name : String} (h : t.Keyed name) : Distinct name (s.matching q t) :=
  ((matching_perm s q t).pairwise_iff Ne.symm).mpr ((distinct_items h).filter _)

/-- The names that the key of a page has: those of the table's key and of the query. -/
def resumeNames (s : Schema) (q : Query) : List String :=
  s.keyName q.table :: q.partitionName :: (s.sortName q).toList

theorem text?_resumeKey_eq (item : Item) (name : String) :
    (s.resumeKey q item).text? name = if name ∈ s.resumeNames q then item.text? name else none := by
  have hg := Fields.get?_overlay_select [] item (s.resumeNames q) name
  change (Fields.get? _ (Fields.overlay [] (item.select _))).bind _ = _
  rw [show s.keyName q.table :: q.partitionName :: (s.sortName q).toList = s.resumeNames q from rfl,
    hg]
  split <;> simp [Fields.get?, Item.text?]

theorem text?_resumeKey_of_mem (item : Item) {name : String} (h : name ∈ s.resumeNames q) :
    (s.resumeKey q item).text? name = item.text? name := by
  rw [text?_resumeKey_eq, if_pos h]

/-- A text of the key is one of the item. -/
theorem text?_of_resumeKey {item : Item} {name text : String}
    (h : (s.resumeKey q item).text? name = some text) : item.text? name = some text := by
  rw [text?_resumeKey_eq] at h
  split at h
  · exact h
  · cases h

/-- The page behind an item starts at the key of the item. -/
theorem text?_resumeKey (s : Schema) (q : Query) (item : Item) :
    (s.resumeKey q item).text? (s.keyName q.table) = item.text? (s.keyName q.table) :=
  text?_resumeKey_of_mem item List.mem_cons_self

theorem resume_append {front rest : List Item} {last key : Item}
    (hd : Distinct (s.keyName q.table) (front ++ last :: rest))
    (hk : key.text? (s.keyName q.table) = last.text? (s.keyName q.table)) :
    s.resume q (some key) (front ++ last :: rest) = rest := by
  have hf : ∀ item ∈ front, item.text? (s.keyName q.table) ≠ key.text? (s.keyName q.table) :=
    fun item hi => hk ▸ (List.pairwise_append.mp hd).2.2 item hi last List.mem_cons_self
  simp only [resume]
  rw [List.dropWhile_append_of_pos (by simpa using hf), List.dropWhile_cons_of_neg (by simp [hk])]
  rfl

theorem mem_of_mem_resume {start : Option Item} {items : List Item} {item : Item}
    (h : item ∈ s.resume q start items) : item ∈ items := by
  cases start with
  | none => exact h
  | some key => exact (List.dropWhile_sublist _).subset (List.mem_of_mem_drop h)

theorem pageLimit_pos (hp : 0 < s.pageSize) (q : Query) : 0 < s.pageLimit q := by
  unfold pageLimit
  split <;> omega

end Schema

/-- A page that is cut short has a last item, and so a key. -/
theorem eq_of_lastKey_none {n : Nat} {items remaining : List Item} {key : Item → Item}
    (hn : 0 < n) (hi : items = remaining.take n)
    (hl : (if items.length < remaining.length then items.getLast?.map key else none) = none) :
    items = remaining := by
  by_cases hlt : items.length < remaining.length
  · rw [if_pos hlt, Option.map_eq_none_iff, List.getLast?_eq_none_iff] at hl
    have hlength := congrArg List.length hi
    rw [hl] at hlt hlength
    rw [List.length_take, List.length_nil] at hlength
    rw [List.length_nil] at hlt
    omega
  · rw [hi, List.length_take] at hlt
    rw [hi, List.take_of_length_le (by omega)]

/-- A page that names a key ends with the item of the key, before what is left. -/
theorem exists_last_of_lastKey {n : Nat} {items remaining : List Item} {key : Item → Item}
    {k : Item} (hi : items = remaining.take n)
    (hl : (if items.length < remaining.length then items.getLast?.map key else none) = some k) :
    ∃ init last, remaining = init ++ last :: remaining.drop n ∧ k = key last := by
  split at hl
  case isFalse => cases hl
  case isTrue =>
    obtain ⟨last, hlast, rfl⟩ := Option.map_eq_some_iff.mp hl
    obtain ⟨init, hinit⟩ := List.getLast?_eq_some_iff.mp hlast
    refine ⟨init, last, ?_, rfl⟩
    calc
      remaining = remaining.take n ++ remaining.drop n := (List.take_append_drop n remaining).symm
      _ = (init ++ [last]) ++ remaining.drop n := by rw [← hi, hinit]
      _ = init ++ last :: remaining.drop n := by simp

namespace Memory

variable {m m' : Memory} {q : Query} {start : Option Item} {rest : List Item}

/-- Of the items that match a query these are left behind a key. -/
structure Leaves (m : Memory) (q : Query) (start : Option Item) (rest : List Item) : Prop where
  suffix : rest <:+ m.schema.matching q (m.table q.table)
  resume_eq : m.schema.resume q start (m.schema.matching q (m.table q.table)) = rest

theorem leaves_matching (m : Memory) (q : Query) :
    m.Leaves q none (m.schema.matching q (m.table q.table)) :=
  ⟨List.suffix_rfl, rfl⟩

theorem Leaves.of_same (h : m.Leaves q start rest) (hs : m.Same m') : m'.Leaves q start rest := by
  obtain ⟨hsuffix, hresume⟩ := h
  constructor
  · rwa [hs.schema_eq, hs.table_eq]
  · rwa [hs.schema_eq, hs.table_eq]

section Page

variable {page : Page} (h : m.Leaves q start rest) (hq : (m.query q start).1 = .ok page)

include h hq

/-- A page without a key holds all that is left. -/
theorem Leaves.items_eq (hp : 0 < m.schema.pageSize) (hkey : page.lastKey = none) :
    page.items = rest := by
  obtain ⟨hi, hl⟩ := query_eq_ok hq
  rw [h.resume_eq] at hi hl
  rw [hkey] at hl
  exact eq_of_lastKey_none (Schema.pageLimit_pos hp q) hi hl.symm

/-- Behind the key of a page less is left, namely what follows the page. -/
theorem Leaves.exists_tail (hk : (m.table q.table).Keyed (m.schema.keyName q.table)) {key : Item}
    (hkey : page.lastKey = some key) :
    ∃ tail, rest = page.items ++ tail ∧ tail.length < rest.length ∧ m.Leaves q (some key) tail := by
  obtain ⟨hi, hl⟩ := query_eq_ok hq
  rw [h.resume_eq] at hi hl
  rw [hkey] at hl
  obtain ⟨front, hfront⟩ := h.suffix
  obtain ⟨init, last, hrest, rfl⟩ := exists_last_of_lastKey hi hl.symm
  have htake := List.take_append_drop (m.schema.pageLimit q) rest
  rw [← hi] at htake
  generalize rest.drop (m.schema.pageLimit q) = tail at hrest htake
  have hd := Schema.distinct_matching (s := m.schema) (q := q) hk
  rw [← hfront, hrest, ← List.append_assoc] at hd
  refine ⟨tail, htake.symm, ?_, ⟨front ++ init ++ [last], ?_⟩, ?_⟩
  · rw [hrest, List.length_append, List.length_cons]
    omega
  · rw [← hfront, hrest]
    simp
  · rw [← hfront, hrest, ← List.append_assoc]
    exact Schema.resume_append hd (Schema.text?_resumeKey ..)

end Page

end Memory

open Service

variable {ω : Type} {source : Source ω}

/-- Reading on from a place behind which some items are left gives those. -/
theorem queryFrom_ensures {m : Memory} {q : Query} {rest : List Item} {start : Option Item}
    (hk : (m.table q.table).Keyed (m.schema.keyName q.table)) (hp : 0 < m.schema.pageSize)
    (hs : m.Leaves q start rest) (pages : Nat) (w : ω) :
    (queryFrom q pages start).Ensures (session source) (m, w) fun items s =>
      items = rest ∧ m.Same s.1 ∧ s.2 = w := by
  induction pages generalizing m rest start with
  | zero => exact Task.ensures_exhausted _ _
  | succ pages ih =>
    refine (Task.ensures_query (fun page s => (m.query q start).1 = .ok page ∧
      m.Same s.1 ∧ s.2 = w) trivial ?_).bind ?_
    · rintro page s hr
      obtain ⟨h, rfl⟩ := Prod.mk.inj hr
      exact ⟨h, m.query_same q start, rfl⟩
    · rintro page ⟨m', w'⟩ ⟨hq, hsame, rfl⟩
      split
      · next hkey => exact Task.ensures_pure ⟨hs.items_eq hq hp hkey, hsame, rfl⟩
      · next key hkey =>
        obtain ⟨tail, rfl, -, htail⟩ := hs.exists_tail hq hk hkey
        have hk' : (m'.table q.table).Keyed (m'.schema.keyName q.table) := by
          rwa [hsame.schema_eq, hsame.table_eq]
        refine (ih hk' (by rwa [hsame.schema_eq]) (htail.of_same hsame)).bind ?_
        rintro items s ⟨rfl, hsame', hw⟩
        exact Task.ensures_pure ⟨rfl, hsame.trans hsame', hw⟩

/-- All pages of a query hold its matching items. -/
theorem queryAll_ensures {m : Memory} {q : Query}
    (hk : (m.table q.table).Keyed (m.schema.keyName q.table)) (hp : 0 < m.schema.pageSize)
    (pages : Nat) (w : ω) :
    (queryAll pages q).Ensures (session source) (m, w) fun items s =>
      items = m.schema.matching q (m.table q.table) ∧ m.Same s.1 ∧ s.2 = w :=
  queryFrom_ensures hk hp (m.leaves_matching q) pages w

end GroupCalendar.Store
