import GroupCalendar.Proofs.Program.Returns
import GroupCalendar.Proofs.Store.Order

/-! # The pages of a query

Whatever has been asked of a store since it was empty, its items stand under different keys and its
pages hold at least one item. So the pages of a query come to an end. They hold the items that the
query selects in the order of their places, each once, and a page names a key exactly if items
follow it.
-/

namespace GroupCalendar

namespace Store

open Service

/-- The texts that satisfy a condition. -/
def Condition.Admits : Condition → String → Prop
  | .after low, s => low < s
  | .before high, s => s < high
  | .between low high, s => low ≤ s ∧ s ≤ high

theorem Condition.holds_iff {k : Condition} {s : String} : k.holds s = true ↔ k.Admits s := by
  cases k with
  | after low | before high => exact decide_eq_true_iff
  | between low high =>
    rw [holds, Bool.and_eq_true, Bool.not_eq_true', Bool.not_eq_true', decide_eq_false_iff_not,
      decide_eq_false_iff_not, not_lt, not_lt]
    exact Iff.rfl

namespace Schema

variable {s : Schema} {q : Query} {t : Table} {item : Item} {start : Option Item}

/-- What a query asks for: the value of its partition, a text that satisfies its condition, and in
an index a text to sort by. -/
structure Selects (s : Schema) (q : Query) (item : Item) : Prop where
  partition : item.text? q.partitionName = some q.partitionValue
  condition : ∀ name k, q.sort = some (name, k) →
    ∃ text, item.text? name = some text ∧ k.Admits text
  indexed : q.index.isSome → ∀ name, s.sortName q = some name → (item.text? name).isSome

theorem indexed_iff : s.indexed q item = true ↔
    (q.index.isSome → ∀ name, s.sortName q = some name → (item.text? name).isSome) := by
  unfold indexed
  cases q.index with
  | none => simp
  | some index => cases s.sortName q <;> simp

theorem isMatch_iff : s.isMatch q item = true ↔ s.Selects q item := by
  rw [isMatch, Bool.and_eq_true, Bool.and_eq_true, decide_eq_true_eq, indexed_iff]
  constructor
  · rintro ⟨⟨hp, hi⟩, hc⟩
    refine ⟨hp, fun name k hq => ?_, hi⟩
    rw [hq, Option.any_eq_true] at hc
    obtain ⟨text, htext, hk⟩ := hc
    exact ⟨text, htext, Condition.holds_iff.mp hk⟩
  · rintro ⟨hp, hc, hi⟩
    refine ⟨⟨hp, hi⟩, ?_⟩
    split
    · next name k hq =>
      obtain ⟨text, htext, hk⟩ := hc name k hq
      rw [htext]
      exact Condition.holds_iff.mpr hk
    · rfl

theorem pageLimit_le (s : Schema) (q : Query) : s.pageLimit q ≤ s.pageSize ∧
    ∀ limit, q.limit = some limit → (s.pageLimit q : Int) ≤ max limit 1 := by
  unfold pageLimit
  cases q.limit with
  | none => exact ⟨Nat.le_refl _, nofun⟩
  | some limit =>
    refine ⟨Nat.min_le_right .., ?_⟩
    rintro _ ⟨⟩
    dsimp only
    omega

theorem resume_suffix (s : Schema) (q : Query) (start : Option Item) (items : List Item) :
    s.resume q start items <:+ items := by
  cases start with
  | none => exact List.suffix_rfl
  | some key => exact (List.drop_suffix ..).trans (List.dropWhile_suffix _)

end Schema

namespace Memory

variable {m m' m'' : Memory} {q : Query} {start : Option Item} {rest : List Item} {page : Page}

/-- A page is cut out of the answer, and it names a key exactly if something follows it there. -/
theorem exists_matching_eq (hp : 0 < m.schema.pageSize) (h : (m.query q start).1 = .ok page) :
    ∃ front back, m.schema.matching q (m.table q.table) = front ++ (page.items ++ back) ∧
      m.schema.resume q start (m.schema.matching q (m.table q.table)) = page.items ++ back ∧
      page.items.length ≤ m.schema.pageLimit q ∧ (page.lastKey.isSome ↔ back ≠ []) := by
  obtain ⟨hitems, hlast⟩ := query_eq_ok h
  obtain ⟨front, hfront⟩ :=
    m.schema.resume_suffix q start (m.schema.matching q (m.table q.table))
  generalize m.schema.resume q start _ = remaining at hitems hlast hfront
  have hpos := Schema.pageLimit_pos hp q
  have hsplit : remaining = page.items ++ remaining.drop (m.schema.pageLimit q) := by
    rw [hitems, List.take_append_drop]
  refine ⟨front, remaining.drop (m.schema.pageLimit q), by rw [← hsplit, hfront], hsplit, ?_, ?_⟩
  · rw [hitems]
    exact List.length_take_le ..
  · have hlength : page.items.length < remaining.length ↔
        remaining.drop (m.schema.pageLimit q) ≠ [] := by
      rw [hitems, List.length_take, ne_eq, List.drop_eq_nil_iff]
      omega
    rw [hlast, ← hlength]
    split
    · next hlt =>
      have hne : page.items ≠ [] := by
        rw [hitems, ne_eq, List.take_eq_nil_iff, not_or]
        exact ⟨by omega, List.ne_nil_of_length_pos (by omega)⟩
      rw [Option.isSome_map, List.getLast?_isSome]
      exact iff_of_true hne hlt
    · next hlt => exact iff_of_false Bool.false_ne_true hlt

theorem nextError_query (m : Memory) (q : Query) (start : Option Item) :
    (m.query q start).2.faults.nextError = none := by
  unfold query
  dsimp only
  split
  all_goals
    next he =>
      obtain ⟨-, rfl⟩ := Prod.mk.inj he
      rfl

/-- Stores that come from an empty one. Items are put in, requests are answered and faults are
set. -/
inductive Reachable : Memory → Prop
  | empty {s : Schema} (h : 0 < s.pageSize) : Reachable { schema := s }
  | putItem {m : Memory} (h : Reachable m) (table : String) (item : Item) :
    Reachable (m.putItem table item)
  | answer {m : Memory} (h : Reachable m) (r : Request) : Reachable (m.answer r).2
  | faults {m : Memory} (h : Reachable m) (faults : Faults) : Reachable { m with faults := faults }

theorem Reachable.putItems (h : m.Reachable) (table : String) (items : List Item) :
    (items.foldl (fun m item => m.putItem table item) m).Reachable := by
  induction items generalizing m with
  | nil => exact h
  | cons item rest ih => exact ih (h.putItem table item)

theorem schema_answer (m : Memory) (r : Request) : (m.answer r).2.schema = m.schema := by
  cases r with
  | query q start => exact (m.query_same q start).schema_eq
  | getItem table key => exact (m.getItem_same table key).schema_eq
  | batchGet table keys => exact (m.batchGet_found table keys).1.schema_eq
  | batchWrite table ws =>
    obtain ⟨done, -, hw, -⟩ := m.batchWrite_wrote table ws
    exact hw.schema_eq

theorem schema_putItem (m : Memory) (table : String) (item : Item) :
    (m.putItem table item).schema = m.schema := by
  unfold Memory.putItem
  split <;> rfl

theorem Reachable.keyed (h : m.Reachable) : m.Keyed := by
  induction h with
  | empty => exact keyed_of_tables_nil rfl
  | putItem h table item ih => exact ih.putItem table item
  | answer h r ih => exact ih.answer r
  | faults h faults ih => exact ih

theorem Reachable.pageSize_pos (h : m.Reachable) : 0 < m.schema.pageSize := by
  induction h with
  | empty h => exact h
  | putItem h table item ih => rwa [schema_putItem]
  | answer h r ih => rwa [schema_answer]
  | faults h faults ih => exact ih

/-- Pages of which each starts at the key that the page before names, up to a page that names
none, with the stores before the first and after the last. -/
inductive Pages (q : Query) : Memory → Option Item → List Page → Memory → Prop
  | last {m m' : Memory} {start : Option Item} {page : Page}
      (h : m.query q start = (.ok page, m')) (hl : page.lastKey = none) :
      Pages q m start [page] m'
  | next {m m' m'' : Memory} {start : Option Item} {page : Page} {key : Item} {pages : List Page}
      (h : m.query q start = (.ok page, m')) (hl : page.lastKey = some key)
      (hp : Pages q m' (some key) pages m'') : Pages q m start (page :: pages) m''

/-- The items of some pages. -/
def itemsOf (pages : List Page) : List Item :=
  pages.flatMap (·.items)

/-- What is left behind a key is given by pages that come to an end. -/
theorem Leaves.exists_pages (hs : m.Leaves q start rest)
    (hk : (m.table q.table).Keyed (m.schema.keyName q.table)) (hp : 0 < m.schema.pageSize)
    (hf : m.faults.nextError = none) : ∃ pages m', Pages q m start pages m' := by
  induction hn : rest.length using Nat.strong_induction_on generalizing m start rest with
  | h n ih =>
    obtain ⟨page, m₁, hquery⟩ : ∃ page m₁, m.query q start = (.ok page, m₁) :=
      ⟨_, _, Prod.ext (query_ok hf) rfl⟩
    have hanswer : (m.query q start).1 = .ok page := by rw [hquery]
    have hsame := m.query_same q start
    have hf₁ := m.nextError_query q start
    rw [hquery] at hsame hf₁
    cases hkey : page.lastKey with
    | none => exact ⟨[page], m₁, .last hquery hkey⟩
    | some key =>
      obtain ⟨tail, -, hless, htail⟩ := hs.exists_tail hanswer hk hkey
      have hk₁ : (m₁.table q.table).Keyed (m₁.schema.keyName q.table) := by
        rwa [hsame.schema_eq, hsame.table_eq]
      obtain ⟨pages, m', hpages⟩ :=
        ih tail.length (hn ▸ hless) (htail.of_same hsame) hk₁ (by rwa [hsame.schema_eq]) hf₁ rfl
      exact ⟨page :: pages, m', .next hquery hkey hpages⟩

theorem Pages.same {pages : List Page} (h : Pages q m start pages m') : m.Same m' := by
  induction h with
  | @last m m' start page h hl =>
    have hsame := m.query_same q start
    rwa [h] at hsame
  | @next m m' m'' start page key pages h hl hp ih =>
    have hsame := m.query_same q start
    rw [h] at hsame
    exact hsame.trans ih

/-- The pages from a key on hold what is left behind it. A page has no more items than its limit
and names a key exactly if the pages that follow it have items. -/
theorem Pages.itemsOf_eq {pages : List Page} (h : Pages q m start pages m')
    (hs : m.Leaves q start rest) (hk : (m.table q.table).Keyed (m.schema.keyName q.table))
    (hp : 0 < m.schema.pageSize) :
    itemsOf pages = rest ∧ ∀ front page back, pages = front ++ page :: back →
      page.items.length ≤ m.schema.pageLimit q ∧ (page.lastKey.isSome ↔ itemsOf back ≠ []) := by
  induction h generalizing rest with
  | @last m m' start page h hl =>
    have hanswer : (m.query q start).1 = .ok page := by rw [h]
    obtain ⟨-, -, -, -, hlength, -⟩ := exists_matching_eq hp hanswer
    have hitems := hs.items_eq hanswer hp hl
    refine ⟨(List.flatMap_singleton ..).trans hitems, fun front page' back hsplit => ?_⟩
    obtain ⟨rfl, hcons⟩ := List.append_eq_singleton_iff.mp hsplit.symm |>.resolve_right (by simp)
    obtain ⟨rfl, rfl⟩ := List.cons.inj hcons
    exact ⟨hlength, by simp [hl, itemsOf]⟩
  | @next m m' m'' start page key pages h hl hpages ih =>
    have hanswer : (m.query q start).1 = .ok page := by rw [h]
    have hsame := m.query_same q start
    rw [h] at hsame
    obtain ⟨tail, hrest, -, htail⟩ := hs.exists_tail hanswer hk hl
    have hk' : (m'.table q.table).Keyed (m'.schema.keyName q.table) := by
      rwa [hsame.schema_eq, hsame.table_eq]
    obtain ⟨hitems, hback⟩ := ih (htail.of_same hsame) hk' (by rwa [hsame.schema_eq])
    rw [hsame.schema_eq] at hback
    refine ⟨?_, fun front page' back hsplit => ?_⟩
    · rw [hrest, ← hitems]
      exact List.flatMap_cons
    · rcases List.cons_eq_append_iff.mp hsplit with ⟨rfl, hcons⟩ | ⟨front', rfl, hsplit'⟩
      · obtain ⟨rfl, rfl⟩ := List.cons.inj hcons
        obtain ⟨-, rest', -, hrest', hlength, hsome⟩ := exists_matching_eq hp hanswer
        rw [hs.resume_eq, hrest, List.append_cancel_left_eq] at hrest'
        exact ⟨hlength, by rw [hsome, hitems, hrest']⟩
      · exact hback front' page' back hsplit'

variable {ω : Type}

/-- Reading goes on behind the key of a page, if it names one. -/
theorem run_queryFrom_succ (h : m.query q start = (.ok page, m')) (source : Source ω) (n : Nat)
    (w : ω) : (queryFrom q (n + 1) start).run.run (Service.answer source) (m, w) =
      (match page.lastKey with
        | none => (pure page.items : Task StoreError (List Item))
        | some key => do return page.items ++ (← queryFrom q n (some key))).run.run
        (Service.answer source) (m', w) := by
  change Program.run (S := signature) (Service.answer source) (ExceptT.bindCont (fun page : Page =>
    match page.lastKey with
    | none => (pure page.items : Task StoreError (List Item))
    | some key => do return page.items ++ (← queryFrom q n (some key)))
    (m.query q start).1) ((m.query q start).2, w) = _
  rw [h]
  rfl

/-- Reading all pages gives the items of the pages, if as many may be read. -/
theorem Pages.run {pages : List Page} (h : Pages q m start pages m') (source : Source ω) {n : Nat}
    (hn : pages.length ≤ n) (w : ω) :
    (queryFrom q n start).run.run (Service.answer source) (m, w) =
      (.done (.ok (itemsOf pages)), m', w) := by
  induction h generalizing n with
  | @last m m' start page h hl =>
    obtain ⟨n, rfl⟩ := Nat.exists_eq_add_of_le' hn
    rw [List.length_singleton, run_queryFrom_succ h, hl, itemsOf, List.flatMap_singleton]
    rfl
  | @next m m' m'' start page key pages h hl hpages ih =>
    cases n with
    | zero => cases hn
    | succ n =>
      have hrest := ih (Nat.le_of_succ_le_succ hn)
      rw [run_queryFrom_succ h, hl, itemsOf, List.flatMap_cons]
      exact Task.run_bind_ok hrest

end Memory

/-- Reading all pages of a query comes to an end. It gives the items of the table that the query
selects, each once, in the order of their texts to sort by and then of their keys. A page has no
more items than the query and the store allow, and it names a key exactly if items follow it. -/
theorem queryAll_complete {m : Memory} (hm : m.Reachable) (hf : m.faults.nextError = none)
    (q : Query) {ω : Type} (source : Source ω) (w : ω) :
    ∃ pages m', Memory.Pages q m none pages m' ∧ m.Same m' ∧
      (∀ n, pages.length ≤ n → (queryAll n q).run.run (Service.answer source) (m, w) =
        (.done (.ok (Memory.itemsOf pages)), m', w)) ∧
      (∀ item, item ∈ Memory.itemsOf pages ↔ item ∈ m.items q.table ∧ m.schema.Selects q item) ∧
      (Memory.itemsOf pages).Pairwise (fun a b => m.schema.place q a < m.schema.place q b) ∧
      ∀ front page back, pages = front ++ page :: back →
        (page.items.length ≤ m.schema.pageSize ∧
          ∀ limit, q.limit = some limit → (page.items.length : Int) ≤ max limit 1) ∧
        (page.lastKey.isSome ↔ Memory.itemsOf back ≠ []) := by
  have hk := hm.keyed q.table
  have hs := m.leaves_matching q
  obtain ⟨pages, m', hpages⟩ := hs.exists_pages hk hm.pageSize_pos hf
  obtain ⟨hitems, hpage⟩ := hpages.itemsOf_eq hs hk hm.pageSize_pos
  obtain ⟨hsize, hlimit⟩ := m.schema.pageLimit_le q
  refine ⟨pages, m', hpages, hpages.same, fun n hn => hpages.run source hn w, ?_, ?_, ?_⟩
  · intro item
    rw [hitems, Schema.mem_matching, Schema.isMatch_iff]
    exact Iff.rfl
  · rw [hitems]
    exact Schema.sorted_matching hk
  · intro front page back hsplit
    obtain ⟨hlength, hsome⟩ := hpage front page back hsplit
    refine ⟨⟨hlength.trans hsize, fun limit hl => ?_⟩, hsome⟩
    have := hlimit limit hl
    omega

section Sample

/-- A row of a table with an index by group and date. -/
def datedRow (id group date : String) : Item :=
  [("dateTime", .text date), ("groupId", .text group), ("id", .text id)]

/-- Two rows with one date, an earlier one, one of another group and one without a date, in a store
with two items on a page. -/
def pagedStore : Memory :=
  [datedRow "x" "a" "2025-06-01T10:00:00Z", datedRow "w" "a" "2025-06-01T10:00:00Z",
    datedRow "y" "a" "2025-05-01T10:00:00Z", datedRow "z" "b" "2025-05-01T10:00:00Z",
    [("groupId", .text "a"), ("id", .text "u")]].foldl (fun m item => m.putItem "live" item)
    { schema := { indexes := [("byGroup", ⟨"groupId", some "dateTime"⟩)], pageSize := 2 } }

def pagedQuery : Query :=
  ⟨"live", some "byGroup", "groupId", "a", some ("dateTime", .after "2025-04-01T12:00:00Z"), some 5⟩

theorem queryAll_complete_tie :
    pagedStore.Reachable ∧ pagedStore.faults.nextError = none ∧
      ∃ n items m', (queryAll n pagedQuery).run.run
        (Service.answer fun _ _ (w : Unit) => (none, w)) (pagedStore, ()) =
          (.done (.ok items), m', ()) ∧
        datedRow "w" "a" "2025-06-01T10:00:00Z" ∈ items ∧
        datedRow "z" "b" "2025-05-01T10:00:00Z" ∉ items ∧
        items.Pairwise fun a b =>
          pagedStore.schema.place pagedQuery a < pagedStore.schema.place pagedQuery b := by
  have hm : pagedStore.Reachable := .putItems (.empty (by decide)) "live" _
  obtain ⟨pages, m', -, -, hrun, hitems, hsorted, -⟩ := queryAll_complete hm rfl pagedQuery
    (fun _ _ (w : Unit) => (none, w)) ()
  refine ⟨hm, rfl, pages.length, _, m', hrun _ le_rfl, (hitems _).mpr ⟨?_, ?_⟩,
    fun hz => ?_, hsorted⟩
  · exact Table.mem_items.mpr ⟨"w", rfl⟩
  · exact Schema.isMatch_iff.mp (by decide)
  · have hpartition := ((hitems _).mp hz).2.partition
    exact absurd hpartition (by decide)

end Sample

end Store

end GroupCalendar
