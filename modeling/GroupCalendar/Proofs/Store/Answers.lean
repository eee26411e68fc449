import GroupCalendar.Proofs.Store.Contents

/-! # Answers of a store in memory

What the answer to each request does to the tables. Only a batch of writes changes any, and only
its own: a front part of the batch is written, and the rest is what it acknowledges as unprocessed.
Everything else that an answer changes are faults and counts.
-/

namespace GroupCalendar.Store

namespace Memory

/-- The schema and the tables are the same. -/
structure Same (m m' : Memory) : Prop where
  schema_eq : m'.schema = m.schema
  table_eq : ∀ name, m'.table name = m.table name

theorem Same.refl (m : Memory) : m.Same m := ⟨rfl, fun _ => rfl⟩

theorem Same.trans {m m' m'' : Memory} (h : m.Same m') (h' : m'.Same m'') : m.Same m'' :=
  ⟨h'.schema_eq.trans h.schema_eq, fun name => (h'.table_eq name).trans (h.table_eq name)⟩

/-- A table has been written to, and nothing else has changed. -/
structure Wrote (m : Memory) (table : String) (ws : List Write) (m' : Memory) : Prop where
  schema_eq : m'.schema = m.schema
  table_eq : m'.table table = (m.table table).apply (m.schema.keyName table) ws
  other_eq : ∀ other, other ≠ table → m'.table other = m.table other

variable {m m' m'' : Memory} {table : String} {ws ws' : List Write}

theorem Same.wrote (h : m.Same m') (table : String) : m.Wrote table [] m' :=
  ⟨h.schema_eq, h.table_eq table, fun other _ => h.table_eq other⟩

theorem Wrote.trans (h : m.Wrote table ws m') (h' : m'.Wrote table ws' m'') :
    m.Wrote table (ws ++ ws') m'' where
  schema_eq := h'.schema_eq.trans h.schema_eq
  table_eq := by rw [h'.table_eq, h.table_eq, h.schema_eq, Table.apply_append]
  other_eq other ho := (h'.other_eq other ho).trans (h.other_eq other ho)

/-- What a table holds under a text after writes to a table. -/
theorem Wrote.get?_cases (h : m.Wrote table ws m') (other key : String) :
    (m'.get? other key = m.get? other key ∧
      (table = other → ∀ w ∈ ws, w.key? (m.schema.keyName other) ≠ some key)) ∨
    (table = other ∧ ∃ item, .put item ∈ ws ∧ item.text? (m.schema.keyName other) = some key ∧
      m'.get? other key = some item) ∨
    (table = other ∧ ∃ item, .delete item ∈ ws ∧
      item.text? (m.schema.keyName other) = some key ∧ m'.get? other key = none) := by
  by_cases ht : table = other
  · subst ht
    have hg : m'.get? table key =
        ((m.table table).apply (m.schema.keyName table) ws).get? key := by
      rw [get?, h.table_eq]
    rw [hg]
    rcases Table.get?_apply (m.schema.keyName table) key (m.table table) ws with
      ⟨hs, hn⟩ | hp | hd
    · exact .inl ⟨hs, fun _ => hn⟩
    · exact .inr (.inl ⟨rfl, hp⟩)
    · exact .inr (.inr ⟨rfl, hd⟩)
  · refine .inl ⟨?_, fun h => absurd h ht⟩
    rw [get?, h.other_eq other (Ne.symm ht)]
    rfl

theorem Same.trans_wrote (h : m.Same m') (h' : m'.Wrote table ws m'') : m.Wrote table ws m'' :=
  (h.wrote table).trans h'

theorem table_setTable (m : Memory) (name other : String) (t : Table) :
    (m.setTable name t).table other = if name = other then t else m.table other := by
  unfold table setTable
  rw [Fields.get?_insert]
  split <;> rfl

theorem key_eq_ok_iff {s : Schema} {item : Item} {key : String} :
    s.key table item = .ok key ↔ item.text? (s.keyName table) = some key := by
  unfold Schema.key
  cases item.text? (s.keyName table) <;> simp

theorem wrote_setTable (m : Memory) {w : Write} {t : Table}
    (h : t = w.applyTo (m.schema.keyName table) (m.table table)) :
    m.Wrote table [w] (m.setTable table t) where
  schema_eq := rfl
  table_eq := by rw [table_setTable, if_pos rfl, h]; rfl
  other_eq other ho := by rw [table_setTable, if_neg (Ne.symm ho)]

theorem applyWrite_wrote {w : Write} (h : m.applyWrite table w = .ok m') :
    m.Wrote table [w] m' := by
  cases w with
  | put item | delete item =>
    cases hk : m.schema.key table item with
    | error e => simp [applyWrite, hk, bind, Except.bind] at h
    | ok key =>
      simp only [applyWrite, hk, bind, Except.bind, pure, Except.pure, Except.ok.injEq] at h
      subst h
      refine wrote_setTable m ?_
      simp [Write.applyTo, key_eq_ok_iff.mp hk]

/-- Writes are followed up to the first that has no key. -/
theorem applyWrites_wrote (m : Memory) (table : String) (ws : List Write) :
    ∃ done, done <+: ws ∧ m.Wrote table done (m.applyWrites table ws).2 ∧
      ((m.applyWrites table ws).1 = none → done = ws) := by
  induction ws generalizing m with
  | nil => exact ⟨[], List.prefix_rfl, (Same.refl m).wrote table, fun _ => rfl⟩
  | cons w rest ih =>
    unfold applyWrites
    cases hw : m.applyWrite table w with
    | error e => exact ⟨[], List.nil_prefix, (Same.refl m).wrote table, by simp⟩
    | ok m' =>
      obtain ⟨done, hp, hd, he⟩ := ih m'
      exact ⟨w :: done, List.cons_prefix_cons.mpr ⟨rfl, hp⟩, (applyWrite_wrote hw).trans hd,
        fun h => congrArg (w :: ·) (he h)⟩

section Answers

/-- A batch of writes is refused, or a front part of it is followed. -/
theorem batchWrite_cases (m : Memory) (table : String) (ws : List Write) :
    (∃ e m', m.batchWrite table ws = (.error e, m') ∧ m.Same m') ∨
    ∃ n m', m.Same m' ∧ m.batchWrite table ws =
      match m'.applyWrites table (ws.take n) with
      | (none, m) => (.ok (ws.drop n), m)
      | (some e, m) => (.error e, m) := by
  unfold batchWrite
  dsimp only
  split
  · exact .inl ⟨_, _, rfl, rfl, fun _ => rfl⟩
  · split
    · next m' he =>
      obtain ⟨-, rfl⟩ := Prod.mk.inj he
      exact .inl ⟨_, _, rfl, rfl, fun _ => rfl⟩
    · next m' he =>
      obtain ⟨-, rfl⟩ := Prod.mk.inj he
      split
      · exact .inl ⟨_, _, rfl, rfl, fun _ => rfl⟩
      · refine .inr ⟨_, _, ?_, rfl⟩
        exact ⟨rfl, fun _ => rfl⟩

/-- A front part of a batch is written, and the rest of it is the reply. -/
theorem batchWrite_wrote (m : Memory) (table : String) (ws : List Write) :
    ∃ done, done <+: ws ∧ m.Wrote table done (m.batchWrite table ws).2 ∧
      ∀ later, (m.batchWrite table ws).1 = .ok later → ws = done ++ later := by
  obtain ⟨e, m', he, hs⟩ | ⟨n, m', hs, he⟩ := m.batchWrite_cases table ws
  · rw [he]
    exact ⟨[], List.nil_prefix, hs.wrote table, by simp⟩
  · obtain ⟨done, hp, hw, hd⟩ := m'.applyWrites_wrote table (ws.take n)
    rw [he]
    split
    · next m'' ha =>
      rw [ha] at hw hd
      obtain rfl := hd rfl
      refine ⟨ws.take n, List.take_prefix n ws, hs.trans_wrote hw, ?_⟩
      rintro later ⟨⟩
      exact (List.take_append_drop n ws).symm
    · next e m'' ha =>
      rw [ha] at hw
      exact ⟨done, hp.trans (List.take_prefix n ws), hs.trans_wrote hw, by simp⟩

/-- The item that a table holds under the text of a key. -/
def found (m : Memory) (table : String) (key : Item) : Option Item :=
  (key.text? (m.schema.keyName table)).bind (m.get? table)

theorem lookUp_eq_ok {keys items : List Item} (h : m.lookUp table keys = .ok items) :
    items = keys.filterMap (m.found table) := by
  induction keys generalizing items with
  | nil => cases h; rfl
  | cons key rest ih =>
    unfold lookUp at h
    cases hk : m.schema.key table key with
    | error e => simp [hk, bind, Except.bind] at h
    | ok text =>
      cases hr : m.lookUp table rest with
      | error e => simp [hk, hr, bind, Except.bind] at h
      | ok items' =>
        simp only [hk, hr, bind, Except.bind, pure, Except.pure, Except.ok.injEq] at h
        have hf : m.found table key = m.get? table text := by
          simp [found, key_eq_ok_iff.mp hk]
        rw [← h, ih hr, List.filterMap_cons, hf]
        cases m.get? table text <;> rfl

/-- A batch of keys is refused, or those at its front are looked up. -/
theorem batchGet_cases (m : Memory) (table : String) (keys : List Item) :
    ∃ m', m.Same m' ∧ ((∃ e, m.batchGet table keys = (.error e, m')) ∨
      ∃ n, m.batchGet table keys =
        ((m'.lookUp table (keys.take n)).map (⟨·, keys.drop n⟩), m')) := by
  unfold batchGet
  dsimp only
  split
  · refine ⟨_, ?_, .inl ⟨_, rfl⟩⟩
    exact ⟨rfl, fun _ => rfl⟩
  · split
    · next m' he =>
      obtain ⟨-, rfl⟩ := Prod.mk.inj he
      refine ⟨_, ?_, .inl ⟨_, rfl⟩⟩
      exact ⟨rfl, fun _ => rfl⟩
    · next m' he =>
      obtain ⟨-, rfl⟩ := Prod.mk.inj he
      refine ⟨_, ?_, .inr ⟨_, rfl⟩⟩
      exact ⟨rfl, fun _ => rfl⟩

theorem Same.found_eq (h : m.Same m') (table : String) : m'.found table = m.found table := by
  unfold found get?
  rw [h.schema_eq, h.table_eq]

theorem Same.get?_eq (h : m.Same m') (table key : String) :
    m'.get? table key = m.get? table key := by
  unfold get?
  rw [h.table_eq]

/-- The keys at the front of a batch are looked up, and the rest of it is left unprocessed. -/
theorem batchGet_found (m : Memory) (table : String) (keys : List Item) :
    m.Same (m.batchGet table keys).2 ∧
      ∀ b, (m.batchGet table keys).1 = .ok b →
        ∃ now, keys = now ++ b.unprocessed ∧ b.items = now.filterMap (m.found table) := by
  obtain ⟨m', hs, ⟨e, he⟩ | ⟨n, he⟩⟩ := m.batchGet_cases table keys
  · rw [he]
    exact ⟨hs, by simp⟩
  · rw [he]
    refine ⟨hs, fun b hb => ?_⟩
    cases hl : m'.lookUp table (keys.take n) with
    | error e => simp [hl, Except.map] at hb
    | ok items =>
      simp only [hl, Except.map, Except.ok.injEq] at hb
      subst hb
      refine ⟨keys.take n, (List.take_append_drop n keys).symm, ?_⟩
      rw [lookUp_eq_ok hl, hs.found_eq]

theorem query_same (m : Memory) (q : Query) (start : Option Item) :
    m.Same (m.query q start).2 := by
  unfold query
  dsimp only
  split
  all_goals
    next he =>
      obtain ⟨-, rfl⟩ := Prod.mk.inj he
      exact ⟨rfl, fun _ => rfl⟩

theorem query_eq_ok {q : Query} {start : Option Item} {page : Page}
    (h : (m.query q start).1 = .ok page) :
    let remaining := m.schema.resume q start (m.schema.matching q (m.table q.table))
    page.items = remaining.take (m.schema.pageLimit q) ∧
      page.lastKey = if page.items.length < remaining.length then
        page.items.getLast?.map (m.schema.resumeKey q) else none := by
  unfold query at h
  dsimp only at h
  split at h
  · simp at h
  · next he =>
    obtain ⟨-, rfl⟩ := Prod.mk.inj he
    cases h
    exact ⟨rfl, rfl⟩

/-- The page of some items in the order of the answer. -/
def pageFrom (s : Schema) (q : Query) (start : Option Item) (items : List Item) : Page :=
  let remaining := s.resume q start items
  let shown := remaining.take (s.pageLimit q)
  ⟨shown, if shown.length < remaining.length then shown.getLast?.map (s.resumeKey q) else none⟩

/-- A query is answered, unless an error was set for it. -/
theorem query_ok {q : Query} {start : Option Item} (h : m.faults.nextError = none) :
    (m.query q start).1 =
      .ok (pageFrom m.schema q start (m.schema.matching q (m.table q.table))) := by
  unfold query takeError
  dsimp only
  rw [h]
  rfl

theorem getItem_same (m : Memory) (table : String) (key : Item) :
    m.Same (m.getItem table key).2 := by
  unfold getItem
  dsimp only
  split
  · exact ⟨rfl, fun _ => rfl⟩
  · split
    all_goals
      next he =>
        obtain ⟨-, rfl⟩ := Prod.mk.inj he
        exact ⟨rfl, fun _ => rfl⟩

end Answers

section Keyed

/-- Every table is keyed by the attribute that the schema names for it. -/
def Keyed (m : Memory) : Prop :=
  ∀ name, (m.table name).Keyed (m.schema.keyName name)

theorem Keyed.of_same (h : m.Keyed) (hs : m.Same m') : m'.Keyed := fun name => by
  rw [hs.schema_eq, hs.table_eq]
  exact h name

theorem Keyed.of_wrote (h : m.Keyed) (hw : m.Wrote table ws m') : m'.Keyed := fun name => by
  rw [hw.schema_eq]
  by_cases hn : name = table
  · subst hn
    rw [hw.table_eq]
    exact (h name).apply ws
  · rw [hw.other_eq name hn]
    exact h name

/-- Tables stay keyed whatever is asked of the store. -/
theorem Keyed.answer (h : m.Keyed) (r : Request) : (m.answer r).2.Keyed := by
  cases r with
  | query q start => exact h.of_same (m.query_same q start)
  | getItem table key => exact h.of_same (m.getItem_same table key)
  | batchGet table keys => exact h.of_same (m.batchGet_found table keys).1
  | batchWrite table ws =>
    obtain ⟨done, -, hw, -⟩ := m.batchWrite_wrote table ws
    exact h.of_wrote hw

theorem Keyed.putItem (h : m.Keyed) (table : String) (item : Item) :
    (m.putItem table item).Keyed := by
  unfold Memory.putItem
  split
  · next key hk =>
    refine h.of_wrote (wrote_setTable m (w := .put item) ?_)
    simp [Write.applyTo, key_eq_ok_iff.mp hk]
  · exact h

theorem keyed_of_tables_nil (h : m.tables = []) : m.Keyed := fun name => by
  rw [table, h]
  exact Table.keyed_empty _

end Keyed

end Memory

end GroupCalendar.Store
