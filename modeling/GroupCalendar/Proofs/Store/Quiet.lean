import GroupCalendar.Proofs.Store.Paging

/-! # Stores without faults

A store for which no fault is set stays so. It follows every batch that is not too long to its end,
and what it answers to a query depends on the matching items alone.
-/

namespace GroupCalendar

theorem Fields.get?_filter {α : Type} {fs : Fields α} (hs : fs.Sorted) (p : α → Bool)
    (name : String) :
    Fields.get? name (fs.filter fun f => p f.2) = (fs.get? name).filter p := by
  have hs' : Fields.Sorted (fs.filter fun f => p f.2) := List.Pairwise.filter _ hs
  refine Option.ext fun value => ?_
  rw [get?_eq_some_iff hs', List.mem_filter, Option.filter_eq_some_iff, get?_eq_some_iff hs]

namespace Store

/-- Only the items that match decide about the answer to a query. -/
theorem Schema.matching_congr {s : Schema} {q : Query} {t u : Table}
    (h : ∀ key, (t.get? key).filter (s.isMatch q) = (u.get? key).filter (s.isMatch q)) :
    s.matching q t = s.matching q u := by
  have hrows : t.rows.filter (fun f => s.isMatch q f.2) =
      u.rows.filter fun f => s.isMatch q f.2 := by
    refine Fields.Sorted.ext (List.Pairwise.filter _ t.sorted) (List.Pairwise.filter _ u.sorted) ?_
    intro key
    rw [Fields.get?_filter t.sorted, Fields.get?_filter u.sorted]
    exact h key
  have hitems : t.items.filter (s.isMatch q) = u.items.filter (s.isMatch q) := by
    rw [Table.items, Table.items, List.filter_map, List.filter_map]
    exact congrArg (List.map (·.2)) hrows
  rw [matching, matching, hitems]

/-- Writes act under every key on what stands there. -/
theorem Table.get?_apply_congr {t u : Table} {key : String} (h : t.get? key = u.get? key)
    (name : String) (ws : List Write) :
    (t.apply name ws).get? key = (u.apply name ws).get? key := by
  induction ws generalizing t u with
  | nil => exact h
  | cons w rest ih =>
    refine ih ?_
    cases w with
    | put item | delete item =>
      simp only [Write.applyTo]
      cases item.text? name with
      | none => exact h
      | some other => simp only [Option.elim_some, get?_insert, get?_erase, h]

namespace Memory

variable {m : Memory} {table : String}

/-- No fault is set. -/
def Quiet (m : Memory) : Prop := m.faults = {}

section Reading

theorem Quiet.query (h : m.Quiet) (q : Query) (start : Option Item) :
    (m.query q start).1 = .ok (pageFrom m.schema q start (m.schema.matching q (m.table q.table))) :=
  query_ok (by rw [h])

theorem Quiet.getItem (h : m.Quiet) {id name : String} (hkey : m.schema.keyName table = name) :
    (m.getItem table (Item.key name id)).1 = .ok (m.get? table id) := by
  have hk : m.schema.key table (Item.key name id) = .ok id :=
    key_eq_ok_iff.mpr (hkey ▸ Item.text?_key ..)
  obtain ⟨schema, tables, faults, calls⟩ := m
  obtain rfl : faults = {} := h
  simp only [Memory.getItem, hk]
  rfl

theorem lookUp_ok {keys : List Item}
    (hk : ∀ key ∈ keys, (key.text? (m.schema.keyName table)).isSome) :
    m.lookUp table keys = .ok (keys.filterMap (m.found table)) := by
  induction keys with
  | nil => rfl
  | cons key rest ih =>
    obtain ⟨hkey, hrest⟩ := List.forall_mem_cons.mp hk
    obtain ⟨text, ht⟩ := Option.isSome_iff_exists.mp hkey
    have hf : m.found table key = m.get? table text := by simp [found, ht]
    simp only [lookUp, key_eq_ok_iff.mpr ht, ih hrest, bind, Except.bind, pure, Except.pure,
      List.filterMap_cons, hf]
    cases m.get? table text <;> rfl

/-- A batch is held back nowhere. -/
theorem holdBack_nil {α : Type} (xs : List α) : holdBack [] xs = (xs, []) := by
  simp [holdBack]

theorem Quiet.batchGet (h : m.Quiet) {keys : List Item} (hl : keys.length ≤ maxGets)
    (hk : ∀ key ∈ keys, (key.text? (m.schema.keyName table)).isSome) :
    (m.batchGet table keys).1 = .ok ⟨keys.filterMap (m.found table), []⟩ := by
  obtain ⟨schema, tables, faults, calls⟩ := m
  obtain rfl : faults = {} := h
  simp only [Memory.batchGet, if_neg (Nat.not_lt.mpr hl), takeError, holdBack_nil]
  rw [lookUp_ok]
  · rfl
  · exact hk

end Reading

section Writing

theorem applyWrites_eq_none {ws : List Write}
    (hk : ∀ w ∈ ws, (w.key? (m.schema.keyName table)).isSome) :
    (m.applyWrites table ws).1 = none := by
  induction ws generalizing m with
  | nil => rfl
  | cons w rest ih =>
    obtain ⟨hw, hrest⟩ := List.forall_mem_cons.mp hk
    obtain ⟨key, ht⟩ := Option.isSome_iff_exists.mp hw
    cases w with
    | put item | delete item =>
      simp only [applyWrites, applyWrite, key_eq_ok_iff.mpr ht, bind, Except.bind, pure,
        Except.pure]
      exact ih hrest

theorem faults_applyWrites (m : Memory) (table : String) (ws : List Write) :
    (m.applyWrites table ws).2.faults = m.faults := by
  induction ws generalizing m with
  | nil => rfl
  | cons w rest ih =>
    unfold applyWrites
    cases hw : m.applyWrite table w with
    | error e => rfl
    | ok m' =>
      have hf : m'.faults = m.faults := by
        cases w with
        | put item | delete item =>
          cases hk : m.schema.key table item with
          | error e => simp [applyWrite, hk, bind, Except.bind] at hw
          | ok key =>
            simp only [applyWrite, hk, bind, Except.bind, pure, Except.pure,
              Except.ok.injEq] at hw
            subst hw
            rfl
      exact (ih m').trans hf

/-- Without faults a batch that is not too long is sent on as it is. -/
theorem Quiet.batchWrite_eq (h : m.Quiet) (table : String) {ws : List Write}
    (hl : ws.length ≤ maxWrites) :
    ∃ m' : Memory, m'.Quiet ∧ m'.schema = m.schema ∧ m.batchWrite table ws =
      match m'.applyWrites table ws with
      | (none, m) => (.ok [], m)
      | (some e, m) => (.error e, m) := by
  obtain ⟨schema, tables, faults, calls⟩ := m
  obtain rfl : faults = {} := h
  refine ⟨⟨schema, tables, {}, { calls with batchWrite := calls.batchWrite + 1 }⟩, rfl, rfl, ?_⟩
  simp only [Memory.batchWrite, if_neg (Nat.not_lt.mpr hl), takeError, holdBack_nil, Fields.get?]
  rfl

theorem Quiet.batchWrite (h : m.Quiet) {ws : List Write} (hl : ws.length ≤ maxWrites)
    (hk : ∀ w ∈ ws, (w.key? (m.schema.keyName table)).isSome) :
    (m.batchWrite table ws).1 = .ok [] ∧ m.Wrote table ws (m.batchWrite table ws).2 := by
  obtain ⟨m', -, hs, he⟩ := h.batchWrite_eq table hl
  have hnone : (m'.applyWrites table ws).1 = none := applyWrites_eq_none (hs ▸ hk)
  have hok : (m.batchWrite table ws).1 = .ok [] := by
    rw [he]
    split
    · rfl
    · next e m'' ha =>
      rw [ha] at hnone
      cases hnone
  obtain ⟨done, -, hw, hd⟩ := m.batchWrite_wrote table ws
  have hdone : ws = done := (hd [] hok).trans (List.append_nil done)
  exact ⟨hok, hdone ▸ hw⟩

end Writing

theorem Quiet.of_batchWrite (h : m.Quiet) (table : String) (ws : List Write) :
    (m.batchWrite table ws).2.Quiet := by
  by_cases hl : ws.length ≤ maxWrites
  · obtain ⟨m', hm, -, he⟩ := h.batchWrite_eq table hl
    have hf := faults_applyWrites m' table ws
    rw [he]
    split
    all_goals
      next ha =>
        rw [ha] at hf
        exact hf.trans hm
  · simp only [Memory.batchWrite, if_pos (Nat.not_le.mp hl)]
    exact h

/-- No request sets a fault. -/
theorem Quiet.answer (h : m.Quiet) (r : Request) : (m.answer r).2.Quiet := by
  have hq := h
  obtain ⟨schema, tables, faults, calls⟩ := m
  obtain rfl : faults = {} := h
  cases r with
  | query q start => rfl
  | getItem table key | batchGet table keys =>
    simp only [Memory.answer, Memory.getItem, Memory.batchGet]
    split <;> rfl
  | batchWrite table ws => exact hq.of_batchWrite table ws

end Memory

end Store

end GroupCalendar
