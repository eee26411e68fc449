import GroupCalendar.Proofs.Store.Answers

/-! # Batches of writes that fail

A batch that is too long, or for which an error is set, is refused as a whole. Any other batch is
followed up to the first write without a key, and what was followed before it is not taken back: the
tables are as before exactly if the writes in front of it change nothing.
-/

namespace GroupCalendar.Store.Memory

variable {m m' : Memory} {table : String} {ws : List Write} {e : StoreError}

/-- Why a batch of writes is refused before any of them is looked at. -/
def refusal? (m : Memory) (table : String) (ws : List Write) : Option StoreError :=
  if maxWrites < ws.length then some (tooManyWrites ws.length)
  else m.faults.nextError.or (m.faults.writeErrors.get? table)

/-- The writes of a batch that are not held back. -/
def taken (m : Memory) (ws : List Write) : List Write :=
  (holdBack m.faults.unprocessedWrites ws).1

/-- The error for a write without the text under which the table keeps it. -/
def missingKey (m : Memory) (table : String) : StoreError :=
  .invalidRequest s!"missing key attribute: {m.schema.keyName table}"

theorem applyWrite_eq_error {w : Write} (h : m.applyWrite table w = .error e) :
    w.key? (m.schema.keyName table) = none ∧ e = m.missingKey table := by
  cases w with
  | put item | delete item =>
    cases ht : item.text? (m.schema.keyName table) with
    | some key =>
      simp [applyWrite, key_eq_ok_iff.mpr ht, bind, Except.bind, pure, Except.pure] at h
    | none =>
      simp only [applyWrite, Schema.key, ht, bind, Except.bind, Except.error.injEq] at h
      exact ⟨ht, h.symm⟩

theorem isSome_key?_of_applyWrite {w : Write} (h : m.applyWrite table w = .ok m') :
    (w.key? (m.schema.keyName table)).isSome := by
  cases w with
  | put item | delete item =>
    cases hk : m.schema.key table item with
    | error e => simp [applyWrite, hk, bind, Except.bind] at h
    | ok key => exact Option.isSome_of_eq_some (key_eq_ok_iff.mp hk)

/-- Writes fail at the first one without a key, when all those in front of it have been followed. -/
theorem exists_keyless (h : (m.applyWrites table ws).1 = some e) :
    e = m.missingKey table ∧ ∃ front w rest, ws = front ++ w :: rest ∧
      (∀ w ∈ front, (w.key? (m.schema.keyName table)).isSome) ∧
      w.key? (m.schema.keyName table) = none ∧ m.Wrote table front (m.applyWrites table ws).2 := by
  induction ws generalizing m with
  | nil => cases h
  | cons w ws ih =>
    rw [applyWrites] at h ⊢
    cases hw : m.applyWrite table w with
    | error e' =>
      rw [hw] at h
      obtain rfl := Option.some.inj h
      obtain ⟨hkey, he⟩ := applyWrite_eq_error hw
      exact ⟨he, [], w, ws, rfl, by simp, hkey, (Same.refl m).wrote table⟩
    | ok m' =>
      rw [hw] at h
      have hwrote := applyWrite_wrote hw
      obtain ⟨he, front, w', rest, rfl, hfront, hkey, hrest⟩ := ih h
      rw [missingKey, hwrote.schema_eq] at he
      rw [hwrote.schema_eq] at hfront hkey
      refine ⟨he, w :: front, w', rest, rfl, ?_, hkey, hwrote.trans hrest⟩
      exact List.forall_mem_cons.mpr ⟨isSome_key?_of_applyWrite hw, hfront⟩

theorem batchWrite_of_refusal (h : m.refusal? table ws = some e) :
    (m.batchWrite table ws).1 = .error e ∧ m.Same (m.batchWrite table ws).2 := by
  unfold refusal? at h
  unfold batchWrite takeError
  split at h
  · next hlong =>
    rw [if_pos hlong, Option.some.inj h]
    exact ⟨rfl, rfl, fun _ => rfl⟩
  · next hshort =>
    rw [if_neg hshort]
    cases hnext : m.faults.nextError with
    | some e' =>
      rw [hnext] at h
      obtain rfl := Option.some.inj h
      exact ⟨rfl, rfl, fun _ => rfl⟩
    | none =>
      rw [hnext, Option.none_or] at h
      dsimp only
      rw [h]
      exact ⟨rfl, rfl, fun _ => rfl⟩

/-- A batch that is not refused is followed as far as it is not held back. -/
theorem batchWrite_of_accepted (h : m.refusal? table ws = none) :
    ∃ m', m.Same m' ∧ m.batchWrite table ws =
      match m'.applyWrites table (m.taken ws) with
      | (none, m'') => (.ok (holdBack m.faults.unprocessedWrites ws).2, m'')
      | (some e, m'') => (.error e, m'') := by
  unfold refusal? at h
  split at h
  · cases h
  · next hshort =>
    obtain ⟨hnext, htable⟩ := Option.or_eq_none_iff.mp h
    let faults : Faults := { m.faults with
      nextError := none
      unprocessedWrites := m.faults.unprocessedWrites.tail }
    let calls := { m.calls with batchWrite := m.calls.batchWrite + 1 }
    refine ⟨{ m with faults := faults, calls := calls }, ⟨rfl, fun _ => rfl⟩, ?_⟩
    unfold batchWrite takeError
    rw [if_neg hshort, hnext]
    dsimp only
    rw [htable]
    rfl

/-- A batch of writes that fails has been refused, and then the tables are as before, or one of its
writes has no key. Then those in front of the first such write have been followed, and the tables
are as before exactly if these change nothing. -/
theorem failed_batch_unchanged_iff (h : (m.batchWrite table ws).1 = .error e) :
    (m.refusal? table ws = some e ∧ m.Same (m.batchWrite table ws).2) ∨
    (m.refusal? table ws = none ∧ e = m.missingKey table ∧ ∃ front w rest,
      m.taken ws = front ++ w :: rest ∧
      (∀ w ∈ front, (w.key? (m.schema.keyName table)).isSome) ∧
      w.key? (m.schema.keyName table) = none ∧
      m.Wrote table front (m.batchWrite table ws).2 ∧
      (m.Same (m.batchWrite table ws).2 ↔
        (m.table table).apply (m.schema.keyName table) front = m.table table)) := by
  cases hrefusal : m.refusal? table ws with
  | some e' =>
    obtain ⟨hreply, hsame⟩ := batchWrite_of_refusal hrefusal
    obtain rfl := Except.error.inj (hreply.symm.trans h)
    exact .inl ⟨rfl, hsame⟩
  | none =>
    obtain ⟨m', hsame, heq⟩ := batchWrite_of_accepted hrefusal
    rw [heq] at h ⊢
    cases happlied : m'.applyWrites table (m.taken ws) with
    | mk reply m'' =>
      rw [happlied] at h
      cases reply with
      | none => cases h
      | some e' =>
        obtain rfl := Except.error.inj h
        have hfailed : (m'.applyWrites table (m.taken ws)).1 = some e' := by rw [happlied]
        obtain ⟨he, front, w, rest, htaken, hfront, hkey, hwrote⟩ := exists_keyless hfailed
        rw [happlied] at hwrote
        rw [missingKey, hsame.schema_eq] at he
        rw [hsame.schema_eq] at hfront hkey
        have hwrote : m.Wrote table front m'' := hsame.trans_wrote hwrote
        refine .inr ⟨rfl, he, front, w, rest, htaken, hfront, hkey, hwrote, ?_⟩
        constructor
        · exact fun hsame' => hwrote.table_eq.symm.trans (hsame'.table_eq table)
        · intro hnone
          refine ⟨hwrote.schema_eq, fun name => ?_⟩
          by_cases hname : name = table
          · rw [hname, hwrote.table_eq, hnone]
          · exact hwrote.other_eq name hname

section Sample

/-- The second write has no key. -/
def halfKeyed : List Write :=
  [.put [("id", .text "a")], .put [("groupId", .text "g")]]

def emptyMemory : Memory := { schema := {} }

theorem failed_batch_unchanged_iff_keyless :
    (emptyMemory.batchWrite "live" halfKeyed).1 = .error (emptyMemory.missingKey "live") ∧
    ∃ front w rest, halfKeyed = front ++ w :: rest ∧ w.key? "id" = none ∧
      (emptyMemory.Same (emptyMemory.batchWrite "live" halfKeyed).2 ↔
        Table.empty.apply "id" front = .empty) := by
  have h : (emptyMemory.batchWrite "live" halfKeyed).1 =
      .error (emptyMemory.missingKey "live") := rfl
  refine ⟨h, ?_⟩
  obtain ⟨hrefusal, -⟩ | ⟨-, -, front, w, rest, htaken, -, hkey, -, hiff⟩ :=
    failed_batch_unchanged_iff h
  · cases hrefusal
  · exact ⟨front, w, rest, htaken, hkey, hiff⟩

/-- A batch fails and leaves its first write in the table. -/
theorem failed_batch_leaves_item :
    (emptyMemory.batchWrite "live" halfKeyed).1 =
      .error (.invalidRequest "missing key attribute: id") ∧
    emptyMemory.get? "live" "a" = none ∧
    (emptyMemory.batchWrite "live" halfKeyed).2.get? "live" "a" = some [("id", .text "a")] :=
  ⟨rfl, rfl, rfl⟩

end Sample

end GroupCalendar.Store.Memory
