import GroupCalendar.Proofs.Program.Completion
import GroupCalendar.Proofs.Store.Quiet

/-! # Batches and pages without faults

A store without faults stays so under every task. One attempt is enough for a batch sent to it, and
the items of a query are all read if there are more pages than items.
-/

namespace GroupCalendar

open Store Service

variable {ω : Type} {source : Source ω} {m : Memory} {table : String}
  {allowed : Service.Request → Prop}

/-- Nothing that a program asks for sets a fault. -/
theorem quiet_run {α : Type} (p : Program signature α) (hq : m.Quiet) (w : ω) :
    (p.run (answer source) (m, w)).2.1.Quiet := by
  have hkeeps : ∀ m r, Memory.Quiet m → (m.answer r).2.Quiet := fun _ r h => h.answer r
  exact run_keeps hkeeps source p hq w

theorem quiet_ensures {ε α : Type} (t : Task ε α) (hq : m.Quiet) (w : ω) :
    t.Ensures (session source) (m, w) fun _ s => s.1.Quiet := by
  refine (Task.ensures_run t (m, w)).mono fun a s hr => ?_
  have hs : (t.run.run (answer source) (m, w)).2.1.Quiet := quiet_run t.run hq w
  rwa [hr] at hs

/-- Without faults one attempt is enough for a batch of writes. -/
theorem writeAll_completes (hq : m.Quiet) {ws : List Write} (hl : ws.length ≤ maxWrites)
    (hk : ∀ w ∈ ws, (w.key? (m.schema.keyName table)).isSome)
    (ha : allowed (.store (.batchWrite table ws))) (w : ω) :
    (writeAll table ws).Completes ((session source).restrict allowed) (m, w) fun _ s =>
      m.Wrote table ws s.1 ∧ s.1.Quiet ∧ s.2 = w := by
  unfold writeAll maxAttempts writePending
  split
  · next he =>
    obtain rfl := List.isEmpty_iff.mp he
    exact Task.completes_pure ⟨(Memory.Same.refl m).wrote table, hq, rfl⟩
  · obtain ⟨hreply, hwrote⟩ := hq.batchWrite hl hk
    have hbatch : (Task.batchWrite table ws).Completes ((session source).restrict allowed) (m, w)
        fun later s => later = [] ∧ m.Wrote table ws s.1 ∧ s.1.Quiet ∧ s.2 = w := by
      refine Task.completes_batchWrite ⟨trivial, ha⟩ ?_
      rintro reply s hr
      obtain ⟨rfl, rfl⟩ := Prod.mk.inj hr
      exact ⟨[], hreply, rfl, hwrote, hq.answer (.batchWrite table ws), rfl⟩
    refine hbatch.bind ?_
    rintro later s ⟨rfl, h⟩
    exact Task.completes_pure h

/-- Without faults one attempt is enough for a batch of keys. -/
theorem getAll_completes (hq : m.Quiet) {keys : List Item} (hl : keys.length ≤ maxGets)
    (hk : ∀ key ∈ keys, (key.text? (m.schema.keyName table)).isSome)
    (ha : allowed (.store (.batchGet table keys))) (w : ω) :
    (getAll table keys).Completes ((session source).restrict allowed) (m, w) fun items s =>
      items = keys.filterMap (m.found table) ∧ m.Same s.1 ∧ s.1.Quiet ∧ s.2 = w := by
  unfold getAll maxAttempts getPending
  split
  · next he =>
    obtain rfl := List.isEmpty_iff.mp he
    exact Task.completes_pure ⟨rfl, .refl m, hq, rfl⟩
  · have hbatch : (Task.batchGet table keys).Completes ((session source).restrict allowed) (m, w)
        fun b s => b = ⟨keys.filterMap (m.found table), []⟩ ∧ m.Same s.1 ∧ s.1.Quiet ∧ s.2 = w := by
      refine Task.completes_batchGet ⟨trivial, ha⟩ ?_
      rintro reply s hr
      obtain ⟨rfl, rfl⟩ := Prod.mk.inj hr
      exact ⟨_, hq.batchGet hl hk, rfl, (m.batchGet_found table keys).1,
        hq.answer (.batchGet table keys), rfl⟩
    refine hbatch.bind ?_
    rintro b s ⟨rfl, h⟩
    exact Task.completes_pure ⟨List.nil_append _, h⟩

/-- Without faults there is no need for more pages than there are items left. -/
theorem queryFrom_completes (hq : m.Quiet) {q : Query} {rest : List Item} {start : Option Item}
    (hk : (m.table q.table).Keyed (m.schema.keyName q.table)) (hp : 0 < m.schema.pageSize)
    (hs : m.Leaves q start rest) {pages : Nat} (hl : rest.length < pages) (w : ω) :
    (queryFrom q pages start).Completes (session source) (m, w) fun items s =>
      items = rest ∧ m.Same s.1 ∧ s.1.Quiet ∧ s.2 = w := by
  induction pages generalizing m rest start with
  | zero => cases hl
  | succ pages ih =>
    have hpage : (Task.query q start).Completes (session source) (m, w) fun page s =>
        (m.query q start).1 = .ok page ∧ m.Same s.1 ∧ s.1.Quiet ∧ s.2 = w := by
      refine Task.completes_query trivial ?_
      rintro reply s hr
      obtain ⟨rfl, rfl⟩ := Prod.mk.inj hr
      exact ⟨_, hq.query q start, hq.query q start, m.query_same q start,
        hq.answer (.query q start), rfl⟩
    refine hpage.bind ?_
    rintro page ⟨m', w'⟩ ⟨hanswer, hsame, hq', rfl⟩
    split
    · next hkey => exact Task.completes_pure ⟨hs.items_eq hanswer hp hkey, hsame, hq', rfl⟩
    · next key hkey =>
      obtain ⟨tail, hrest, hless, htail⟩ := hs.exists_tail hanswer hk hkey
      have hk' : (m'.table q.table).Keyed (m'.schema.keyName q.table) := by
        rwa [hsame.schema_eq, hsame.table_eq]
      refine (ih hq' hk' (by rwa [hsame.schema_eq]) (htail.of_same hsame) (by omega)).bind ?_
      rintro items s ⟨rfl, hsame', hend⟩
      exact Task.completes_pure ⟨hrest.symm, hsame.trans hsame', hend⟩

end GroupCalendar
