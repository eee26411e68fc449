import GroupCalendar.Proofs.Store.Parts
import GroupCalendar.Proofs.Store.Quiet
import Mathlib.Algebra.Group.Nat.Defs

/-! # Batches sent again and again

A store in memory may leave entries at the end of a batch unprocessed, as many as a schedule says.
What is pending is sent again, after a pause, until nothing is or eight calls have been made. After
each call the pending entries are the end of the batch, and those before them have been seen to.
-/

namespace GroupCalendar

open Store Service

/-- A handler that keeps a record of the requests. -/
def Service.recorded {σ : Type} (handle : (r : Request) → σ → Reply r × σ) (r : Request) :
    σ × List Request → Reply r × (σ × List Request)
  | (s, log) => ((handle r s).1, (handle r s).2, log ++ [r])

namespace Store

variable {α β σ ω : Type}

section Loop

/-- Entries sent until none is pending, with so many attempts left. What comes of them is kept. -/
def resend (send : β → List α → Task StoreError (β × List α)) :
    Nat → β → List α → Task StoreError β
  | left, kept, pending =>
    if pending.isEmpty then pure kept
    else
      match left with
      | 0 => throw (.unprocessed maxAttempts pending.length)
      | left + 1 => do
        pause (maxAttempts - (left + 1))
        let (kept, later) ← send kept pending
        resend send left kept later

def sendWrites (table : String) (_ : Unit) (ws : List Write) :
    Task StoreError (Unit × List Write) := do
  return ((), ← Task.batchWrite table ws)

def sendKeys (table : String) (found keys : List Item) :
    Task StoreError (List Item × List Item) := do
  let batch ← Task.batchGet table keys
  return (found ++ batch.items, batch.unprocessed)

theorem writePending_eq (table : String) (left : Nat) (ws : List Write) :
    writePending table left ws = resend (sendWrites table) left () ws := by
  induction left generalizing ws with
  | zero => rw [writePending.eq_def, resend.eq_def]
  | succ left ih =>
    rw [writePending.eq_def, resend.eq_def]
    simp only [sendWrites, bind_assoc, pure_bind, ih]

theorem getPending_eq (table : String) (left : Nat) (found keys : List Item) :
    getPending table left found keys = resend (sendKeys table) left found keys := by
  induction left generalizing found keys with
  | zero => rw [getPending.eq_def, resend.eq_def]
  | succ left ih =>
    rw [getPending.eq_def, resend.eq_def]
    simp only [sendKeys, bind_assoc, pure_bind, ih]

variable {handle : (r : Service.Request) → σ → Service.Reply r × σ}
  {send : β → List α → Task StoreError (β × List α)} {pending : Nat → List α}

/-- The calls stop when nothing is pending or their number is reached. -/
structure Stops (pending : Nat → List α) (first calls : Nat) : Prop where
  first_le : first ≤ calls
  calls_le : calls ≤ maxAttempts
  pending_ne : ∀ k, first ≤ k → k < calls → pending k ≠ []
  pending_eq : calls < maxAttempts → pending calls = []

/-- What every call keeps holds after the last one, and the result tells what is pending then. -/
theorem resend_returns (after : Nat → β → σ → Prop)
    (hcall : ∀ k kept s, k < maxAttempts → pending k ≠ [] → after k kept s →
      Task.Returns handle (do pause k; send kept (pending k)) s fun x s' =>
        ∃ kept', x = .ok (kept', pending (k + 1)) ∧ after (k + 1) kept' s')
    (left : Nat) {k : Nat} {kept : β} {s : σ} (hk : k + left = maxAttempts)
    (hs : after k kept s) :
    (resend send left kept (pending k)).Returns handle s fun x s' =>
      ∃ calls kept', Stops pending k calls ∧ after calls kept' s' ∧
        x = if (pending calls).isEmpty then .ok kept' else
          .error (.unprocessed maxAttempts (pending calls).length) := by
  -- The attempts left and the calls made add up, so the pauses go on where they stopped.
  induction left generalizing k kept s with
  | zero =>
    obtain rfl : k = maxAttempts := hk
    have hstops : Stops pending maxAttempts maxAttempts :=
      ⟨Nat.le_refl _, Nat.le_refl _, fun k h h' => absurd h (Nat.not_le.mpr h'),
        fun h => absurd h (Nat.lt_irrefl _)⟩
    unfold resend
    split
    · next hnone =>
      exact Task.returns_pure ⟨_, kept, hstops, hs, by rw [if_pos hnone]⟩
    · next hsome =>
      exact Task.returns_throw ⟨_, kept, hstops, hs, by rw [if_neg hsome]⟩
  | succ left ih =>
    have hlt : k < maxAttempts := by omega
    have hattempt : maxAttempts - (left + 1) = k := by omega
    unfold resend
    split
    · next hnone =>
      have hstops : Stops pending k k :=
        ⟨Nat.le_refl _, Nat.le_of_lt hlt, fun k h h' => absurd h (Nat.not_le.mpr h'),
          fun _ => List.isEmpty_iff.mp hnone⟩
      exact Task.returns_pure ⟨k, kept, hstops, hs, by rw [if_pos hnone]⟩
    · next hsome =>
      have hne : pending k ≠ [] := fun h => hsome (List.isEmpty_iff.mpr h)
      obtain ⟨x, s₁, hrun, kept₁, rfl, hs₁⟩ := hcall k kept s hlt hne hs
      obtain ⟨y, s₂, hrest, calls, kept₂, hstops, hs₂, hy⟩ := ih (by omega) hs₁
      have hfirst : k ≤ calls := Nat.le_trans (Nat.le_succ k) hstops.first_le
      refine ⟨y, s₂, ?_, calls, kept₂, ⟨hfirst, hstops.calls_le, ?_, hstops.pending_eq⟩, hs₂, hy⟩
      · simp only [hattempt]
        rw [← bind_assoc]
        exact (Task.run_bind_ok hrun).trans hrest
      · intro j hj hcalls
        rcases Nat.eq_or_lt_of_le hj with rfl | hj
        · exact hne
        · exact hstops.pending_ne j hj hcalls

end Loop

section Schedule

variable {counts : List Nat} {xs : List α} {n : Nat}

/-- How many of some entries are pending after so many calls, of which each leaves as many as its
count says, as far as there are so many, and none without a count. -/
def pendingAfter (counts : List Nat) (n : Nat) : Nat → Nat
  | 0 => n
  | k + 1 => min (pendingAfter counts n k) (counts.getD k 0)

/-- The entries that are not pending after so many calls. -/
def settled (counts : List Nat) (xs : List α) (k : Nat) : List α :=
  xs.take (xs.length - pendingAfter counts xs.length k)

def unsettled (counts : List Nat) (xs : List α) (k : Nat) : List α :=
  xs.drop (xs.length - pendingAfter counts xs.length k)

/-- The requests of so many calls: before each call but the first stands a pause. -/
def calling (ask : List α → Service.Request) (counts : List Nat) (xs : List α) (calls : Nat) :
    List Service.Request :=
  (List.range calls).flatMap fun k =>
    (if k = 0 then [] else [.wait (25 * 2 ^ min k 6)]) ++ [ask (unsettled counts xs k)]

theorem pendingAfter_le (counts : List Nat) (n k : Nat) : pendingAfter counts n k ≤ n := by
  induction k with
  | zero => exact Nat.le_refl n
  | succ k ih => exact Nat.le_trans (Nat.min_le_left ..) ih

theorem length_unsettled (counts : List Nat) (xs : List α) (k : Nat) :
    (unsettled counts xs k).length = pendingAfter counts xs.length k := by
  have hle := pendingAfter_le counts xs.length k
  rw [unsettled, List.length_drop]
  omega

theorem unsettled_suffix (counts : List Nat) (xs : List α) (k : Nat) :
    unsettled counts xs k <:+ xs :=
  List.drop_suffix ..

theorem calling_succ (ask : List α → Service.Request) (counts : List Nat) (xs : List α) (k : Nat) :
    calling ask counts xs (k + 1) = calling ask counts xs k ++
      ((if k = 0 then [] else [.wait (25 * 2 ^ min k 6)]) ++ [ask (unsettled counts xs k)]) := by
  rw [calling, List.range_succ, List.flatMap_append, List.flatMap_singleton]
  rfl

/-- A call settles a further part of the entries. -/
theorem holdBack_unsettled (counts : List Nat) (xs : List α) (k : Nat) :
    ∃ now, Memory.holdBack (counts.drop k) (unsettled counts xs k) =
        (now, unsettled counts xs (k + 1)) ∧
      settled counts xs (k + 1) = settled counts xs k ++ now := by
  have hle := pendingAfter_le counts xs.length k
  have hcount : (counts.drop k).headD 0 = counts.getD k 0 := by
    rw [List.headD_eq_head?_getD, List.head?_drop, List.getD_eq_getElem?_getD]
  have hcut : xs.length - pendingAfter counts xs.length (k + 1) =
      xs.length - pendingAfter counts xs.length k +
        (pendingAfter counts xs.length k - counts.getD k 0) := by
    rw [pendingAfter]
    omega
  refine ⟨_, Prod.ext rfl ?_, ?_⟩
  · simp only [Memory.holdBack, length_unsettled, hcount]
    rw [unsettled, unsettled, List.drop_drop, hcut]
  · simp only [Memory.holdBack, length_unsettled, hcount]
    rw [settled, settled, unsettled, hcut, List.take_add]

end Schedule

namespace Memory

variable {m : Memory} {table : String}

theorem subset_of_holdBack {counts : List Nat} {xs now later : List α}
    (h : holdBack counts xs = (now, later)) : now ⊆ xs := by
  rw [← (Prod.mk.inj h).1]
  exact List.take_subset ..

/-- Writes with keys are followed as far as the schedule lets them be. -/
theorem batchWrite_of_scheduled {ws now later : List Write} (hnext : m.faults.nextError = none)
    (herrors : m.faults.writeErrors.get? table = none) (hl : ws.length ≤ maxWrites)
    (hk : ∀ w ∈ ws, (w.key? (m.schema.keyName table)).isSome)
    (hcut : holdBack m.faults.unprocessedWrites ws = (now, later)) :
    ∃ m', m.batchWrite table ws = (.ok later, m') ∧ m.Wrote table now m' ∧
      m'.faults = { m.faults with
        nextError := none
        unprocessedWrites := m.faults.unprocessedWrites.tail } := by
  let m₁ : Memory := { m with
    faults := { m.faults with
      nextError := none
      unprocessedWrites := m.faults.unprocessedWrites.tail }
    calls := { m.calls with batchWrite := m.calls.batchWrite + 1 } }
  have hsame : m.Same m₁ := ⟨rfl, fun _ => rfl⟩
  have hnone : (m₁.applyWrites table now).1 = none :=
    applyWrites_eq_none fun w hw => hk w (subset_of_holdBack hcut hw)
  obtain ⟨done, -, hwrote, hdone⟩ := m₁.applyWrites_wrote table now
  obtain rfl := hdone hnone
  refine ⟨(m₁.applyWrites table done).2, ?_, hsame.trans_wrote hwrote,
    faults_applyWrites m₁ table done⟩
  have hfollowed : m₁.applyWrites table done = (none, (m₁.applyWrites table done).2) :=
    Prod.ext hnone rfl
  simp only [batchWrite, takeError, if_neg (Nat.not_lt.mpr hl), hnext, herrors, hcut]
  rw [hfollowed]

/-- Keys are looked up as far as the schedule lets them be. -/
theorem batchGet_of_scheduled {keys now later : List Item} (hnext : m.faults.nextError = none)
    (hl : keys.length ≤ maxGets)
    (hk : ∀ key ∈ keys, (key.text? (m.schema.keyName table)).isSome)
    (hcut : holdBack m.faults.unprocessedGets keys = (now, later)) :
    ∃ m', m.batchGet table keys = (.ok ⟨now.filterMap (m.found table), later⟩, m') ∧ m.Same m' ∧
      m'.faults = { m.faults with
        nextError := none
        unprocessedGets := m.faults.unprocessedGets.tail } := by
  let m₁ : Memory := { m with
    faults := { m.faults with
      nextError := none
      unprocessedGets := m.faults.unprocessedGets.tail }
    calls := { m.calls with batchGet := m.calls.batchGet + 1 } }
  have hfound : m₁.lookUp table now = .ok (now.filterMap (m.found table)) :=
    lookUp_ok (m := m₁) fun key hkey => hk key (subset_of_holdBack hcut hkey)
  refine ⟨m₁, ?_, ⟨rfl, fun _ => rfl⟩, rfl⟩
  simp only [batchGet, takeError, if_neg (Nat.not_lt.mpr hl), hnext, hcut]
  change ((m₁.lookUp table now).map (Batch.mk · later), m₁) = _
  rw [hfound]
  rfl

end Memory

section Calls

variable {source : Source ω} {m : Memory} {w : ω} {table : String} {k : Nat}
  {s : (Memory × ω) × List Service.Request}

theorem pause_run (s : Memory × ω) (log : List Service.Request) (k : Nat) :
    (pause k).run.run (recorded (answer source)) (s, log) =
      (.done (.ok ()), s, log ++ if k = 0 then [] else [.wait (25 * 2 ^ min k 6)]) := by
  unfold pause
  split
  · rw [List.append_nil]
    rfl
  · rw [backoff, Nat.shiftLeft_eq]
    rfl

theorem sendWrites_run {m₁ m₂ : Memory} {ws later : List Write}
    (h : m₁.batchWrite table ws = (.ok later, m₂)) (w : ω) (log : List Service.Request) :
    (sendWrites table () ws).run.run (recorded (answer source)) ((m₁, w), log) =
      (.done (.ok ((), later)), (m₂, w), log ++ [.store (.batchWrite table ws)]) := by
  have hbatch : (Task.batchWrite table ws).run.run (recorded (answer source)) ((m₁, w), log) =
      (.done (.ok later), (m₂, w), log ++ [.store (.batchWrite table ws)]) := by
    change (Outcome.done (m₁.batchWrite table ws).1, ((m₁.batchWrite table ws).2, w), _) = _
    rw [h]
  exact Task.run_bind_ok hbatch

theorem sendKeys_run {m₁ m₂ : Memory} {keys items later : List Item}
    (h : m₁.batchGet table keys = (.ok ⟨items, later⟩, m₂)) (found : List Item) (w : ω)
    (log : List Service.Request) :
    (sendKeys table found keys).run.run (recorded (answer source)) ((m₁, w), log) =
      (.done (.ok (found ++ items, later)), (m₂, w), log ++ [.store (.batchGet table keys)]) := by
  have hbatch : (Task.batchGet table keys).run.run (recorded (answer source)) ((m₁, w), log) =
      (.done (.ok ⟨items, later⟩), (m₂, w), log ++ [.store (.batchGet table keys)]) := by
    change (Outcome.done (m₁.batchGet table keys).1, ((m₁.batchGet table keys).2, w), _) = _
    rw [h]
  exact Task.run_bind_ok hbatch

/-- So many calls with writes have been made. -/
structure Writing (m : Memory) (w : ω) (table : String) (ws : List Write) (k : Nat)
    (s : (Memory × ω) × List Service.Request) : Prop where
  log_eq : s.2 =
    calling (fun ws => .store (.batchWrite table ws)) m.faults.unprocessedWrites ws k
  world_eq : s.1.2 = w
  wrote : m.Wrote table (settled m.faults.unprocessedWrites ws k) s.1.1
  nextError_eq : s.1.1.faults.nextError = none
  writeErrors_eq : s.1.1.faults.writeErrors.get? table = none
  counts_eq : s.1.1.faults.unprocessedWrites = m.faults.unprocessedWrites.drop k

theorem Writing.call {ws : List Write} (source : Source ω) (kept : Unit)
    (h : Writing m w table ws k s) (hl : ws.length ≤ maxWrites)
    (hk : ∀ w ∈ ws, (w.key? (m.schema.keyName table)).isSome) :
    Task.Returns (recorded (answer source))
      (do pause k; sendWrites table kept (unsettled m.faults.unprocessedWrites ws k)) s
      fun x s' => ∃ kept, x = .ok (kept, unsettled m.faults.unprocessedWrites ws (k + 1)) ∧
        Writing m w table ws (k + 1) s' := by
  obtain ⟨⟨m₁, w₁⟩, log⟩ := s
  obtain ⟨now, hcut, hsettled⟩ := holdBack_unsettled m.faults.unprocessedWrites ws k
  have hpending := unsettled_suffix m.faults.unprocessedWrites ws k
  have hkeys : ∀ w ∈ unsettled m.faults.unprocessedWrites ws k,
      (w.key? (m₁.schema.keyName table)).isSome := fun w hmem => by
    rw [h.wrote.schema_eq]
    exact hk w (hpending.subset hmem)
  obtain ⟨m₂, hbatch, hnow, hfaults⟩ := Memory.batchWrite_of_scheduled h.nextError_eq
    h.writeErrors_eq (Nat.le_trans hpending.length_le hl) hkeys (h.counts_eq ▸ hcut)
  refine ⟨_, _, (Task.run_bind_ok (pause_run (m₁, w₁) log k)).trans (sendWrites_run hbatch _ _),
    (), rfl, ?_, h.world_eq, ?_, ?_, ?_, ?_⟩
  · rw [calling_succ, ← h.log_eq, List.append_assoc]
  · exact hsettled ▸ h.wrote.trans hnow
  · rw [hfaults]
  · rw [hfaults]
    exact h.writeErrors_eq
  · rw [hfaults, h.counts_eq, List.tail_drop]

/-- So many calls with keys have been made. -/
structure Reading (m : Memory) (w : ω) (table : String) (keys : List Item) (k : Nat)
    (items : List Item) (s : (Memory × ω) × List Service.Request) : Prop where
  log_eq : s.2 =
    calling (fun keys => .store (.batchGet table keys)) m.faults.unprocessedGets keys k
  world_eq : s.1.2 = w
  same : m.Same s.1.1
  items_eq : items = (settled m.faults.unprocessedGets keys k).filterMap (m.found table)
  nextError_eq : s.1.1.faults.nextError = none
  counts_eq : s.1.1.faults.unprocessedGets = m.faults.unprocessedGets.drop k

theorem Reading.call {keys items : List Item} (source : Source ω)
    (h : Reading m w table keys k items s) (hl : keys.length ≤ maxGets)
    (hk : ∀ key ∈ keys, (key.text? (m.schema.keyName table)).isSome) :
    Task.Returns (recorded (answer source))
      (do pause k; sendKeys table items (unsettled m.faults.unprocessedGets keys k)) s
      fun x s' => ∃ kept, x = .ok (kept, unsettled m.faults.unprocessedGets keys (k + 1)) ∧
        Reading m w table keys (k + 1) kept s' := by
  obtain ⟨⟨m₁, w₁⟩, log⟩ := s
  obtain ⟨now, hcut, hsettled⟩ := holdBack_unsettled m.faults.unprocessedGets keys k
  have hpending := unsettled_suffix m.faults.unprocessedGets keys k
  have hkeys : ∀ key ∈ unsettled m.faults.unprocessedGets keys k,
      (key.text? (m₁.schema.keyName table)).isSome := fun key hmem => by
    rw [h.same.schema_eq]
    exact hk key (hpending.subset hmem)
  obtain ⟨m₂, hbatch, hsame, hfaults⟩ := Memory.batchGet_of_scheduled h.nextError_eq
    (Nat.le_trans hpending.length_le hl) hkeys (h.counts_eq ▸ hcut)
  refine ⟨_, _, (Task.run_bind_ok (pause_run (m₁, w₁) log k)).trans (sendKeys_run hbatch _ _ _),
    _, rfl, ?_, h.world_eq, h.same.trans hsame, ?_, ?_, ?_⟩
  · rw [calling_succ, ← h.log_eq, List.append_assoc]
  · rw [h.items_eq, h.same.found_eq, hsettled, List.filterMap_append]
  · rw [hfaults]
  · rw [hfaults, h.counts_eq, List.tail_drop]

end Calls

section Ends

variable {ask : List α → Service.Request} {counts : List Nat} {xs : List α} {calls : Nat}
  {log : List Service.Request} {x : Except StoreError β} {kept : β}

/-- Calls are made until nothing is pending, at most eight, and the result tells what is pending
after the last of them. -/
structure Resent (ask : List α → Service.Request) (counts : List Nat) (xs : List α) (calls : Nat)
    (log : List Service.Request) (x : Except StoreError β) : Prop where
  calls_le : calls ≤ 8
  pending_before : ∀ k < calls, pendingAfter counts xs.length k ≠ 0
  pending_last : calls < 8 → pendingAfter counts xs.length calls = 0
  log_eq : log = calling ask counts xs calls
  ok_iff : (∃ kept, x = .ok kept) ↔ pendingAfter counts xs.length calls = 0
  error_eq : pendingAfter counts xs.length calls ≠ 0 →
    x = .error (.unprocessed 8 (pendingAfter counts xs.length calls))

theorem unsettled_eq_nil_iff {k : Nat} :
    unsettled counts xs k = [] ↔ pendingAfter counts xs.length k = 0 := by
  rw [← length_unsettled, List.length_eq_zero_iff]

theorem settled_of_pendingAfter {k : Nat} (h : pendingAfter counts xs.length k = 0) :
    settled counts xs k = xs := by
  rw [settled, h, Nat.sub_zero, List.take_length]

theorem Stops.resent (h : Stops (unsettled counts xs) 0 calls)
    (hlog : log = calling ask counts xs calls)
    (hx : x = if (unsettled counts xs calls).isEmpty then .ok kept else
      .error (.unprocessed maxAttempts (unsettled counts xs calls).length)) :
    Resent ask counts xs calls log x where
  calls_le := h.calls_le
  pending_before k hk := mt unsettled_eq_nil_iff.mpr (h.pending_ne k (Nat.zero_le k) hk)
  pending_last hlt := unsettled_eq_nil_iff.mp (h.pending_eq hlt)
  log_eq := hlog
  ok_iff := by
    rw [← unsettled_eq_nil_iff, hx]
    split
    · next hnone => exact iff_of_true ⟨kept, rfl⟩ (List.isEmpty_iff.mp hnone)
    · next hsome => exact iff_of_false (fun ⟨_, h⟩ => nomatch h) (mt List.isEmpty_iff.mpr hsome)
  error_eq hne := by
    rw [hx, if_neg (mt (fun h => unsettled_eq_nil_iff.mp (List.isEmpty_iff.mp h)) hne),
      length_unsettled]
    rfl

variable {m : Memory} {table : String}

theorem settled_zero (counts : List Nat) (xs : List α) : settled counts xs 0 = [] := by
  rw [settled, pendingAfter, Nat.sub_self, List.take_zero]

theorem unsettled_zero (counts : List Nat) (xs : List α) : unsettled counts xs 0 = xs := by
  rw [unsettled, pendingAfter, Nat.sub_self, List.drop_zero]

theorem writeAll_resends {ws : List Write} (source : Source ω) (hnext : m.faults.nextError = none)
    (herrors : m.faults.writeErrors.get? table = none) (hl : ws.length ≤ maxWrites)
    (hk : ∀ w ∈ ws, (w.key? (m.schema.keyName table)).isSome) (w : ω) :
    (writeAll table ws).Returns (recorded (answer source)) ((m, w), []) fun x s => ∃ calls,
      Resent (fun ws => .store (.batchWrite table ws)) m.faults.unprocessedWrites ws calls s.2 x ∧
      m.Wrote table (settled m.faults.unprocessedWrites ws calls) s.1.1 ∧ s.1.2 = w := by
  have hstart : Writing m w table ws 0 ((m, w), []) :=
    ⟨rfl, rfl, settled_zero m.faults.unprocessedWrites ws ▸ (Memory.Same.refl m).wrote table,
      hnext, herrors, rfl⟩
  obtain ⟨x, s, hrun, calls, kept, hstops, hend, hx⟩ :=
    resend_returns (fun k _ s => Writing m w table ws k s)
      (fun k kept s _ _ h => h.call source kept hl hk) maxAttempts (Nat.zero_add _) hstart
  refine ⟨x, s, ?_, calls, hstops.resent hend.log_eq hx, hend.wrote, hend.world_eq⟩
  rw [unsettled_zero] at hrun
  rwa [writeAll, writePending_eq]

theorem getAll_resends {keys : List Item} (source : Source ω)
    (hnext : m.faults.nextError = none) (hl : keys.length ≤ maxGets)
    (hk : ∀ key ∈ keys, (key.text? (m.schema.keyName table)).isSome) (w : ω) :
    (getAll table keys).Returns (recorded (answer source)) ((m, w), []) fun x s => ∃ calls,
      Resent (fun keys => .store (.batchGet table keys)) m.faults.unprocessedGets keys calls s.2 x ∧
      (∀ items, x = .ok items → items = keys.filterMap (m.found table)) ∧ m.Same s.1.1 ∧
      s.1.2 = w := by
  have hstart : Reading m w table keys 0 [] ((m, w), []) :=
    ⟨rfl, rfl, .refl m, by rw [settled_zero]; rfl, hnext, rfl⟩
  obtain ⟨x, s, hrun, calls, kept, hstops, hend, hx⟩ :=
    resend_returns (Reading m w table keys)
      (fun k _ s _ _ h => h.call source hl hk) maxAttempts (Nat.zero_add _) hstart
  refine ⟨x, s, ?_, calls, hstops.resent hend.log_eq hx, ?_, hend.same, hend.world_eq⟩
  · rw [unsettled_zero] at hrun
    rwa [getAll, getPending_eq]
  · rintro items rfl
    split at hx
    · next hnone =>
      have hall := settled_of_pendingAfter (unsettled_eq_nil_iff.mp (List.isEmpty_iff.mp hnone))
      rw [Except.ok.inj hx, hend.items_eq, hall]
    · cases hx

/-- Against a store that holds back the ends of batches by a schedule, all of a batch is written or
read in list order as soon as nothing of it is pending any more. Where eight calls are not enough,
the error counts what is pending, and the entries in front of that have been written. -/
theorem resending_converges (source : Source ω) (m : Memory) (w : ω) (table : String)
    (hnext : m.faults.nextError = none) :
    (∀ ws : List Write, m.faults.writeErrors.get? table = none → ws.length ≤ 25 →
      (∀ w ∈ ws, (w.key? (m.schema.keyName table)).isSome) →
      ∃ x m' log calls,
        (writeAll table ws).run.run (recorded (answer source)) ((m, w), []) =
          (.done x, (m', w), log) ∧
        Resent (fun pending => .store (.batchWrite table pending)) m.faults.unprocessedWrites ws
          calls log x ∧
        m.Wrote table
          (ws.take (ws.length - pendingAfter m.faults.unprocessedWrites ws.length calls)) m') ∧
    ∀ keys : List Item, keys.length ≤ 100 →
      (∀ key ∈ keys, (key.text? (m.schema.keyName table)).isSome) →
      ∃ x m' log calls,
        (getAll table keys).run.run (recorded (answer source)) ((m, w), []) =
          (.done x, (m', w), log) ∧
        Resent (fun pending => .store (.batchGet table pending)) m.faults.unprocessedGets keys
          calls log x ∧
        (∀ items, x = .ok items → items = keys.filterMap (m.found table)) ∧ m.Same m' := by
  constructor
  · intro ws herrors hl hk
    obtain ⟨x, ⟨⟨m', w'⟩, log⟩, hrun, calls, hresent, hwrote, rfl⟩ :=
      writeAll_resends source hnext herrors hl hk w
    exact ⟨x, m', log, calls, hrun, hresent, hwrote⟩
  · intro keys hl hk
    obtain ⟨x, ⟨⟨m', w'⟩, log⟩, hrun, calls, hresent, hitems, hsame, rfl⟩ :=
      getAll_resends source hnext hl hk w
    exact ⟨x, m', log, calls, hrun, hresent, hitems, hsame⟩

section Sample

/-- Writes make no progress once, and of the keys one is never looked up. -/
def slowMemory : Memory where
  schema := {}
  faults := { unprocessedWrites := [2, 2, 1], unprocessedGets := List.replicate 8 1 }

def slowWrites : List Write :=
  ["a", "b", "c"].map fun text => .put (Item.key "id" text)

def slowKeys : List Item :=
  ["a", "b"].map (Item.key "id")

theorem resending_converges_slow :
    (∃ m' log, (writeAll "live" slowWrites).run.run (recorded (answer fun _ _ w => (none, w)))
        ((slowMemory, ()), []) = (.done (.ok ()), (m', ()), log) ∧
      log = [.store (.batchWrite "live" slowWrites),
        .wait 50, .store (.batchWrite "live" (slowWrites.drop 1)),
        .wait 100, .store (.batchWrite "live" (slowWrites.drop 1)),
        .wait 200, .store (.batchWrite "live" (slowWrites.drop 2))] ∧
      m'.table "live" = Table.empty.apply "id" slowWrites) ∧
    ∃ s, (getAll "live" slowKeys).run.run (recorded (answer fun _ _ w => (none, w)))
      ((slowMemory, ()), []) = (.done (.error (.unprocessed 8 1)), s) := by
  obtain ⟨hwrites, hkeys⟩ :=
    resending_converges (fun _ _ w => (none, w)) slowMemory () "live" rfl
  constructor
  · obtain ⟨x, m', log, calls, hrun, hresent, hwrote⟩ :=
      hwrites slowWrites rfl (by decide) (by decide)
    have hcalls : calls = 4 := by
      rcases Nat.lt_trichotomy calls 4 with h | h | h
      · have hsome : ∀ k < 4, pendingAfter [2, 2, 1] 3 k ≠ 0 := by decide
        exact absurd (hresent.pending_last (by omega)) (hsome calls h)
      · exact h
      · exact absurd rfl (hresent.pending_before 4 h)
    subst hcalls
    obtain ⟨_, rfl⟩ := hresent.ok_iff.mpr rfl
    exact ⟨m', log, hrun, hresent.log_eq, hwrote.table_eq⟩
  · obtain ⟨x, m', log, calls, hrun, hresent, -⟩ := hkeys slowKeys (by decide) (by decide)
    have hcalls : calls = 8 := by
      by_contra hne
      have hlt : calls < 8 := Nat.lt_of_le_of_ne hresent.calls_le hne
      have hsome : ∀ k < 8, pendingAfter (List.replicate 8 1) 2 k ≠ 0 := by decide
      exact hsome calls hlt (hresent.pending_last hlt)
    subst hcalls
    rw [hresent.error_eq (by decide)] at hrun
    exact ⟨_, hrun⟩

end Sample

end Ends

end Store

end GroupCalendar
