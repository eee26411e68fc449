import GroupCalendar.Proofs.Program.Returns
import GroupCalendar.Proofs.Record
import GroupCalendar.Proofs.Store.Session
import GroupCalendar.Store.Batch

/-! # Batches written in part

A batch that is refused, or of which too much stays unprocessed, has been followed up to some write
and no further. Nothing else happens to the tables as long as nobody else writes to the store,
whatever faults come up meanwhile.
-/

namespace GroupCalendar

open Store Service

namespace Service

variable {σ ω : Type}

/-- A handler with a store to which nobody else writes: it answers requests to the store from memory,
and the tables are as they were left by the request before. -/
structure SoleWriter (handle : (r : Request) → σ → Reply r × σ) (view : σ → Memory) : Prop where
  store : ∀ r s, ∃ m, (view s).Same m ∧ (handle (.store r) s).1 = (m.answer r).1 ∧
    view (handle (.store r) s).2 = (m.answer r).2
  wait : ∀ millis s, (view s).Same (view (handle (.wait millis) s).2)

theorem soleWriter_answer (source : Source ω) : SoleWriter (answer source) Prod.fst where
  store _ s := ⟨s.1, .refl s.1, rfl, rfl⟩
  wait _ s := .refl s.1

/-- The answers of a session in which the faults of the store are set anew before every request. The
requests are counted. -/
def disturbed (inject : Nat → Faults → Faults) (source : Source ω) :
    (r : Request) → (Memory × ω) × Nat → Reply r × ((Memory × ω) × Nat)
  | r, ((m, w), n) =>
    let (reply, s) := answer source r ({ m with faults := inject n m.faults }, w)
    (reply, s, n + 1)

theorem soleWriter_disturbed (inject : Nat → Faults → Faults) (source : Source ω) :
    SoleWriter (disturbed inject source) fun s => s.1.1 where
  store _ := fun ((m, _), n) =>
    ⟨{ m with faults := inject n m.faults }, ⟨rfl, fun _ => rfl⟩, rfl, rfl⟩
  wait _ := fun _ => ⟨rfl, fun _ => rfl⟩

end Service

namespace Store

variable {ε ε' : Type} {m m' m'' : Memory} {table : String} {ws : List Write}

namespace Memory

/-- A front part of some writes has been followed, and this is all of them exactly if the result is
no error. -/
def WrotePart (m : Memory) (table : String) (ws : List Write) (x : Except ε Unit) (m' : Memory) :
    Prop :=
  ∃ done rest, ws = done ++ rest ∧ m.Wrote table done m' ∧ (rest = [] ↔ x = .ok ())

theorem WrotePart.mapError {x : Except ε Unit} (h : m.WrotePart table ws x m') (g : ε → ε') :
    m.WrotePart table ws (x.mapError g) m' := by
  obtain ⟨done, rest, hws, hwrote, hiff⟩ := h
  exact ⟨done, rest, hws, hwrote, hiff.trans Record.mapError_eq_ok_iff.symm⟩

theorem wrotePart_nil (hs : m.Same m') : m.WrotePart table [] (.ok () : Except ε Unit) m' :=
  ⟨[], [], rfl, hs.wrote table, iff_of_true rfl rfl⟩

theorem WrotePart.error (e : ε) (done : List Write) {rest : List Write}
    (hw : m.Wrote table done m') (hne : rest ≠ []) :
    m.WrotePart table (done ++ rest) (.error e : Except ε Unit) m' :=
  ⟨done, rest, rfl, hw, iff_of_false hne nofun⟩

/-- Writes behind others that have been followed. -/
theorem WrotePart.after {x : Except ε Unit} {front : List Write} (h : m'.WrotePart table ws x m'')
    (hw : m.Wrote table front m') : m.WrotePart table (front ++ ws) x m'' := by
  obtain ⟨done, rest, rfl, hwrote, hiff⟩ := h
  exact ⟨front ++ done, rest, (List.append_assoc ..).symm, hw.trans hwrote, hiff⟩

/-- Writes that come behind a failure are not followed. -/
theorem WrotePart.before {e : ε} (h : m.WrotePart table ws (.error e : Except ε Unit) m')
    (later : List Write) : m.WrotePart table (ws ++ later) (.error e : Except ε Unit) m' := by
  obtain ⟨done, rest, rfl, hwrote, hiff⟩ := h
  have hne : rest ≠ [] := fun hnil => nomatch hiff.mp hnil
  rw [List.append_assoc]
  exact .error e done hwrote (List.append_ne_nil_of_left_ne_nil hne later)

theorem WrotePart.wrote (h : m.WrotePart table ws (.ok () : Except ε Unit) m') :
    m.Wrote table ws m' := by
  obtain ⟨done, rest, rfl, hwrote, hiff⟩ := h
  obtain rfl := hiff.mpr rfl
  rwa [List.append_nil]

/-- Writes that fail have been followed up to one that has no key. -/
theorem exists_of_applyWrites {e : StoreError} (h : (m.applyWrites table ws).1 = some e) :
    ∃ done rest, ws = done ++ rest ∧ rest ≠ [] ∧ m.Wrote table done (m.applyWrites table ws).2 := by
  induction ws generalizing m with
  | nil => cases h
  | cons w ws ih =>
    rw [applyWrites] at h ⊢
    cases hw : m.applyWrite table w with
    | error e' => exact ⟨[], w :: ws, rfl, List.cons_ne_nil w ws, (Same.refl m).wrote table⟩
    | ok m' =>
      rw [hw] at h
      obtain ⟨done, rest, rfl, hne, hwrote⟩ := ih h
      exact ⟨w :: done, rest, rfl, hne, (applyWrite_wrote hw).trans hwrote⟩

/-- A batch that is refused has not been followed to its end. -/
theorem exists_of_batchWrite {e : StoreError} (h : (m.batchWrite table ws).1 = .error e)
    (hne : ws ≠ []) :
    ∃ done rest, ws = done ++ rest ∧ rest ≠ [] ∧ m.Wrote table done (m.batchWrite table ws).2 := by
  obtain ⟨e', m', he, hs⟩ | ⟨n, m', hs, he⟩ := m.batchWrite_cases table ws
  · rw [he]
    exact ⟨[], ws, rfl, hne, hs.wrote table⟩
  · rw [he] at h ⊢
    cases happlied : m'.applyWrites table (ws.take n) with
    | mk reply m'' =>
      rw [happlied] at h
      cases reply with
      | none => cases h
      | some e' =>
        have hfail : (m'.applyWrites table (ws.take n)).1 = some e' := by rw [happlied]
        obtain ⟨done, rest, htake, hrest, hwrote⟩ := exists_of_applyWrites hfail
        rw [happlied] at hwrote
        refine ⟨done, rest ++ ws.drop n, ?_, List.append_ne_nil_of_left_ne_nil hrest _,
          hs.trans_wrote hwrote⟩
        rw [← List.append_assoc, ← htake, List.take_append_drop]

end Memory

section Attempts

variable {σ : Type} {handle : (r : Service.Request) → σ → Service.Reply r × σ} {view : σ → Memory}
  {s : σ}

theorem pause_returns (h : SoleWriter handle view) (attempt : Nat) :
    (pause attempt).Returns handle s fun x s' => x = .ok () ∧ (view s).Same (view s') := by
  unfold pause
  split
  · exact Task.returns_pure ⟨rfl, .refl _⟩
  · exact ⟨.ok (), _, rfl, rfl, h.wait _ s⟩

/-- The reply to a batch is the part that has not been written, or an error. -/
theorem batchWrite_returns (h : SoleWriter handle view) (hne : ws ≠ []) :
    (Task.batchWrite table ws).Returns handle s fun x s' =>
      (∀ later, x = .ok later → ∃ done, ws = done ++ later ∧ (view s).Wrote table done (view s')) ∧
      ∀ e, x = .error e → (view s).WrotePart table ws (.error e : Except StoreError Unit)
        (view s') := by
  obtain ⟨m, hs, hreply, hview⟩ := h.store (.batchWrite table ws) s
  refine ⟨_, _, rfl, ?_, ?_⟩
  · intro later hx
    obtain ⟨done, -, hwrote, hlater⟩ := m.batchWrite_wrote table ws
    rw [hview]
    exact ⟨done, hlater later (hreply.symm.trans hx), hs.trans_wrote hwrote⟩
  · intro e hx
    have hrefused : (m.batchWrite table ws).1 = .error e := hreply.symm.trans hx
    obtain ⟨done, rest, rfl, hrest, hwrote⟩ := Memory.exists_of_batchWrite hrefused hne
    rw [hview]
    exact .error e done (hs.trans_wrote hwrote) hrest

/-- Writes that are sent again and again are followed up to the first that is still pending in the
end, or that a request fails at. -/
theorem writePending_returns (h : SoleWriter handle view) (table : String) (left : Nat)
    (ws : List Write) (s : σ) :
    (writePending table left ws).Returns handle s fun x s' =>
      (view s).WrotePart table ws x (view s') := by
  induction left generalizing ws s with
  | zero =>
    unfold writePending
    split
    · next he =>
      obtain rfl := List.isEmpty_iff.mp he
      exact Task.returns_pure (Memory.wrotePart_nil (.refl _))
    · next he =>
      have hne : ws ≠ [] := fun e => he (List.isEmpty_iff.mpr e)
      exact Task.returns_throw (.error _ [] ((Memory.Same.refl _).wrote table) hne)
  | succ left ih =>
    unfold writePending
    split
    · next he =>
      obtain rfl := List.isEmpty_iff.mp he
      exact Task.returns_pure (Memory.wrotePart_nil (.refl _))
    · next he =>
      have hne : ws ≠ [] := fun e => he (List.isEmpty_iff.mpr e)
      refine (pause_returns h _).bind (fun _ s₁ hpaused => ?_) fun e s' hpaused => nomatch hpaused.1
      have hsame : (view s).Wrote table [] (view s₁) := hpaused.2.wrote table
      refine (batchWrite_returns h hne).bind (fun later s₂ hbatch => ?_) fun e s₂ hbatch => ?_
      · obtain ⟨done, hws, hwrote⟩ := hbatch.1 later rfl
        obtain ⟨x, s₃, hrun, hpart⟩ := ih later s₂
        refine ⟨x, s₃, hrun, ?_⟩
        rw [hws]
        exact hpart.after (hsame.trans hwrote)
      · exact (hbatch.2 e rfl).after hsame

/-- Looking up keys changes no table, and the reply is about those at the front of the batch. -/
theorem batchGet_returns (h : SoleWriter handle view) (table : String) (keys : List Item) (s : σ) :
    (Task.batchGet table keys).Returns handle s fun x s' => (view s).Same (view s') ∧
      ∀ b, x = .ok b → ∃ now, keys = now ++ b.unprocessed ∧
        b.items = now.filterMap ((view s).found table) := by
  obtain ⟨m, hs, hreply, hview⟩ := h.store (.batchGet table keys) s
  obtain ⟨hsame, hfound⟩ := m.batchGet_found table keys
  refine ⟨_, _, rfl, ?_, ?_⟩
  · rw [hview]
    exact hs.trans hsame
  · intro b hb
    rw [← hs.found_eq]
    exact hfound b (hreply.symm.trans hb)

theorem getPending_returns (h : SoleWriter handle view) (table : String) (left : Nat)
    (items keys : List Item) (s : σ) :
    (getPending table left items keys).Returns handle s fun x s' => (view s).Same (view s') ∧
      ∀ result, x = .ok result → result = items ++ keys.filterMap ((view s).found table) := by
  induction left generalizing items keys s with
  | zero =>
    unfold getPending
    split
    · next he =>
      obtain rfl := List.isEmpty_iff.mp he
      refine Task.returns_pure ⟨.refl _, ?_⟩
      rintro result ⟨⟩
      exact (List.append_nil items).symm
    · exact Task.returns_throw ⟨.refl _, nofun⟩
  | succ left ih =>
    unfold getPending
    split
    · next he =>
      obtain rfl := List.isEmpty_iff.mp he
      refine Task.returns_pure ⟨.refl _, ?_⟩
      rintro result ⟨⟩
      exact (List.append_nil items).symm
    · refine (pause_returns h _).bind (fun _ s₁ hpaused => ?_) fun e s' hpaused => nomatch hpaused.1
      refine (batchGet_returns h table keys s₁).bind (fun b s₂ hbatch => ?_) fun e s₂ hbatch => ?_
      · obtain ⟨now, hkeys, hitems⟩ := hbatch.2 b rfl
        have hsame := hpaused.2.trans hbatch.1
        obtain ⟨x, s₃, hrun, hlater, hresult⟩ := ih (items ++ b.items) b.unprocessed s₂
        refine ⟨x, s₃, hrun, hsame.trans hlater, fun result hx => ?_⟩
        rw [hresult result hx, hitems, hsame.found_eq, hpaused.2.found_eq, List.append_assoc,
          ← List.filterMap_append, ← hkeys]
      · exact ⟨hpaused.2.trans hbatch.1, nofun⟩

/-- What the keys are found to stand for is what the tables hold, or the look-up fails. -/
theorem getAll_returns (h : SoleWriter handle view) (table : String) (keys : List Item) (s : σ) :
    (getAll table keys).Returns handle s fun x s' => (view s).Same (view s') ∧
      ∀ items, x = .ok items → items = keys.filterMap ((view s).found table) :=
  getPending_returns h table maxAttempts [] keys s

end Attempts

end Store

end GroupCalendar
