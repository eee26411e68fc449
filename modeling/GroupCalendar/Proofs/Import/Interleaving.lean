import GroupCalendar.Proofs.Import.Conduct
import GroupCalendar.Proofs.Import.Steps
import GroupCalendar.Proofs.Store.Session
import Mathlib.Logic.Function.Basic

/-! # Interleaved workers

Workers share a store and keep their own ledgers. Step by step the store accords with all ledgers:
what is acknowledged as archived is in the archive, and what is acknowledged as saved is live as
some worker has listed it, unless a worker has requested its deletion.
-/

namespace GroupCalendar

open Store Service

section Answers

variable {ω : Type} {source : Source ω} {c : Catalogue} {m m' : Memory} {l : Ledger}
  {table : String} {ws : List Write}

/-- The replies of a session are lawful. -/
theorem lawful_answer (hc : c.Fits m.schema) (hk : m.Keyed) (q : Service.Request) (w : ω) :
    Ledger.Lawful c q (answer source q (m, w)).1 := by
  match q with
  | .wait _ | .graphQl .. | .store (.query ..) | .store (.getItem ..) => trivial
  | .store (.batchGet table keys) =>
    change Ledger.Lawful c (.store (.batchGet table keys)) (m.batchGet table keys).1
    cases hb : (m.batchGet table keys).1 with
    | error e => trivial
    | ok b =>
      rintro rfl
      obtain ⟨now, hkeys, hitems⟩ := (m.batchGet_found c.live keys).2 b hb
      refine ⟨hkeys ▸ List.subset_append_right _ _, ?_⟩
      intro item hi
      rw [hitems] at hi
      obtain ⟨key, hkey, hf⟩ := List.mem_filterMap.mp hi
      obtain ⟨text, ht, hg⟩ := Option.bind_eq_some_iff.mp hf
      rw [hc.live_key] at ht
      have hitem : item.text? Catalogue.idName = some text := hc.live_key ▸ hk c.live text item hg
      exact ⟨key, hkeys ▸ List.mem_append_left _ hkey, hitem.trans ht.symm⟩
  | .store (.batchWrite table ws) =>
    change Ledger.Lawful c (.store (.batchWrite table ws)) (m.batchWrite table ws).1
    cases hb : (m.batchWrite table ws).1 with
    | error e => trivial
    | ok later =>
      obtain ⟨done, -, -, hd⟩ := m.batchWrite_wrote table ws
      exact ⟨done, hd later hb⟩

/-- What permitted writes leave live under an id. -/
theorem live_cases (hc : c.Fits m.schema) (hw : m.Wrote table ws m')
    (hp : ∀ w ∈ ws, l.Permits c table w) (id : String) :
    (m'.get? c.live id = m.get? c.live id ∧
      (table = c.live → ∀ w ∈ ws, w.key? Catalogue.idName ≠ some id)) ∨
    (∃ e ∈ l.listed, e.id = id ∧ m'.get? c.live id = some e.toItem) ∨
    (table = c.live ∧ .delete (Item.key Catalogue.idName id) ∈ ws ∧ id ∈ l.archived) := by
  have h := hw.get?_cases c.live id
  rw [hc.live_key] at h
  rcases h with h | ⟨ht, item, hi, hk, hg⟩ | ⟨ht, key, hi, hk, hg⟩
  · exact .inl h
  · obtain ⟨e, he, rfl⟩ : ∃ e ∈ l.listed, e.toItem = item := by
      cases hp _ hi with
      | save he => exact ⟨_, he, rfl⟩
      | keep hi => exact absurd ht.symm hc.distinct
    exact .inr (.inl ⟨e, he, Option.some.inj (e.text?_toItem.symm.trans hk), hg⟩)
  · obtain ⟨id', rfl, ha⟩ : ∃ id, key = Item.key Catalogue.idName id ∧ id ∈ l.archived := by
      cases hp _ hi with
      | erase ha _ _ => exact ⟨_, rfl, ha⟩
    obtain rfl : id' = id := Option.some.inj ((Item.text?_key _ _).symm.trans hk)
    exact .inr (.inr ⟨ht, hi, ha⟩)

/-- Permitted writes take nothing out of the archive. -/
theorem archive_cases (hc : c.Fits m.schema) (hw : m.Wrote table ws m')
    (hp : ∀ w ∈ ws, l.Permits c table w) (id : String) :
    (m'.get? c.archive id = m.get? c.archive id ∧
      (table = c.archive → ∀ w ∈ ws, w.key? Catalogue.idName ≠ some id)) ∨
    (m'.get? c.archive id).isSome := by
  have h := hw.get?_cases c.archive id
  rw [hc.archive_key] at h
  rcases h with h | ⟨ht, item, hi, hk, hg⟩ | ⟨ht, key, hi, hk, hg⟩
  · exact .inl h
  · exact .inr (Option.isSome_of_eq_some hg)
  · cases hp _ hi with
    | erase => exact absurd ht hc.distinct

end Answers

namespace Import

/-- A phase goes over into another one without a request. -/
inductive Phase.Passes : Phase → Phase → Prop
  | starts {p} : Passes (.waiting p) (.working p)
  | ends {x} : Passes (.working (.done x)) (.finished (.done x))
  | breaks : Passes (.working .broken) (.finished .broken)
  | exhausts : Passes (.working .exhausted) (.finished .exhausted)

namespace Run

section Steps

variable {σ : Type} {c : Catalogue} {handle : Handler σ}

/-- The ledgers after a step of worker `i`, which alone may write into its own. -/
def record (c : Catalogue) (handle : Handler σ) (i : Nat) (r : Run σ) (ls : Nat → Ledger) :
    Nat → Ledger :=
  match r.workers[i]? with
  | some ⟨group, .working (.ask q _)⟩ =>
    Function.update ls i ((ls i).record c group q (handle q r.state).1)
  | _ => ls

/-- The ledgers after the steps of a schedule. -/
def ledgers (c : Catalogue) (handle : Handler σ) :
    List Nat → Run σ → (Nat → Ledger) → Nat → Ledger
  | [], _, ls => ls
  | i :: rest, r, ls => ledgers c handle rest (r.step handle i) (r.record c handle i ls)

/-- All that a step can do. -/
theorem step_cases (c : Catalogue) (handle : Handler σ) (i : Nat) (r : Run σ)
    (ls : Nat → Ledger) :
    (r.step handle i = r ∧ r.record c handle i ls = ls) ∨
    (∃ w phase, r.workers[i]? = some w ∧ w.phase.Passes phase ∧
      (r.step handle i).workers = (r.setPhase i phase).workers ∧
      (r.step handle i).state = r.state ∧ r.record c handle i ls = ls) ∨
    (∃ group q next, r.workers[i]? = some ⟨group, .working (.ask q next)⟩ ∧
      (r.step handle i).workers =
        (r.setPhase i (.working (next (handle q r.state).1))).workers ∧
      (r.step handle i).state = (handle q r.state).2 ∧
      r.record c handle i ls =
        Function.update ls i ((ls i).record c group q (handle q r.state).1)) := by
  unfold step phase? record
  cases hw : r.workers[i]? with
  | none => exact .inl ⟨rfl, rfl⟩
  | some w =>
    obtain ⟨group, phase⟩ := w
    match phase with
    | .waiting p =>
      by_cases hf : r.free = 0
      · exact .inl ⟨if_pos hf, rfl⟩
      · refine .inr (.inl ⟨_, .working p, rfl, .starts, ?_, ?_, rfl⟩)
        · simp only [Option.map_some, if_neg hf]
        · simp only [Option.map_some, if_neg hf, setPhase]
    | .working (.done x) => exact .inr (.inl ⟨_, _, rfl, .ends, rfl, rfl, rfl⟩)
    | .working .broken => exact .inr (.inl ⟨_, _, rfl, .breaks, rfl, rfl, rfl⟩)
    | .working .exhausted => exact .inr (.inl ⟨_, _, rfl, .exhausts, rfl, rfl, rfl⟩)
    | .working (.ask q next) => exact .inr (.inr ⟨group, q, next, rfl, rfl, rfl, rfl⟩)
    | .finished result => exact .inl ⟨rfl, rfl⟩

end Steps

end Run

section Invariant

variable {ω : Type} {source : Source ω} {c : Catalogue} {r : Run (Memory × ω)}
  {ls : Nat → Ledger}

/-- A worker goes on as its ledger allows, and has saved all that it has listed if it ends well. -/
def Worker.Keeps (c : Catalogue) (w : Worker) (l : Ledger) : Prop :=
  match w.phase with
  | .waiting p | .working p =>
    p.Meets (Ledger.contract c w.group) l fun x l' => ∀ g, x = .ok g → l'.Settled
  | .finished result => ∀ g, result = .done (.ok g) → l.Settled

/-- Live is what some worker has listed under an id, or a worker has requested its deletion. -/
def Kept (c : Catalogue) (ls : Nat → Ledger) (m : Memory) (id : String) : Prop :=
  (∃ j, ∃ e ∈ (ls j).listed, e.id = id ∧ m.get? c.live id = some e.toItem) ∨
    ∃ j, id ∈ (ls j).erased

/-- The workers keep to their ledgers, and the store accords with them. -/
structure Accords (c : Catalogue) (r : Run (Memory × ω)) (ls : Nat → Ledger) : Prop where
  fits : c.Fits r.state.1.schema
  keyed : r.state.1.Keyed
  workers : ∀ i, (r.workers[i]?).elim (ls i).Settled fun w => w.Keeps c (ls i)
  archived : ∀ i, ∀ id ∈ (ls i).archived, (r.state.1.get? c.archive id).isSome
  erased : ∀ i, ∀ id ∈ (ls i).erased,
    id ∈ (ls i).read.map (·.id) ∧ id ∉ (ls i).listed.map (·.id)
  saved : ∀ i, ∀ id ∈ (ls i).saved, Kept c ls r.state.1 id

theorem Worker.Keeps.passes {w : Worker} {phase : Phase} {l : Ledger} (h : w.Keeps c l)
    (hp : w.phase.Passes phase) : Worker.Keeps c { w with phase := phase } l := by
  obtain ⟨group, before⟩ := w
  cases hp with
  | starts => exact h
  | ends =>
    intro g hg
    exact h g (Outcome.done.inj hg)
  | breaks | exhausts => rintro g ⟨⟩

theorem forall_update (p : Ledger → Prop) {i : Nat} {l : Ledger} (hl : p l) (h : ∀ j, p (ls j))
    (j : Nat) : p (Function.update ls i l j) := by
  by_cases hj : j = i
  · subst hj
    rwa [Function.update_self]
  · rw [Function.update_of_ne hj]
    exact h j

/-- A new phase and ledger of one worker leave all others as they are. -/
theorem Accords.workers_update {i : Nat} {w : Worker} {phase : Phase} {l : Ledger}
    {r' : Run (Memory × ω)} (h : Accords c r ls) (hw : r.workers[i]? = some w)
    (hr : r'.workers = (r.setPhase i phase).workers)
    (hk : Worker.Keeps c { w with phase := phase } l) (j : Nat) :
    (r'.workers[j]?).elim (Function.update ls i l j).Settled
      fun w => w.Keeps c (Function.update ls i l j) := by
  have hj := h.workers j
  rw [hr, Run.getElem?_setPhase]
  by_cases hij : i = j
  · subst hij
    rw [hw]
    simpa using hk
  · rw [Function.update_of_ne (Ne.symm hij)]
    simpa [hij] using hj

theorem Accords.passes {i : Nat} {w : Worker} {phase : Phase} {r' : Run (Memory × ω)}
    (h : Accords c r ls) (hw : r.workers[i]? = some w) (hp : w.phase.Passes phase)
    (hr : r'.workers = (r.setPhase i phase).workers) (hs : r'.state = r.state) :
    Accords c r' ls where
  fits := hs ▸ h.fits
  keyed := hs ▸ h.keyed
  workers j := by
    have hi := h.workers i
    rw [hw] at hi
    have hj := h.workers_update hw hr (Worker.Keeps.passes hi hp) j
    rwa [Function.update_eq_self] at hj
  archived := hs ▸ h.archived
  erased := h.erased
  saved := hs ▸ h.saved

theorem Kept.mono {i : Nat} {l : Ledger} {m m' : Memory} {id : String} (h : Kept c ls m id)
    (hm : m'.get? c.live id = m.get? c.live id) (hl : (ls i).listed ⊆ l.listed)
    (he : (ls i).erased ⊆ l.erased) : Kept c (Function.update ls i l) m' id := by
  rcases h with ⟨j, e, hj, hid, hg⟩ | ⟨j, hj⟩
  · refine .inl ⟨j, e, ?_, hid, hm.trans hg⟩
    by_cases hij : j = i
    · subst hij
      rw [Function.update_self]
      exact hl hj
    · rwa [Function.update_of_ne hij]
  · refine .inr ⟨j, ?_⟩
    by_cases hij : j = i
    · subst hij
      rw [Function.update_self]
      exact he hj
    · rwa [Function.update_of_ne hij]

section Request

variable {i : Nat} {group : String} {r' : Run (Memory × ω)}

/-- A worker learns something and nothing is written. -/
theorem Accords.learns {l : Ledger} (h : Accords c r ls) (hl : (ls i).Learns l)
    (hm : r.state.1.Same r'.state.1)
    (hw : ∀ j, (r'.workers[j]?).elim (Function.update ls i l j).Settled
      fun w => w.Keeps c (Function.update ls i l j)) :
    Accords c r' (Function.update ls i l) where
  fits := hm.schema_eq ▸ h.fits
  keyed := h.keyed.of_same hm
  workers := hw
  archived := by
    have hold : ∀ j, ∀ id ∈ (ls j).archived, (r'.state.1.get? c.archive id).isSome := by
      intro j id hid
      rw [hm.get?_eq]
      exact h.archived j id hid
    refine forall_update
      (fun l => ∀ id ∈ l.archived, (r'.state.1.get? c.archive id).isSome) ?_ hold
    rw [hl.archived_eq]
    exact hold i
  erased := by
    refine forall_update (fun l => ∀ id ∈ l.erased,
      id ∈ l.read.map (·.id) ∧ id ∉ l.listed.map (·.id)) ?_ h.erased
    intro id hid
    rw [hl.erased_eq] at hid
    obtain ⟨hr, hn⟩ := h.erased i id hid
    -- Nothing is listed after a deletion, so what was deleted stays unlisted.
    rw [hl.listed_eq (List.ne_nil_of_mem hid)]
    exact ⟨List.map_subset _ hl.read_subset hr, hn⟩
  saved := by
    have hold : ∀ j, ∀ id ∈ (ls j).saved, Kept c (Function.update ls i l) r'.state.1 id :=
      fun j id hid => (h.saved j id hid).mono (hm.get?_eq _ _) hl.listed_subset
        (hl.erased_eq ▸ List.Subset.refl _)
    refine forall_update
      (fun l' => ∀ id ∈ l'.saved, Kept c (Function.update ls i l) r'.state.1 id) ?_ hold
    rw [hl.saved_eq]
    exact hold i

section Writes

variable {table : String} {ws done : List Write} {reply : Except StoreError (List Write)}
  {l : Ledger} (h : Accords c r ls) (hl : l = (ls i).recordWrites c table ws reply)
  (hp : ∀ w ∈ ws, (ls i).Permits c table w) (hd : done ⊆ ws)
  (hm : r.state.1.Wrote table done r'.state.1)
  (hr : ∀ later, reply = .ok later → ws = done ++ later)

include h hl hp

/-- What is deleted has been read and not been listed. -/
theorem Accords.erased_writes : ∀ j, ∀ id ∈ (Function.update ls i l j).erased,
    id ∈ (Function.update ls i l j).read.map (·.id) ∧
      id ∉ (Function.update ls i l j).listed.map (·.id) := by
  refine forall_update (fun l => ∀ id ∈ l.erased,
    id ∈ l.read.map (·.id) ∧ id ∉ l.listed.map (·.id)) ?_ h.erased
  intro id hid
  rcases Ledger.mem_erased_recordWrites.mp (hl ▸ hid) with hid | ⟨-, w, hw, hk⟩
  · rw [hl]
    exact h.erased i id hid
  · cases hp w hw with
    | save | keep => cases hk
    | erase _ hread hlisted =>
      obtain rfl := Option.some.inj ((Item.text?_key _ _).symm.trans hk)
      rw [hl]
      exact ⟨hread, hlisted⟩

include hd hm

/-- What the writes put live the worker has listed, and what they delete its ledger tells. -/
theorem Accords.live_writes (id : String) :
    (r'.state.1.get? c.live id = r.state.1.get? c.live id ∧
      (table = c.live → ∀ w ∈ done, w.key? Catalogue.idName ≠ some id)) ∨
    Kept c (Function.update ls i l) r'.state.1 id := by
  rcases live_cases h.fits hm (fun w hw => hp w (hd hw)) id with
    hsame | ⟨e, he, hid, hg⟩ | ⟨ht, hdel, -⟩
  · exact .inl hsame
  · refine .inr (.inl ⟨i, e, ?_, hid, hg⟩)
    rw [Function.update_self, hl]
    exact he
  · refine .inr (.inr ⟨i, ?_⟩)
    rw [Function.update_self, hl]
    exact Ledger.mem_erased_recordWrites.mpr (.inr ⟨ht, _, hd hdel, Item.text?_key _ _⟩)

include hr

/-- What is acknowledged as archived stays in the archive. -/
theorem Accords.archived_writes : ∀ j, ∀ id ∈ (Function.update ls i l j).archived,
    (r'.state.1.get? c.archive id).isSome := by
  have hcases := archive_cases h.fits hm fun w hw => hp w (hd hw)
  have hold : ∀ j, ∀ id ∈ (ls j).archived, (r'.state.1.get? c.archive id).isSome := by
    intro j id hid
    rcases hcases id with ⟨hg, -⟩ | hs
    · rw [hg]
      exact h.archived j id hid
    · exact hs
  refine forall_update
    (fun l => ∀ id ∈ l.archived, (r'.state.1.get? c.archive id).isSome) ?_ hold
  intro id hid
  rcases Ledger.mem_archived_recordWrites.mp (hl ▸ hid) with hid | ⟨ht, w, hf, hk⟩
  · exact hold i id hid
  · have hkey := Write.key?_of_putKey? hk
    rcases hcases id with ⟨-, hn⟩ | hs
    · exact absurd hkey (hn ht w (Ledger.mem_of_mem_followed hr hf))
    · exact hs

/-- What is acknowledged as saved stays live as some worker has listed it, or is deleted. -/
theorem Accords.saved_writes : ∀ j, ∀ id ∈ (Function.update ls i l j).saved,
    Kept c (Function.update ls i l) r'.state.1 id := by
  have hcases := h.live_writes hl hp hd hm
  have hold : ∀ j, ∀ id ∈ (ls j).saved, Kept c (Function.update ls i l) r'.state.1 id := by
    intro j id hid
    rcases hcases id with ⟨hg, -⟩ | hk
    · refine (h.saved j id hid).mono hg ?_ ?_
      · rw [hl]
        exact List.Subset.refl _
      · rw [hl]
        exact fun id hid => Ledger.mem_erased_recordWrites.mpr (.inl hid)
    · exact hk
  refine forall_update
    (fun l' => ∀ id ∈ l'.saved, Kept c (Function.update ls i l) r'.state.1 id) ?_ hold
  intro id hid
  rcases Ledger.mem_saved_recordWrites.mp (hl ▸ hid) with hid | ⟨ht, w, hf, hk⟩
  · exact hold i id hid
  · have hkey := Write.key?_of_putKey? hk
    rcases hcases id with ⟨-, hn⟩ | hk
    · exact absurd hkey (hn ht w (Ledger.mem_of_mem_followed hr hf))
    · exact hk

/-- A worker writes what its ledger permits. -/
theorem Accords.writes
    (hw : ∀ j, (r'.workers[j]?).elim (Function.update ls i l j).Settled
      fun w => w.Keeps c (Function.update ls i l j)) :
    Accords c r' (Function.update ls i l) where
  fits := hm.schema_eq ▸ h.fits
  keyed := h.keyed.of_wrote hm
  workers := hw
  archived := h.archived_writes hl hp hd hm hr
  erased := h.erased_writes hl hp
  saved := h.saved_writes hl hp hd hm hr

end Writes

end Request

/-- A step of any worker keeps the store in accord with all ledgers. -/
theorem Accords.step (h : Accords c r ls) (i : Nat) :
    Accords c (r.step (answer source) i) (r.record c (answer source) i ls) := by
  rcases r.step_cases c (answer source) i ls with
    ⟨hr, hl⟩ | ⟨w, phase, hw, hp, hr, hs, hl⟩ | ⟨group, q, next, hw, hr, hs, hl⟩
  · rwa [hr, hl]
  · rw [hl]
    exact h.passes hw hp hr hs
  · rw [hl]
    have hi := h.workers i
    rw [hw] at hi
    obtain ⟨ha, hnext⟩ := hi
    have hlawful : Ledger.Lawful c q (answer source q r.state).1 :=
      lawful_answer h.fits h.keyed q r.state.2
    have hworkers := h.workers_update hw hr (hnext _ _ ⟨hlawful, rfl⟩)
    by_cases hq : ∃ table ws, q = .store (.batchWrite table ws)
    · obtain ⟨table, ws, rfl⟩ := hq
      obtain ⟨done, hd, hm, hlater⟩ := r.state.1.batchWrite_wrote table ws
      exact h.writes rfl ha hd.subset (hs ▸ hm) hlater hworkers
    · have hq : ∀ table ws, q ≠ .store (.batchWrite table ws) := fun table ws e =>
        hq ⟨table, ws, e⟩
      have hm : r.state.1.Same (r.step (answer source) i).state.1 :=
        hs ▸ answer_same hq r.state.2
      exact h.learns (Ledger.learns_record hq ha _) hm hworkers

/-- The store accords with the ledgers after any schedule. -/
theorem Accords.steps (h : Accords c r ls) (schedule : List Nat) :
    Accords c (r.steps (answer source) schedule)
      (r.ledgers c (answer source) schedule ls) := by
  induction schedule generalizing r ls with
  | nil => exact h
  | cons i rest ih => exact ih (h.step i)

/-- Every worker waits to import its group, whatever time its clock will show. -/
def Ready (c : Catalogue) (pages : Nat) (workers : List Worker) : Prop :=
  ∀ w ∈ workers, ∃ now limit, w.phase = .waiting (importGroup c pages now limit w.group).run

theorem ready_start (c : Catalogue) (pages : Nat) (now : String → Instant) (limit : Instant)
    (groups : List String) (s : Memory × ω) :
    Ready c pages
      (Run.start (fun g => (importGroup c pages (now g) limit g).run) groups s).workers := by
  intro w hw
  obtain ⟨g, -, rfl⟩ := List.mem_map.mp hw
  exact ⟨now g, limit, rfl⟩

theorem accords_ready {pages : Nat} (hr : Ready c pages r.workers)
    (hc : c.Fits r.state.1.schema) (hk : r.state.1.Keyed) : Accords c r fun _ => {} where
  fits := hc
  keyed := hk
  workers i := by
    cases hw : r.workers[i]? with
    | none => simp [Ledger.Settled]
    | some w =>
      obtain ⟨now, limit, hp⟩ := hr w (List.mem_of_getElem? hw)
      change Worker.Keeps c w {}
      unfold Worker.Keeps
      rw [hp]
      exact importGroup_conduct c pages now limit w.group
  archived := by simp
  erased := by simp
  saved := by simp

end Invariant

end Import

end GroupCalendar
