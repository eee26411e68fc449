import GroupCalendar.Import.Group
import GroupCalendar.Proofs.Event.Effects

/-! # Ledgers of workers

A ledger keeps what a worker has been told and what it has asked for: events read and listed, ids
of which a put was acknowledged, and ids whose deletion was requested. It justifies putting listed
events into the live table and deleting what is archived, was read and is not listed.
-/

namespace GroupCalendar

open Store Service

namespace Store.Write

/-- The text under which a write puts an item. -/
def putKey? (name : String) : Write → Option String
  | .put item => item.text? name
  | .delete _ => none

/-- The text under which a write deletes. -/
def deleteKey? (name : String) : Write → Option String
  | .put _ => none
  | .delete key => key.text? name

theorem key?_of_putKey? {name key : String} {w : Write} (h : w.putKey? name = some key) :
    w.key? name = some key := by
  cases w with
  | put item => exact h
  | delete item => cases h

end Store.Write

structure Ledger where
  read : List Event := []
  listed : List Event := []
  saved : List String := []
  archived : List String := []
  erased : List String := []

namespace Ledger

variable {c : Catalogue} {group table : String} {l l' l'' : Ledger} {ws : List Write}

section Record

/-- The writes that a reply says have been followed. -/
def followed (ws : List Write) : Except StoreError (List Write) → List Write
  | .ok later => ws.take (ws.length - later.length)
  | .error _ => []

/-- Puts count when they are acknowledged, and deletions as soon as they are requested. -/
def recordWrites (c : Catalogue) (l : Ledger) (table : String) (ws : List Write)
    (reply : Except StoreError (List Write)) : Ledger :=
  let puts := (followed ws reply).filterMap (Write.putKey? Catalogue.idName)
  let deletes := ws.filterMap (Write.deleteKey? Catalogue.idName)
  { l with
    saved := if table = c.live then l.saved ++ puts else l.saved
    archived := if table = c.archive then l.archived ++ puts else l.archived
    erased := if table = c.live then l.erased ++ deletes else l.erased }

/-- The events of an answer. -/
def listedIn (group : String) (x : Json) : List Event :=
  match Listing.Page.ofAnswer group x with
  | .ok p => p.events
  | .error _ => []

/-- The ledger after a request and its reply. -/
def record (c : Catalogue) (group : String) (l : Ledger) :
    (r : Service.Request) → Service.Reply r → Ledger
  | .store (.query ..), .ok page => { l with read := l.read ++ Catalogue.readable page.items }
  | .store (.batchWrite table ws), reply => l.recordWrites c table ws reply
  | .graphQl .., some (.ok x) => { l with listed := l.listed ++ listedIn group x }
  | _, _ => l

end Record

/-- All that is listed is saved. -/
def Settled (l : Ledger) : Prop :=
  ∀ e ∈ l.listed, e.id ∈ l.saved

section Contract

/-- The writes that a ledger justifies. -/
inductive Permits (c : Catalogue) (l : Ledger) : String → Write → Prop
  | save {e} : e ∈ l.listed → Permits c l c.live (.put e.toItem)
  | keep {item} : (item.text? Catalogue.idName).isSome → Permits c l c.archive (.put item)
  | erase {id} : id ∈ l.archived → id ∈ l.read.map (·.id) → id ∉ l.listed.map (·.id) →
      Permits c l c.live (.delete (Item.key Catalogue.idName id))

/-- What a ledger allows; nothing is listed any more after a deletion. -/
def allows (c : Catalogue) : Service.Request → Ledger → Prop
  | .store (.batchWrite table ws), l => ∀ w ∈ ws, l.Permits c table w
  | .graphQl .., l => l.erased = []
  | _, _ => True

/-- A reply is about the end or the keys of the batch that was sent. -/
def Lawful (c : Catalogue) : (r : Service.Request) → Service.Reply r → Prop
  | .store (.batchGet table keys), .ok b => table = c.live →
      b.unprocessed ⊆ keys ∧ ∀ item ∈ b.items, ∃ key ∈ keys,
        item.text? Catalogue.idName = key.text? Catalogue.idName
  | .store (.batchWrite _ ws), .ok later => ∃ done, ws = done ++ later
  | _, _ => True

/-- The contract of a worker with surroundings of which only lawful replies are known. -/
def contract (c : Catalogue) (group : String) : Contract signature Ledger where
  allows r l := allows c r l
  replies r l reply l' := Lawful c r reply ∧ l' = l.record c group r reply

end Contract

section Growth

/-- Nothing more is read or listed, and nothing acknowledged is lost. -/
structure Grows (l l' : Ledger) : Prop where
  read_eq : l'.read = l.read
  listed_eq : l'.listed = l.listed
  saved_subset : l.saved ⊆ l'.saved
  archived_subset : l.archived ⊆ l'.archived

theorem Grows.refl (l : Ledger) : l.Grows l := ⟨rfl, rfl, List.Subset.refl _, List.Subset.refl _⟩

theorem Grows.trans (h : l.Grows l') (h' : l'.Grows l'') : l.Grows l'' where
  read_eq := h'.read_eq.trans h.read_eq
  listed_eq := h'.listed_eq.trans h.listed_eq
  saved_subset := List.Subset.trans h.saved_subset h'.saved_subset
  archived_subset := List.Subset.trans h.archived_subset h'.archived_subset

theorem Permits.grows {w : Write} (h : l.Permits c table w) (hg : l.Grows l') :
    l'.Permits c table w := by
  cases h with
  | save he => exact .save (hg.listed_eq ▸ he)
  | keep hi => exact .keep hi
  | erase ha hr hl => exact .erase (hg.archived_subset ha) (hg.read_eq ▸ hr) (hg.listed_eq ▸ hl)

/-- A put has been acknowledged. -/
def Acknowledges (c : Catalogue) (l : Ledger) (table : String) (w : Write) : Prop :=
  ∀ id, w.putKey? Catalogue.idName = some id →
    (table = c.live → id ∈ l.saved) ∧ (table = c.archive → id ∈ l.archived)

theorem Acknowledges.grows {w : Write} (h : l.Acknowledges c table w) (hg : l.Grows l') :
    l'.Acknowledges c table w := by
  intro id hid
  obtain ⟨hs, ha⟩ := h id hid
  exact ⟨fun ht => hg.saved_subset (hs ht), fun ht => hg.archived_subset (ha ht)⟩

theorem followed_append (done later : List Write) :
    followed (done ++ later) (.ok later) = done := by
  have hn : (done ++ later).length - later.length = done.length := by
    rw [List.length_append, Nat.add_sub_cancel]
  change (done ++ later).take ((done ++ later).length - later.length) = done
  rw [hn, List.take_left]

theorem mem_of_mem_followed {done : List Write} {reply : Except StoreError (List Write)}
    (h : ∀ later, reply = .ok later → ws = done ++ later) {w : Write} (hw : w ∈ followed ws reply) :
    w ∈ done := by
  cases reply with
  | error e => cases hw
  | ok later => rwa [h later rfl, followed_append] at hw

theorem mem_saved_recordWrites {reply : Except StoreError (List Write)} {id : String} :
    id ∈ (l.recordWrites c table ws reply).saved ↔ id ∈ l.saved ∨
      table = c.live ∧ ∃ w ∈ followed ws reply, w.putKey? Catalogue.idName = some id := by
  unfold recordWrites
  by_cases ht : table = c.live <;> simp [ht]

theorem mem_archived_recordWrites {reply : Except StoreError (List Write)} {id : String} :
    id ∈ (l.recordWrites c table ws reply).archived ↔ id ∈ l.archived ∨
      table = c.archive ∧ ∃ w ∈ followed ws reply, w.putKey? Catalogue.idName = some id := by
  unfold recordWrites
  by_cases ht : table = c.archive <;> simp [ht]

theorem mem_erased_recordWrites {reply : Except StoreError (List Write)} {id : String} :
    id ∈ (l.recordWrites c table ws reply).erased ↔ id ∈ l.erased ∨
      table = c.live ∧ ∃ w ∈ ws, w.deleteKey? Catalogue.idName = some id := by
  unfold recordWrites
  by_cases ht : table = c.live <;> simp [ht]

theorem grows_recordWrites (c : Catalogue) (l : Ledger) (table : String) (ws : List Write)
    (reply : Except StoreError (List Write)) : l.Grows (l.recordWrites c table ws reply) where
  read_eq := rfl
  listed_eq := rfl
  saved_subset _ hs := mem_saved_recordWrites.mpr (.inl hs)
  archived_subset _ ha := mem_archived_recordWrites.mpr (.inl ha)

theorem acknowledges_recordWrites {done later : List Write} {w : Write} (hw : w ∈ done) :
    (l.recordWrites c table (done ++ later) (.ok later)).Acknowledges c table w := by
  intro id hid
  have hm : w ∈ followed (done ++ later) (.ok later) := by rwa [followed_append]
  constructor
  · intro ht
    exact mem_saved_recordWrites.mpr (.inr ⟨ht, w, hm, hid⟩)
  · intro ht
    exact mem_archived_recordWrites.mpr (.inr ⟨ht, w, hm, hid⟩)

/-- More has been read, or listed while nothing was deleted; nothing has been written. -/
structure Learns (l l' : Ledger) : Prop where
  read_subset : l.read ⊆ l'.read
  listed_subset : l.listed ⊆ l'.listed
  listed_eq : l.erased ≠ [] → l'.listed = l.listed
  saved_eq : l'.saved = l.saved
  archived_eq : l'.archived = l.archived
  erased_eq : l'.erased = l.erased

theorem Learns.refl (l : Ledger) : l.Learns l :=
  ⟨List.Subset.refl _, List.Subset.refl _, fun _ => rfl, rfl, rfl, rfl⟩

theorem learns_record {q : Service.Request} (hq : ∀ table ws, q ≠ .store (.batchWrite table ws))
    (ha : allows c q l) (reply : Service.Reply q) : l.Learns (l.record c group q reply) := by
  match q, reply with
  | .store (.query ..), .ok page =>
    exact { Learns.refl l with read_subset := List.subset_append_left _ _ }
  | .graphQl .., some (.ok x) =>
    exact { Learns.refl l with
      listed_subset := List.subset_append_left _ _
      listed_eq := fun he => absurd ha he }
  | .store (.batchWrite table ws), _ => exact absurd rfl (hq table ws)
  | .store (.query ..), .error _ | .store (.getItem ..), _ | .store (.batchGet ..), _
  | .graphQl .., some (.error _) | .graphQl .., none | .wait _, _ => exact .refl l

end Growth

end Ledger

end GroupCalendar
