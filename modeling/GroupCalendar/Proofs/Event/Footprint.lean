import GroupCalendar.Proofs.Event.Effects
import GroupCalendar.Proofs.Listing.Requests
import GroupCalendar.Proofs.Store.Quiet

/-! # Footprints

The footprint of an import are the ids with which it is concerned: those that are upcoming for its
group, and those that it puts live. All that it asks of a store without faults is answered from
there and changes nothing elsewhere. Stores that hold the same in the footprint and have nothing
upcoming for the group outside of it give the same answers.
-/

namespace GroupCalendar

open Store Service

namespace Catalogue

variable {c : Catalogue} {m m' m₁ m₁' : Memory} {now now' : Instant} {group group' : String}
  {ids ids' : List String} {table : String} {ws : List Write}

/-- One of the two tables of the catalogue. -/
def Has (c : Catalogue) (table : String) : Prop := table = c.live ∨ table = c.archive

theorem Fits.keyName_eq {s : Schema} (hc : c.Fits s) (ht : c.Has table) :
    s.keyName table = idName := by
  rcases ht with rfl | rfl
  · exact hc.live_key
  · exact hc.archive_key

section Requests

/-- A write to the catalogue under one of some ids. What it puts live is of the group. -/
inductive Concerns (c : Catalogue) (group : String) (ids : List String) : String → Write → Prop
  | save {item id} : id ∈ ids → item.text? idName = some id → item.text? groupName = some group →
      Concerns c group ids c.live (.put item)
  | keep {item id} : id ∈ ids → item.text? idName = some id →
      Concerns c group ids c.archive (.put item)
  | erase {id} : id ∈ ids → Concerns c group ids c.live (.delete (Item.key idName id))

/-- The requests of an import of the group with some ids as its footprint. -/
inductive Within (c : Catalogue) (now : Instant) (group : String) (ids : List String) :
    Service.Request → Prop
  | query {start} : Within c now group ids
      (.store (.query (c.rangeQuery group (.after (formatStoredDate now))) start))
  | get {keys : List Item} : keys.length ≤ maxGets →
      (∀ key ∈ keys, ∃ id ∈ ids, key.text? idName = some id) →
      Within c now group ids (.store (.batchGet c.live keys))
  | write {table : String} {ws : List Write} : c.Has table → ws.length ≤ maxWrites →
      (∀ w ∈ ws, c.Concerns group ids table w) →
      Within c now group ids (.store (.batchWrite table ws))
  | page {cursor} : Within c now group ids
      (.graphQl Listing.pageQuery (Listing.pageVariables group cursor))
  | wait {millis} : Within c now group ids (.wait millis)

theorem Concerns.key?_eq {w : Write} (h : c.Concerns group ids table w) :
    ∃ id ∈ ids, w.key? idName = some id := by
  cases h with
  | save hid ht | keep hid ht => exact ⟨_, hid, ht⟩
  | erase hid => exact ⟨_, hid, Item.text?_key _ _⟩

theorem isSome_key? {s : Schema} (hc : c.Fits s) (ht : c.Has table)
    (hws : ∀ w ∈ ws, c.Concerns group ids table w) :
    ∀ w ∈ ws, (w.key? (s.keyName table)).isSome := by
  intro w hw
  obtain ⟨id, -, hkey⟩ := (hws w hw).key?_eq
  rw [hc.keyName_eq ht, hkey]
  rfl

theorem isSome_text? {s : Schema} (hc : c.Fits s) {keys : List Item}
    (hk : ∀ key ∈ keys, ∃ id ∈ ids, key.text? idName = some id) :
    ∀ key ∈ keys, (key.text? (s.keyName c.live)).isSome := by
  intro key hkey
  obtain ⟨id, -, ht⟩ := hk key hkey
  rw [hc.live_key, ht]
  rfl

/-- What a request within a footprint does to any store without faults. -/
theorem Within.wrote {r : Store.Request} (h : c.Within now group ids (.store r)) :
    ∃ table ws, c.Has table ∧ (∀ w ∈ ws, c.Concerns group ids table w) ∧
      ∀ m : Memory, c.Fits m.schema → m.Quiet → m.Wrote table ws (m.answer r).2 := by
  cases h with
  | query =>
    exact ⟨c.live, [], .inl rfl, by simp, fun m _ _ => (m.query_same _ _).wrote c.live⟩
  | @get keys hl hk =>
    exact ⟨c.live, [], .inl rfl, by simp, fun m _ _ => (m.batchGet_found _ _).1.wrote c.live⟩
  | @write table ws ht hl hws =>
    exact ⟨table, ws, ht, hws, fun m hc hq => (hq.batchWrite hl (isSome_key? hc ht hws)).2⟩

/-- Outside of the footprint everything stays as it is. -/
theorem get?_of_notMem (hc : c.Fits m.schema) (hw : m.Wrote table ws m') (ht : c.Has table)
    (hws : ∀ w ∈ ws, c.Concerns group ids table w) {other id : String}
    (hid : c.Has other → id ∉ ids) : m'.get? other id = m.get? other id := by
  by_cases ho : other = table
  · subst ho
    have h := hw.get?_cases other id
    rw [hc.keyName_eq ht] at h
    have hno : ∀ w ∈ ws, w.key? idName ≠ some id := by
      intro w hmem he
      obtain ⟨id', hid', hkey⟩ := (hws w hmem).key?_eq
      obtain rfl : id' = id := Option.some.inj (hkey.symm.trans he)
      exact hid ht hid'
    rcases h with ⟨hg, -⟩ | ⟨-, item, hi, hk, -⟩ | ⟨-, item, hi, hk, -⟩
    · exact hg
    · exact absurd hk (hno _ hi)
    · exact absurd hk (hno _ hi)
  · rw [Memory.get?, hw.other_eq other ho]
    rfl

end Requests

section Confinement

/-- A store without faults in which all that is upcoming for the group is among some ids. -/
structure Confines (c : Catalogue) (now : Instant) (group : String) (ids : List String)
    (m : Memory) : Prop where
  fits : c.Fits m.schema
  index : c.IndexIn m.schema
  keyed : m.Keyed
  quiet : m.Quiet
  upcoming : c.upcomingIds m now group ⊆ ids

theorem Confines.live_keyed (h : c.Confines now group ids m) : (m.table c.live).Keyed idName :=
  h.fits.live_keyed h.keyed

/-- Nothing becomes upcoming outside of a footprint by what its own import or another group's
writes. -/
theorem Confines.wrote (h : c.Confines now group ids m) (hw : m.Wrote table ws m')
    (hq : m'.Quiet) (hws : ∀ w ∈ ws, c.Concerns group' ids' table w)
    (hother : group' = group → ids' ⊆ ids) : c.Confines now group ids m' where
  fits := hw.schema_eq ▸ h.fits
  index := hw.schema_eq ▸ h.index
  keyed := h.keyed.of_wrote hw
  quiet := hq
  upcoming := by
    intro id hid
    have hc' : c.Fits m'.schema := hw.schema_eq ▸ h.fits
    have hk' : (m'.table c.live).Keyed idName := hc'.live_keyed (h.keyed.of_wrote hw)
    obtain ⟨item, hl, hg, hd⟩ := (mem_upcomingIds_iff hk').mp hid
    have hcases := hw.get?_cases c.live id
    rw [h.fits.live_key] at hcases
    rcases hcases with ⟨hsame, -⟩ | ⟨ht, put, hi, hk, hput⟩ | ⟨-, -, -, -, hnone⟩
    · exact h.upcoming ((mem_upcomingIds_iff h.live_keyed).mpr ⟨item, hsame ▸ hl, hg, hd⟩)
    · obtain rfl : put = item := Option.some.inj (hput.symm.trans hl)
      cases hws _ hi with
      | save hid' htext hgroup =>
        obtain rfl := Option.some.inj (htext.symm.trans hk)
        exact hother (Option.some.inj (hgroup.symm.trans hg)) hid'
      | keep => exact absurd ht.symm h.fits.distinct
    · exact absurd (hnone.symm.trans hl) (by simp)

/-- Two stores hold the same under some ids in both tables. -/
structure AgreeOn (c : Catalogue) (ids : List String) (m m' : Memory) : Prop where
  schema_eq : m'.schema = m.schema
  get?_eq : ∀ table, c.Has table → ∀ id ∈ ids, m'.get? table id = m.get? table id

theorem AgreeOn.refl (c : Catalogue) (ids : List String) (m : Memory) : c.AgreeOn ids m m :=
  ⟨rfl, fun _ _ _ _ => rfl⟩

theorem AgreeOn.wrote (h : c.AgreeOn ids m m') (hw : m.Wrote table ws m₁)
    (hw' : m'.Wrote table ws m₁') : c.AgreeOn ids m₁ m₁' where
  schema_eq := by rw [hw'.schema_eq, hw.schema_eq, h.schema_eq]
  get?_eq other ho id hid := by
    have hbefore : (m'.table other).get? id = (m.table other).get? id := h.get?_eq other ho id hid
    change (m₁'.table other).get? id = (m₁.table other).get? id
    by_cases ht : other = table
    · subst ht
      rw [hw.table_eq, hw'.table_eq, h.schema_eq]
      exact Table.get?_apply_congr hbefore _ _
    · rw [hw.other_eq other ht, hw'.other_eq other ht, hbefore]

/-- Writes within one footprint are not seen from another one. -/
theorem AgreeOn.frame (h : c.AgreeOn ids' m m') (hc : c.Fits m'.schema)
    (hw : m'.Wrote table ws m₁') (ht : c.Has table) (hws : ∀ w ∈ ws, c.Concerns group ids table w)
    (hapart : ∀ id ∈ ids', id ∉ ids) : c.AgreeOn ids' m m₁' where
  schema_eq := hw.schema_eq.trans h.schema_eq
  get?_eq other ho id hid :=
    (get?_of_notMem hc hw ht hws fun _ => hapart id hid).trans (h.get?_eq other ho id hid)

/-- What a table holds under an id decides whether the id is upcoming. -/
theorem filter_isMatch_of_notMem (h : c.Confines now group ids m) {id : String} (hid : id ∉ ids) :
    (m.get? c.live id).filter
      (m.schema.isMatch (c.rangeQuery group (.after (formatStoredDate now)))) = none := by
  rw [Option.filter_eq_none_iff]
  intro item hl hmatch
  rw [isMatch_rangeQuery h.index, Bool.and_eq_true, decide_eq_true_eq] at hmatch
  exact hid (h.upcoming ((mem_upcomingIds_iff h.live_keyed).mpr ⟨item, hl, hmatch⟩))

theorem AgreeOn.matching_eq (h : c.Confines now group ids m) (h' : c.Confines now group ids m')
    (ha : c.AgreeOn ids m m') :
    let q := c.rangeQuery group (.after (formatStoredDate now))
    m'.schema.matching q (m'.table q.table) = m.schema.matching q (m.table q.table) := by
  intro q
  rw [ha.schema_eq]
  refine Schema.matching_congr fun id => ?_
  by_cases hid : id ∈ ids
  · exact congrArg _ (ha.get?_eq c.live (.inl rfl) id hid)
  · have hnone := filter_isMatch_of_notMem h' hid
    rw [ha.schema_eq] at hnone
    exact hnone.trans (filter_isMatch_of_notMem h hid).symm

/-- A request within the footprint is answered from there. -/
theorem Within.answer_eq {r : Store.Request} (hr : c.Within now group ids (.store r))
    (h : c.Confines now group ids m) (h' : c.Confines now group ids m')
    (ha : c.AgreeOn ids m m') : (m'.answer r).1 = (m.answer r).1 := by
  cases hr with
  | query =>
    change (m'.query _ _).1 = (m.query _ _).1
    rw [h.quiet.query, h'.quiet.query, AgreeOn.matching_eq h h' ha, ha.schema_eq]
  | @get keys hl hk =>
    have hfound : keys.filterMap (m'.found c.live) = keys.filterMap (m.found c.live) := by
      refine List.filterMap_congr fun key hkey => ?_
      obtain ⟨id, hid, ht⟩ := hk key hkey
      rw [Memory.found, Memory.found, h.fits.live_key, h'.fits.live_key, ht]
      exact ha.get?_eq c.live (.inl rfl) id hid
    change (m'.batchGet _ _).1 = (m.batchGet _ _).1
    rw [h.quiet.batchGet hl (isSome_text? h.fits hk),
      h'.quiet.batchGet hl (isSome_text? h'.fits hk), hfound]
  | @write table ws ht hl hws =>
    change (m'.batchWrite _ _).1 = (m.batchWrite _ _).1
    rw [(h.quiet.batchWrite hl (isSome_key? h.fits ht hws)).1,
      (h'.quiet.batchWrite hl (isSome_key? h'.fits ht hws)).1]

end Confinement

end Catalogue

end GroupCalendar
