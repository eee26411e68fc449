import GroupCalendar.Event.Catalogue
import GroupCalendar.Proofs.Record

/-! # Identity of stored events

The id of an event is the text under the id of its item, in both directions. It is read off the
decoder: of the declared fields one alone sets the id, and a sorted item names it once.
-/

namespace GroupCalendar

namespace Event

theorem any_id_iff {events : List Event} {id : String} :
    (events.any fun e => e.id = id) = true ↔ id ∈ events.map (·.id) := by
  simp only [List.any_eq_true, decide_eq_true_eq, List.mem_map]

theorem text?_toItem (e : Event) : e.toItem.text? Catalogue.idName = some e.id := by
  unfold toItem encodeFields Item.text? Catalogue.idName
  cases e.dateTime <;> cases e.host <;> cases e.venue <;>
    simp [Fields.get?, Attribute.encoding, Attribute.text?]

theorem groupText?_toItem (e : Event) :
    e.toItem.text? Catalogue.groupName = some e.groupId := by
  unfold toItem encodeFields Item.text? Catalogue.groupName
  cases e.dateTime <;> cases e.host <;> cases e.venue <;>
    simp [Fields.get?, Attribute.encoding, Attribute.text?]

theorem set_texts {f : Attribute.Field Event} (hf : f ∈ fields Attribute.decoding) {v : Attribute}
    {e e' : Event} (h : f.set v e = .ok e') :
    (if f.name = "id" then Attribute.decodeText v = .ok e'.id else e'.id = e.id) ∧
      if f.name = "groupId" then Attribute.decodeText v = .ok e'.groupId
      else e'.groupId = e.groupId := by
  simp only [fields, List.mem_cons, List.not_mem_nil, or_false] at hf
  rcases hf with rfl | rfl | rfl | rfl | rfl | rfl | rfl | rfl | rfl | rfl | rfl
  all_goals
    obtain ⟨x, hx, h⟩ := Record.bind_eq_ok h
    cases h
  · exact ⟨hx, rfl⟩
  · exact ⟨rfl, hx⟩
  all_goals exact ⟨rfl, rfl⟩

/-- A part of an event that one required field sets is the text under the name of the field. -/
theorem text?_of_required {part : Event → String} {name : String}
    (hset : ∀ f ∈ fields Attribute.decoding, ∀ v e e', f.set v e = .ok e' →
      if f.name = name then Attribute.decodeText v = .ok (part e') else part e' = part e)
    {f : Attribute.Field Event} (hf : f ∈ fields Attribute.decoding) (hname : f.name = name)
    (hrequired : f.required = true) {item : Item} {e : Event} (hs : Fields.Sorted item)
    (h : ofItem item = .ok e) : item.text? name = some (part e) := by
  obtain ⟨hnamed, hreq⟩ := Record.readNamed_eq_ok h
  have hpart := Record.setNamed_eq_ok part Attribute.decodeText name
    (fun f hf hn v r r' hv => by simpa [hn] using hset f hf v r r' hv)
    (fun f hf hn v r r' hv => by simpa [hn] using hset f hf v r r' hv)
    (List.mem_map.mpr ⟨f, hf, hname⟩) hs hnamed
  obtain ⟨v, hv⟩ := Option.isSome_iff_exists.mp (hreq f hf hrequired)
  rw [hname] at hv
  rw [hv] at hpart
  unfold Item.text?
  rw [hv]
  cases v <;> cases hpart
  rfl

/-- The id that is read from an item is its text under the name of ids. -/
theorem text?_of_ofItem {item : Item} {e : Event} (hs : Fields.Sorted item)
    (h : ofItem item = .ok e) : item.text? Catalogue.idName = some e.id :=
  text?_of_required (fun _ hf _ _ _ hv => (set_texts hf hv).1) List.mem_cons_self rfl rfl hs h

/-- The group that is read from an item is its text under the name of groups. -/
theorem groupText?_of_ofItem {item : Item} {e : Event} (hs : Fields.Sorted item)
    (h : ofItem item = .ok e) : item.text? Catalogue.groupName = some e.groupId :=
  text?_of_required (fun _ hf _ _ _ hv => (set_texts hf hv).2)
    (List.mem_cons_of_mem _ List.mem_cons_self) rfl rfl hs h

end Event

namespace Catalogue

theorem forall₂_of_decodeItems {items : List Item} {events : List Event}
    (h : decodeItems items = .ok events) :
    List.Forall₂ (fun item e => Event.ofItem item = .ok e) items events :=
  (Record.forall₂_of_mapM h).imp fun _ _ => Record.ok_of_mapError

theorem exists_decodeItems {items : List Item} (h : ∀ item ∈ items, ∃ e, Event.ofItem item = .ok e) :
    ∃ events, decodeItems items = .ok events := by
  induction items with
  | nil => exact ⟨[], rfl⟩
  | cons item rest ih =>
    obtain ⟨⟨e, he⟩, hrest⟩ := List.forall_mem_cons.mp h
    obtain ⟨events, hevents⟩ := ih hrest
    unfold decodeItems at hevents ⊢
    refine ⟨e :: events, ?_⟩
    rw [List.mapM_cons, hevents, he]
    rfl

theorem exists_ofItem_of_decodeItems {items : List Item} {events : List Event}
    (h : decodeItems items = .ok events) : ∀ item ∈ items, ∃ e, Event.ofItem item = .ok e := by
  have hf := forall₂_of_decodeItems h
  clear h
  induction hf with
  | nil => exact nofun
  | cons he _ ih => exact List.forall_mem_cons.mpr ⟨⟨_, he⟩, ih⟩

/-- The events of those items that can be read. -/
def readable (items : List Item) : List Event :=
  items.filterMap fun item => (Event.ofItem item).toOption

theorem eq_readable {items : List Item} {events : List Event}
    (h : decodeItems items = .ok events) : events = readable items := by
  have hf := forall₂_of_decodeItems h
  clear h
  induction hf with
  | nil => rfl
  | cons he _ ih =>
    rw [readable, List.filterMap_cons, he, ih]
    rfl

theorem ids_of_decodeItems {items : List Item} {events : List Event}
    (hs : ∀ item ∈ items, Fields.Sorted item) (h : decodeItems items = .ok events) :
    events.map (·.id) = items.filterMap (·.text? idName) := by
  have hf := forall₂_of_decodeItems h
  clear h
  induction hf with
  | nil => rfl
  | cons he _ ih =>
    obtain ⟨hi, hr⟩ := List.forall_mem_cons.mp hs
    rw [List.filterMap_cons, Event.text?_of_ofItem hi he, List.map_cons, ih hr]

end Catalogue

end GroupCalendar
