import GroupCalendar.Event.Json
import GroupCalendar.Proofs.Event.Dated
import GroupCalendar.Proofs.Time.RoundTrip

/-! # Reading back a stored event

In every format that reads the texts, lists and records it has written, an event that was written
is read as it was, up to the fraction of the second of its date, which is not written.
-/

namespace GroupCalendar

namespace Record

variable {ν ε ρ : Type} {fields : List (Field ν ε ρ)} {skip : ν → Except ε Unit}
  {missing : String → ε}

/-- Where the values in front can be set, those behind them are set next. -/
theorem setNamed_append {front back : Fields ν} {r r' : ρ}
    (h : setNamed fields skip front r = .ok r') :
    setNamed fields skip (front ++ back) r = setNamed fields skip back r' := by
  induction front generalizing r with
  | nil =>
    cases h
    rfl
  | cons field rest ih =>
    obtain ⟨name, v⟩ := field
    rw [setNamed] at h
    rw [List.cons_append, setNamed]
    split at h
    all_goals
      obtain ⟨x, hx, h⟩ := bind_eq_ok h
      rw [hx]
      exact ih h

/-- A value of a declared field is set. -/
theorem setNamed_cons {name : String} {v : ν} {rest : Fields ν} {f : Field ν ε ρ} {r r' : ρ}
    (hf : fields.find? (·.name = name) = some f) (h : f.set v r = .ok r') :
    setNamed fields skip ((name, v) :: rest) r = setNamed fields skip rest r' := by
  rw [setNamed, hf]
  change (f.set v r >>= _) = _
  rw [h]
  rfl

/-- A record can be read where every value can be set and no required one is missing. -/
theorem readNamed_of_setNamed {values : Fields ν} {r r' : ρ}
    (h : setNamed fields skip values r = .ok r')
    (hr : ∀ f ∈ fields, f.required = true → (values.get? f.name).isSome) :
    readNamed fields skip missing values r = .ok r' := by
  have hn : fields.find? (fun f => f.required && (values.get? f.name).isNone) = none := by
    rw [List.find?_eq_none]
    intro f hf hm
    rw [Bool.and_eq_true, Option.isNone_iff_eq_none] at hm
    have hsome := hr f hf hm.1
    rw [hm.2] at hsome
    cases hsome
  simp only [readNamed, h, bind, Except.bind, hn]

end Record

/-- A format is read as it is written: texts, lists of records, and records by the names of their
values. -/
structure Decoding.Reads {ν ε : Type} (d : Decoding ν ε) (f : Encoding ν) : Prop where
  text : ∀ s, d.text (f.text s) = .ok s
  present_text : ∀ s, d.present? (f.text s) = some (f.text s)
  present_record : ∀ values, d.present? (f.record values) = some (f.record values)
  record : ∀ {ρ : Type} (name : String) (fields : List (Record.Field ν ε ρ)) (r : ρ), ∃ skip missing,
    ∀ values, d.record name fields r (f.record values) =
      Record.readNamed fields skip missing values r
  records : ∀ {ρ : Type} (name : String) (fields : List (Record.Field ν ε ρ)) (r : ρ) vs,
    d.records name fields r (f.list vs) = vs.mapM (d.record name fields r)

variable {ν ε ρ : Type} {d : Decoding ν ε} {f : Encoding ν} {skip : ν → Except ε Unit}

namespace Decoding.Reads

variable (h : d.Reads f)

include h

/-- What is done with a text that was written is done with the text. -/
theorem bind_text {α : Type} (s : String) (g : String → Except ε α) :
    (d.text (f.text s) >>= g) = g s := by
  rw [h.text]
  rfl

/-- Records without a required field can be read where every value can be set. -/
theorem record_eq {name : String} {fields : List (Record.Field ν ε ρ)} {values : Fields ν}
    {r r' : ρ}
    (hset : ∀ skip, Record.setNamed fields skip values r = .ok r')
    (hr : ∀ field ∈ fields, field.required = true → (values.get? field.name).isSome) :
    d.record name fields r (f.record values) = .ok r' := by
  obtain ⟨skip, missing, hrecord⟩ := h.record name fields r
  rw [hrecord]
  exact Record.readNamed_of_setNamed (hset skip) hr

theorem option_record {α : Type} {read : ν → Except ε α} {values : Fields ν} {a : α}
    (ha : read (f.record values) = .ok a) : d.option read (f.record values) = .ok (some a) := by
  rw [Decoding.option, h.present_record]
  change some <$> read (f.record values) = _
  rw [ha]
  rfl

end Decoding.Reads

section Parts

variable (h : d.Reads f)

include h

theorem Venue.read_encode (v : Venue) :
    d.record "Venue" (Venue.fields d) {} (v.encode f) = .ok v := by
  refine h.record_eq (fun skip => ?_) ?_
  · iterate 5 rw [Record.setNamed_cons rfl (h.bind_text ..)]
    rfl
  · simp [Venue.fields, Decoding.textField, Record.Field.defaulted]

theorem Host.read_encode (x : Host) :
    d.record "Host" (Host.fields d) {} (x.encode f) = .ok x := by
  refine h.record_eq (fun skip => ?_) ?_
  · rw [Record.setNamed_cons rfl (h.bind_text ..)]
    rfl
  · simp [Host.fields, Decoding.textField, Record.Field.defaulted]

theorem Image.read_encode (i : Image) :
    d.record "Image" (Image.fields d) {} (i.encode f) = .ok i := by
  refine h.record_eq (fun skip => ?_) ?_
  · iterate 2 rw [Record.setNamed_cons rfl (h.bind_text ..)]
    rfl
  · simp [Image.fields, Decoding.textField, Record.Field.defaulted]

theorem Image.reads_encode (images : List Image) :
    d.records "Image" (Image.fields d) {} (f.list (images.map (·.encode f))) = .ok images := by
  rw [h.records]
  induction images with
  | nil => rfl
  | cons i rest ih =>
    rw [List.map_cons, List.mapM_cons, Image.read_encode h, ih]
    rfl

end Parts

namespace Event

theorem isSome_get?_encodeFields (f : Encoding ν) (e : Event) {name : String}
    (h : name = "id" ∨ name = "groupId") : (Fields.get? name (e.encodeFields f)).isSome := by
  unfold encodeFields
  rcases h with rfl | rfl <;> cases e.dateTime <;> cases e.host <;> simp [Fields.get?]

/-- The fields are written in the order of their names. -/
theorem sorted_encodeFields (f : Encoding ν) (e : Event) : (e.encodeFields f).Sorted := by
  have hnames : (e.encodeFields f).names.Sublist ["dateTime", "description", "duration", "eventUrl",
      "groupId", "groupName", "host", "id", "images", "title", "venue"] := by
    unfold encodeFields
    cases e.dateTime <;> cases e.host <;> cases e.venue <;> simp [Fields.names]
  exact List.pairwise_map.mp (List.Pairwise.sublist hnames (by decide))

/-- The event that is read where one has been written. -/
def stored (e : Event) : Event :=
  { e with dateTime := e.dateTime.map Instant.wholeSecond }

section Parts

variable (h : d.Reads f)

include h

theorem decodeDate_format {t : Instant} (ht : t.InFourDigits) :
    decodeDate d (f.text (formatStoredDate t)) = .ok (some t.wholeSecond) := by
  have hoption : d.option d.text (f.text (formatStoredDate t)) =
      .ok (some (formatStoredDate t)) := by
    rw [Decoding.option, h.present_text]
    change some <$> d.text _ = _
    rw [h.text]
    rfl
  have hlength : (formatStoredDate t).isEmpty = false := by
    rw [Bool.eq_false_iff, ne_eq, String.isEmpty_iff]
    rintro he
    have := length_formatStoredDate ht
    rw [he] at this
    cases this
  rw [decodeDate, hoption]
  change (if (formatStoredDate t).isEmpty = true then _ else _) = _
  rw [if_neg (by simp [hlength]), Instant.readStoredDate_formatStoredDate ht]
  rfl

theorem setNamed_dateTime {date : Option Instant} {e : Event} (he : e.dateTime = none) :
    (∀ t, date = some t → t.InFourDigits) →
    Record.setNamed (fields d) skip (match date with
      | some t => [("dateTime", f.text (formatStoredDate t))]
      | none => []) e = .ok { e with dateTime := date.map Instant.wholeSecond } := by
  intro hd
  cases date with
  | none =>
    cases e
    cases he
    rfl
  | some t =>
    refine Record.setNamed_cons rfl ?_
    change (decodeDate d _ >>= fun date => Except.ok { e with dateTime := date }) = _
    rw [decodeDate_format h (hd t rfl)]
    rfl

theorem setNamed_host {host : Option Host} {e : Event} (he : e.host = none) :
    Record.setNamed (fields d) skip (match host with
      | some x => [("host", x.encode f)]
      | none => []) e = .ok { e with host := host } := by
  cases host with
  | none =>
    cases e
    cases he
    rfl
  | some x =>
    refine Record.setNamed_cons rfl ?_
    change (d.option _ _ >>= fun host => Except.ok { e with host := host }) = _
    rw [Host.encode, h.option_record (Host.read_encode h x)]
    rfl

theorem setNamed_venue {venue : Option Venue} {e : Event} (he : e.venue = none) :
    Record.setNamed (fields d) skip (match venue with
      | some v => [("venue", v.encode f)]
      | none => []) e = .ok { e with venue := venue } := by
  cases venue with
  | none =>
    cases e
    cases he
    rfl
  | some v =>
    refine Record.setNamed_cons rfl ?_
    change (d.option _ _ >>= fun venue => Except.ok { e with venue := venue }) = _
    rw [Venue.encode, h.option_record (Venue.read_encode h v)]
    rfl

theorem setImages (images : List Image) (e : Event) :
    (d.records "Image" (Image.fields d) {} (f.list (images.map (·.encode f))) >>= fun images =>
      Except.ok { e with images := images }) = .ok { e with images := images } := by
  rw [Image.reads_encode h]
  rfl

/-- An event is read back, if its date has a year of four digits. -/
theorem decode_encode {e : Event} (hd : ∀ t, e.dateTime = some t → t.InFourDigits) :
    decode d (f.record (e.encodeFields f)) = .ok e.stored := by
  refine h.record_eq (fun skip => ?_) ?_
  · simp only [encodeFields, List.append_assoc]
    refine (Record.setNamed_append (setNamed_dateTime h rfl hd)).trans ?_
    iterate 5 refine (Record.setNamed_cons rfl (h.bind_text ..)).trans ?_
    refine (Record.setNamed_append (setNamed_host h rfl)).trans ?_
    refine (Record.setNamed_cons rfl (h.bind_text ..)).trans ?_
    refine (Record.setNamed_cons rfl (setImages h _ _)).trans ?_
    refine (Record.setNamed_cons rfl (h.bind_text ..)).trans ?_
    exact setNamed_venue h rfl
  · intro field hf hr
    simp only [fields, List.mem_cons, List.not_mem_nil, or_false] at hf
    rcases hf with rfl | rfl | rfl | rfl | rfl | rfl | rfl | rfl | rfl | rfl | rfl
    · exact isSome_get?_encodeFields f e (.inl rfl)
    · exact isSome_get?_encodeFields f e (.inr rfl)
    all_goals cases hr

end Parts

theorem reads_item : Attribute.decoding.Reads Attribute.encoding where
  text _ := rfl
  present_text _ := rfl
  present_record _ := rfl
  record _ _ _ := ⟨_, _, fun _ => rfl⟩
  records _ _ _ _ := rfl

theorem sorted_toItem (e : Event) : Fields.Sorted e.toItem :=
  e.sorted_encodeFields Attribute.encoding

theorem reads_json : Json.decoding.Reads Json.encoding where
  text _ := rfl
  present_text _ := rfl
  present_record _ := rfl
  record _ _ _ := ⟨_, _, fun _ => rfl⟩
  records _ _ _ _ := rfl

/-- A date is written as its text, and nothing is written in its absence. -/
theorem get?_dateTime_encodeFields (f : Encoding ν) (e : Event) :
    Fields.get? "dateTime" (e.encodeFields f) =
      e.dateTime.map fun t => f.text (formatStoredDate t) := by
  unfold encodeFields
  cases e.dateTime <;> cases e.host <;> cases e.venue <;> simp [Fields.get?]

/-- The date of an item is the text of the date of its event, if it has one. -/
theorem dateText?_toItem (e : Event) :
    e.toItem.text? Catalogue.dateName = e.dateTime.map formatStoredDate := by
  have hdate := get?_dateTime_encodeFields Attribute.encoding e
  change (Fields.get? "dateTime" (e.encodeFields Attribute.encoding)).bind Attribute.text? = _
  rw [hdate]
  cases e.dateTime <;> rfl

/-- The item of an event is read as the event, if its date has a year of four digits. -/
theorem ofItem_toItem {e : Event} (hd : ∀ t, e.dateTime = some t → t.InFourDigits) :
    ofItem e.toItem = .ok e.stored :=
  decode_encode reads_item hd

end Event

end GroupCalendar
