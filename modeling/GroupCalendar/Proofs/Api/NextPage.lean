import GroupCalendar.Proofs.Api.Gate
import GroupCalendar.Proofs.Api.PageQuery
import GroupCalendar.Proofs.Api.Walk
import GroupCalendar.Proofs.Event.Dated
import GroupCalendar.Proofs.Http.Target
import GroupCalendar.Proofs.Url.Below

/-! # The address of the next page

A request for the address that a page names asks for the page behind its last event, of the same
group and in the same range. The group is found again if a path keeps its name as it is.
-/

namespace GroupCalendar

namespace Catalogue

open Store Service

variable {ω : Type} {source : Source ω} {c : Catalogue} {m : Memory} {now : Instant}
  {group : String} {r : PageRequest} {item key : Item} {e : Event} {cursor : String}

/-- The cursor is made of the id, the group and the date of an event. -/
def Marks (cursor : String) (e : Event) : Prop :=
  ∃ date, Cursor.decode cursor = .ok [(dateName, .text date), (groupName, .text e.groupId),
    (idName, .text e.id)] ∧ e.dateTime = (readStoredDate date).toOption

theorem dateTime_of_text (hs : Fields.Sorted item) (he : Event.ofItem item = .ok e) {date : String}
    (hdate : item.text? dateName = some date) : e.dateTime = (readStoredDate date).toOption := by
  obtain ⟨hsome, hnone⟩ := Event.text?_of_dateTime hs he
  cases htime : e.dateTime with
  | none =>
    rw [hnone htime date hdate]
    rfl
  | some t =>
    obtain ⟨s, hs, hread⟩ := hsome t htime
    obtain rfl := Option.some.inj (hdate.symm.trans hs)
    rw [hread]
    rfl

/-- The cursor of the key behind an item marks the event that is read from the item. -/
theorem marks_of_encode {s : Schema} {q : Query} (hs : Fields.Sorted item)
    (he : Event.ofItem item = .ok e) (h : Cursor.encode (s.resumeKey q item) = .ok cursor) :
    Marks cursor e := by
  obtain ⟨id, group, date, hid, hgroup, hdate, hdecode⟩ := Cursor.decode_encode h
  replace hid := Schema.text?_of_resumeKey hid
  replace hgroup := Schema.text?_of_resumeKey hgroup
  replace hdate := Schema.text?_of_resumeKey hdate
  rw [Event.text?_of_ofItem hs he] at hid
  rw [Event.groupText?_of_ofItem hs he] at hgroup
  cases hid
  cases hgroup
  exact ⟨date, hdecode, dateTime_of_text hs he hdate⟩

theorem getLast?_of_forall₂ {items : List Item} {events : List Event}
    (h : List.Forall₂ (fun item e => Event.ofItem item = .ok e) items events)
    (hlast : items.getLast? = some item) :
    ∃ e, events.getLast? = some e ∧ Event.ofItem item = .ok e := by
  induction h with
  | nil => cases hlast
  | @cons first e items events he hrest ih =>
    cases hrest with
    | nil =>
      cases hlast
      exact ⟨e, rfl, he⟩
    | cons =>
      rw [List.getLast?_cons_cons] at hlast ⊢
      exact ih hlast

/-- The request for what follows a page has a cursor that marks the last event of the page. -/
theorem page_ensures_marks (hsorted : ∀ item ∈ m.items c.live, Fields.Sorted item) (w : ω) :
    (c.page now group r).Ensures (session source) (m, w) fun page _ =>
      ∀ next, page.next = some next → ∃ last cursor, page.events.getLast? = some last ∧
        Marks cursor last ∧ next = { r with cursor := some cursor } := by
  refine (page_ensures_query w).mono ?_
  rintro page _ ⟨q, start, p, hq, hp, hpage⟩ next hnext
  obtain ⟨-, rfl⟩ := pageQuery_eq_ok hq
  obtain ⟨hitems, hlast⟩ := Memory.query_eq_ok hp
  obtain ⟨hdecoded, hkey⟩ := toPage_eq_ok hpage
  rw [hlast] at hkey
  split at hkey
  · rw [hnext] at hkey
    cases hkey
  · next key hsome =>
    obtain ⟨cursor, hcursor, hkey⟩ := hkey
    obtain rfl := Option.some.inj (hnext.symm.trans hkey)
    split at hsome
    · obtain ⟨item, hitem, rfl⟩ := Option.map_eq_some_iff.mp hsome
      obtain ⟨last, hevent, he⟩ := getLast?_of_forall₂ hdecoded hitem
      have hmem : item ∈ m.items c.live := by
        have hshown := List.mem_of_getLast? hitem
        rw [hitems] at hshown
        exact (Schema.mem_matching.mp (Schema.mem_of_mem_resume (List.mem_of_mem_take hshown))).1
      exact ⟨last, cursor, hevent, marks_of_encode (hsorted item hmem) he hcursor, rfl⟩
    · cases hsome

end Catalogue

namespace Api

open Store Service

variable {c : Config.Api} {now : Instant} {r : Http.Request} {group : String} {q : PageRequest}

/-- The request asks for a page of the events of a group. -/
def AsksFor (r : Http.Request) (group : String) (q : PageRequest) : Prop :=
  ∃ part, Endpoint.ofSegments? r.segments = some (.events part) ∧
    pathText "group_id" part = .ok group ∧ readQuery r.query = .ok q

/-- What is answered to a request for a page. -/
theorem conclude_events {part : List Char} (hgroup : pathText "group_id" part = .ok group)
    (hquery : readQuery r.query = .ok q) :
    conclude (handle c now r (.events part)) =
      Program.bind (c.catalogue.page now group q).run fun
        | .ok page => .done (.json (pageJson c group page))
        | .error e => .done (ofEventsError e) := by
  rw [conclude, handle, hgroup, hquery]
  change Program.bind (Program.bind (ExceptT.adapt ofEventsError (c.catalogue.page now group q)).run
    _) _ = _
  rw [Program.bind_assoc]
  change Program.bind (Program.bind (c.catalogue.page now group q).run _) _ = _
  rw [Program.bind_assoc]
  congr 1
  funext x
  cases x <;> rfl

/-- A page that is given is answered. -/
theorem respond_run_of_page {ω : Type} {source : Source ω} {m : Memory} {w : ω} {s : Memory × ω}
    {page : EventsPage} (hmethod : r.method = "GET") (hauthorized : authorized c now r)
    (hasks : AsksFor r group q)
    (hpage : (c.catalogue.page now group q).run.run (answer source) (m, w) =
      (.done (.ok page), s)) :
    (respond c now r).run (answer source) (m, w) =
      (.done (.json (pageJson c group page)), s) := by
  obtain ⟨part, he, hgroup, hquery⟩ := hasks
  rw [respond_of_authorized he hauthorized hmethod rfl, conclude_events hgroup hquery]
  refine (Program.run_bind (S := signature) (answer source) _ _ (m, w)).trans ?_
  rw [hpage]
  rfl

section Path

variable (special : Bool)

/-- The path of the events of a group. -/
def listingPath (group : String) : List (List Char) :=
  ["v1", "groups", group, "events"].foldl (Url.pushSegment special) []

theorem pushSegment_fixed {parts : List (List Char)} {segment : String}
    (h : segment ∈ ["v1", "groups", "events"]) :
    Url.pushSegment special parts segment = parts ++ [segment.toList] := by
  have hfixed : Url.Kept segment ∧ Url.written special segment.toList = segment.toList := by
    simp only [List.mem_cons, List.not_mem_nil, or_false] at h
    rcases h with rfl | rfl | rfl
    all_goals exact ⟨Url.kept_iff.mpr (by decide), by cases special <;> decide⟩
  rw [Url.pushSegment_of_kept hfixed.1, hfixed.2]

theorem listingPath_eq (group : String) :
    listingPath special group =
      if group = "." ∨ group = ".." then ["v1".toList, "groups".toList, "events".toList]
      else if Url.unbroken group = ['.', '.'] then ["v1".toList, [], "events".toList]
      else if Url.unbroken group = ['.'] then
        ["v1".toList, "groups".toList, [], "events".toList]
      else ["v1".toList, "groups".toList, Url.written special (Url.unbroken group),
        "events".toList] := by
  have hversion : Url.pushSegment special [] "v1" = ["v1".toList] :=
    pushSegment_fixed special (by decide)
  have hgroups : Url.pushSegment special ["v1".toList] "groups" =
      ["v1".toList, "groups".toList] := pushSegment_fixed special (by decide)
  have hevents : ∀ parts, Url.pushSegment special parts "events" = parts ++ ["events".toList] :=
    fun parts => pushSegment_fixed special (by decide)
  rw [listingPath, List.foldl_cons, List.foldl_cons, List.foldl_cons, List.foldl_cons,
    List.foldl_nil, hversion, hgroups, hevents, Url.pushSegment_eq]
  split_ifs <;> rfl

theorem exists_listingPath (group : String) :
    ∃ rest, listingPath special group = "v1".toList :: rest := by
  rw [listingPath_eq]
  split_ifs <;> exact ⟨_, rfl⟩

theorem pathText_written (name : String) (cs : List Char) :
    pathText name (Url.written special cs) = .ok (String.ofList cs) := by
  have htext : Text.Utf8.decode? (Text.Utf8.encodeChars cs) = some (String.ofList cs) := by
    rw [Text.Utf8.decode?, Text.Utf8.decodeChars?, Text.Utf8.decodeFrom?_encodeChars]
    rfl
  rw [pathText, Url.decode_written, htext]

/-- The group is found again in the path if it is kept, and not otherwise. -/
theorem exists_events_iff (group : String) :
    (∃ part, Endpoint.ofSegments? (listingPath special group) = some (.events part) ∧
      pathText "group_id" part = .ok group) ↔ Url.Kept group := by
  rw [listingPath_eq, Url.kept_iff]
  split_ifs with hpoints htwo hone
  · refine iff_of_false ?_ fun h => h.1 hpoints
    rintro ⟨part, hpart, -⟩
    cases hpart
  · refine iff_of_false ?_ fun h => ?_
    · rintro ⟨part, hpart, -⟩
      cases hpart
    · rw [htwo] at h
      exact hpoints (.inr (String.toList_inj.mp h.2.symm))
  · refine iff_of_false ?_ fun h => ?_
    · rintro ⟨part, hpart, hgroup⟩
      cases hpart
      cases hgroup
      cases hone
    · rw [hone] at h
      exact hpoints (.inl (String.toList_inj.mp h.2.symm))
  · have hsegments : ∀ part : List Char,
        Endpoint.ofSegments? ["v1".toList, "groups".toList, part, "events".toList] =
          some (.events part) := by
      intro part
      have hpath : Endpoint.ofSegments? ["v1".toList, "groups".toList, part, "events".toList] =
          some (.events (String.ofList part).toList) := rfl
      rw [hpath, String.toList_ofList]
    have htoList : String.ofList (Url.unbroken group) = group ↔
        Url.unbroken group = group.toList := by
      rw [← String.toList_inj, String.toList_ofList]
    rw [hsegments, ← htoList]
    constructor
    · rintro ⟨part, hpart, hgroup⟩
      cases hpart
      rw [pathText_written] at hgroup
      exact ⟨hpoints, Except.ok.inj hgroup⟩
    · rintro ⟨-, hgroup⟩
      exact ⟨_, rfl, (pathText_written ..).trans (congrArg _ hgroup)⟩

/-- What is asked for the page of a group. -/
def pageTarget (group : String) (q : PageRequest) : List Char :=
  (listingPath special group).flatMap ('/' :: ·) ++ '?' :: Form.encode (queryPairs q)

theorem notMem_listingPath : ∀ part ∈ listingPath special group, ∀ c ∈ Url.ends, c ∉ part :=
  fun part hpart _ hc => Url.notMem_below hc (fun _ h => absurd h List.not_mem_nil) _ part hpart

/-- The target begins with its path and has no fragment. -/
theorem pageTarget_spec (group : String) (q : PageRequest) :
    (pageTarget special group q).head? = some '/' ∧ '#' ∉ pageTarget special group q := by
  constructor
  · obtain ⟨rest, hpath⟩ := exists_listingPath special group
    rw [pageTarget, hpath]
    rfl
  · rw [pageTarget, List.mem_append, not_or]
    constructor
    · intro h
      obtain ⟨part, hpart, h⟩ := List.mem_flatMap.mp h
      rcases List.mem_cons.mp h with h | h
      · cases h
      · exact notMem_listingPath special part hpart '#' (by decide) h
    · intro h
      rcases List.mem_cons.mp h with h | h
      · cases h
      · exact Form.notMem_encode _ h

/-- A request for the target asks for the page, to the whole second, if the path keeps the name of
the group, and for no page of the group otherwise. -/
theorem asksFor_iff (hq : q.Bounded)
    (htarget : r.target = String.ofList (pageTarget special group q)) {q' : PageRequest} :
    AsksFor r group q' ↔ Url.Kept group ∧ q' = q.wholeSeconds := by
  obtain ⟨rest, hpath⟩ := exists_listingPath special group
  have hne : listingPath special group ≠ [] := by
    rw [hpath]
    exact List.cons_ne_nil _ _
  have hsegments := Http.Request.segments_of_target htarget hne (notMem_listingPath special)
    (Form.notMem_encode _)
  have hquery := Http.Request.query_of_target htarget hne (notMem_listingPath special)
    (Form.notMem_encode _)
  rw [AsksFor, hsegments, hquery, readQuery_encode hq, ← exists_events_iff special]
  constructor
  · rintro ⟨part, hpart, hgroup, hread⟩
    exact ⟨⟨part, hpart, hgroup⟩, (Except.ok.inj hread).symm⟩
  · rintro ⟨⟨part, hpart, hgroup⟩, rfl⟩
    exact ⟨part, hpart, hgroup, rfl⟩

end Path

/-- The address of the next page below the root of a host. -/
theorem nextPageUrl_eq (hroot : c.appUrl.path = .segments [[]]) (group : String) (q : PageRequest) :
    nextPageUrl c group q =
      some (c.appUrl.onHost (pageTarget (Url.isSpecial c.appUrl.scheme) group q)) := by
  have hbelow : c.appUrl.below? ["v1", "groups", group, "events"] (queryPairs q) =
      some { c.appUrl with
        path := .segments (listingPath (Url.isSpecial c.appUrl.scheme) group)
        query := some (Form.encode (queryPairs q)) } := by
    rw [Url.below?, hroot]
    rfl
  obtain ⟨rest, hpath⟩ := exists_listingPath (Url.isSpecial c.appUrl.scheme) group
  rw [nextPageUrl, hbelow, pageTarget, hpath, Option.map_some, Url.toText_of_path (by decide)]

section Answer

variable {members : Fields Json} {url : String}

/-- An error names no next page. -/
theorem get?_ofEventsError {e : EventsError}
    (hbody : (ofEventsError e).body = .json (.object members)) :
    Fields.get? "nextPageUrl" members = none := by
  cases e <;> cases hbody <;> rfl

/-- The next page that is shown is the one of the page. -/
theorem exists_next_of_pageJson {page : EventsPage}
    (hbody : pageJson c group page = .object members)
    (hurl : Fields.get? "nextPageUrl" members = some (.string url)) :
    Fields.get? "items" members = some (.array (page.events.map View.event)) ∧
      ∃ next, page.next = some next ∧ nextPageUrl c group next = some url := by
  cases hbody
  refine ⟨rfl, ?_⟩
  have hshown : Json.ofOption (page.next.bind (nextPageUrl c group)) = .string url :=
    Option.some.inj hurl
  cases hnext : page.next.bind (nextPageUrl c group) with
  | none =>
    rw [hnext] at hshown
    cases hshown
  | some shown =>
    rw [hnext] at hshown
    cases hshown
    exact Option.bind_eq_some_iff.mp hnext

end Answer

/-- A request for the address of the next page asks for the page of the same group and range behind
the last event, if a path keeps the name of the group, and not otherwise. -/
theorem next_page_follows_iff {ω : Type} {source : Source ω} {m : Memory} {w : ω}
    {s : Memory × ω} {response : Http.Response} {members : Fields Json} {url : String}
    (hroot : c.appUrl.path = .segments [[]])
    (hsorted : ∀ item ∈ m.items c.events, Fields.Sorted item)
    (hmethod : r.method = "GET") (hauthorized : authorized c now r) (hasks : AsksFor r group q)
    (hrun : (respond c now r).run (answer source) (m, w) = (.done response, s))
    (hbody : response.body = .json (.object members))
    (hurl : Fields.get? "nextPageUrl" members = some (.string url)) :
    ∃ (events : List Event) (last : Event) (cursor : String),
      Fields.get? "items" members = some (.array (events.map View.event)) ∧
      events.getLast? = some last ∧ Catalogue.Marks cursor last ∧
      ∃ target, url = c.appUrl.onHost target ∧ target.head? = some '/' ∧ '#' ∉ target ∧
        ∀ next : Http.Request, next.target = String.ofList target → ∀ q', AsksFor next group q' ↔
          Url.Kept group ∧ q' = { q.wholeSeconds with cursor := some cursor } := by
  obtain ⟨part, he, hgroup, hquery⟩ := hasks
  have hbounded : q.Bounded := bounded_of_readQuery hquery
  rw [respond_of_authorized he hauthorized hmethod rfl, conclude_events hgroup hquery] at hrun
  replace hrun := (Program.run_bind (S := signature) (answer source) _ _ (m, w)).symm.trans hrun
  split at hrun
  · next x s' hx =>
    cases x with
    | error e =>
      obtain ⟨hresponse, -⟩ := Prod.mk.inj hrun
      rw [← Outcome.done.inj hresponse] at hbody
      rw [get?_ofEventsError hbody] at hurl
      cases hurl
    | ok page =>
      have hmarks := (Catalogue.page_ensures_marks hsorted w).of_run hx
      obtain ⟨hresponse, -⟩ := Prod.mk.inj hrun
      rw [← Outcome.done.inj hresponse] at hbody
      obtain ⟨hitems, next, hnext, hshown⟩ :=
        exists_next_of_pageJson (Http.Body.json.inj hbody) hurl
      obtain ⟨last, cursor, hlast, hcursor, rfl⟩ := hmarks next hnext
      rw [nextPageUrl_eq hroot] at hshown
      obtain rfl := Option.some.inj hshown
      obtain ⟨hhead, hfragment⟩ := pageTarget_spec (Url.isSpecial c.appUrl.scheme) group
        { q with cursor := some cursor }
      refine ⟨page.events, last, cursor, hitems, hlast, hcursor, _, rfl, hhead, hfragment, ?_⟩
      intro next htarget q'
      exact asksFor_iff (q := { q with cursor := some cursor }) _ hbounded htarget
  · cases hrun
  · cases hrun

section Sample

open Import Catalogue

/-- A store with two events of a group. -/
def twoEvents (group : String) : Memory :=
  sampleMemory [sampleItem "x" group "2025-05-01T10:00:00Z",
    sampleItem "y" group "2025-06-01T10:00:00Z"] {}

/-- The first of two events of a group, and the request for what follows it. -/
def firstPage (group cursor : String) : EventsPage :=
  ⟨[{ mayEvent with groupId := group }], some { cursor := some cursor, limit := some 1 }⟩

theorem next_page_follows_iff_sample :
    ∃ (s : Memory × Unit) (members : Fields Json) (last : Event) (cursor : String)
      (target : List Char),
      (respond openConfig .epoch (openRequest "/v1/groups/a/events?limit=1")).run
        (answer silentSource) (twoEvents "a", ()) = (.done (.json (.object members)), s) ∧
      Fields.get? "items" members = some (.array [View.event last]) ∧ Marks cursor last ∧
      Fields.get? "nextPageUrl" members = some (.string (openConfig.appUrl.onHost target)) ∧
      ∀ next : Http.Request, next.target = String.ofList target →
        AsksFor next "a" { cursor := some cursor, limit := some 1 } := by
  have hasks : AsksFor (openRequest "/v1/groups/a/events?limit=1") "a" { limit := some 1 } :=
    ⟨['a'], by decide +kernel, by decide +kernel, by decide +kernel⟩
  obtain ⟨s, hpage⟩ : ∃ s, (openConfig.catalogue.page .epoch "a" { limit := some 1 }).run.run
      (answer silentSource) (twoEvents "a", ()) =
        (.done (.ok (firstPage "a" "eA==.YQ==.MjAyNS0wNS0wMVQxMDowMDowMFo=")), s) :=
    ⟨_, page_run_of_sorted rfl rfl rfl (by decide +kernel) rfl ()⟩
  have hrun := respond_run_of_page (c := openConfig) rfl (authorized_openRequest _) hasks hpage
  obtain ⟨events, last, cursor, hevents, hlast, hmarks, target, hurl, -, -, hnext⟩ :=
    next_page_follows_iff rfl (by decide +kernel) rfl (authorized_openRequest _) hasks hrun rfl rfl
  have hone : events = [last] := by
    have hshown : [View.event mayEvent] = events.map View.event :=
      Json.array.inj (Option.some.inj hevents)
    have hlength := congrArg List.length hshown
    rw [List.length_map] at hlength
    obtain ⟨e, rfl⟩ := List.length_eq_one_iff.mp hlength.symm
    cases hlast
    rfl
  subst hone
  refine ⟨s, _, last, cursor, target, hrun, hevents, hmarks, hurl ▸ rfl, fun next htarget => ?_⟩
  exact (hnext next htarget _).mpr ⟨Url.kept_iff.mpr (by decide), rfl⟩

/-- What is asked for the second page of the group `ab`. -/
def otherTarget : String :=
  "/v1/groups/ab/events?cursor=eA%3D%3D.YQli.MjAyNS0wNS0wMVQxMDowMDowMFo%3D&limit=1"

/-- A tab in the name of the group is left out of the address, so that a request for it asks for the
events of another group. -/
theorem next_page_of_another_group :
    AsksFor (openRequest "/v1/groups/a%09b/events?limit=1") "a\tb" { limit := some 1 } ∧
    authorized openConfig .epoch (openRequest "/v1/groups/a%09b/events?limit=1") ∧
    (∃ (s : Memory × Unit) (members : Fields Json),
      (respond openConfig .epoch (openRequest "/v1/groups/a%09b/events?limit=1")).run
        (answer silentSource) (twoEvents "a\tb", ()) = (.done (.json (.object members)), s) ∧
      Fields.get? "nextPageUrl" members = some (.string ("http://h" ++ otherTarget))) ∧
    AsksFor (openRequest otherTarget) "ab"
      { cursor := some "eA==.YQli.MjAyNS0wNS0wMVQxMDowMDowMFo=", limit := some 1 } ∧
    ∀ q, ¬ AsksFor (openRequest otherTarget) "a\tb" q := by
  have hasks : AsksFor (openRequest "/v1/groups/a%09b/events?limit=1") "a\tb"
      { limit := some 1 } :=
    ⟨"a%09b".toList, by decide +kernel, by decide +kernel, by decide +kernel⟩
  obtain ⟨s, hpage⟩ : ∃ s, (openConfig.catalogue.page .epoch "a\tb" { limit := some 1 }).run.run
      (answer silentSource) (twoEvents "a\tb", ()) =
        (.done (.ok (firstPage "a\tb" "eA==.YQli.MjAyNS0wNS0wMVQxMDowMDowMFo=")), s) :=
    ⟨_, page_run_of_sorted rfl rfl rfl (by decide +kernel) rfl ()⟩
  have hrun := respond_run_of_page (c := openConfig) rfl (authorized_openRequest _) hasks hpage
  have hurl : nextPageUrl openConfig "a\tb"
      { cursor := some "eA==.YQli.MjAyNS0wNS0wMVQxMDowMDowMFo=", limit := some 1 } =
        some ("http://h" ++ otherTarget) := by
    decide +kernel
  have hother : Endpoint.ofSegments? (openRequest otherTarget).segments =
      some (.events "ab".toList) := by decide +kernel
  refine ⟨hasks, authorized_openRequest _, ⟨s, _, hrun, ?_⟩, ?_, ?_⟩
  · exact congrArg (fun url => some (Json.ofOption url)) hurl
  · exact ⟨"ab".toList, hother, by decide +kernel, by decide +kernel⟩
  · rintro q ⟨part, hpart, hgroup, -⟩
    rw [hother] at hpart
    cases hpart
    revert hgroup
    decide +kernel

end Sample

end Api

end GroupCalendar
