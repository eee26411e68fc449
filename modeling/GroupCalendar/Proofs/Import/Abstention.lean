import GroupCalendar.Proofs.Import.Exchanges
import GroupCalendar.Proofs.Import.Report
import GroupCalendar.Proofs.Listing.Malformed

/-! # Imports that write nothing

Nothing is written before both sides have been read to their end. Where a page of the store or of
the listing cannot be read, whichever page it is and whatever is wrong with it, the worker writes
nothing at all and its group is reported as failed, however the workers are interleaved.
-/

namespace GroupCalendar

open Store Service

namespace Service

/-- A batch, or a wait between two attempts at one. -/
def Request.IsBatch : Request → Prop
  | .store (.batchGet ..) | .store (.batchWrite ..) | .wait _ => True
  | _ => False

end Service

namespace Exchange

/-- One of the two sides cannot be read: the store reports an error or holds an item that is no
event, or the source breaks off, reports an error, or gives an answer without a page. -/
inductive Fails : Exchange signature → Prop
  | stored {q start e} : Fails ⟨.store (.query q start), .error e⟩
  | item {q start} {page : Page} {item e} : item ∈ page.items → Event.ofItem item = .error e →
      Fails ⟨.store (.query q start), .ok page⟩
  | broken {query arguments} : Fails ⟨.graphQl query arguments, none⟩
  | listed {query arguments e} : Fails ⟨.graphQl query arguments, some (.error e)⟩
  | noPage {query arguments x} : Listing.NoPage x →
      Fails ⟨.graphQl query arguments, some (.ok x)⟩

theorem fails_page_iff {q : Query} {start : Option Item} {page : Page} :
    Fails ⟨.store (.query q start), .ok page⟩ ↔
      ∃ item ∈ page.items, (Event.ofItem item).toOption = none := by
  constructor
  · intro h
    cases h with
    | item hitem he => exact ⟨_, hitem, by rw [he]; rfl⟩
  · rintro ⟨item, hitem, he⟩
    cases h : Event.ofItem item with
    | error e => exact .item hitem h
    | ok e =>
      rw [h] at he
      cases he

theorem fails_answer_iff {query : String} {arguments x : Json} :
    Fails ⟨.graphQl query arguments, some (.ok x)⟩ ↔ Listing.NoPage x := by
  constructor
  · intro h
    cases h with
    | noPage h => exact h
  · exact .noPage

instance : DecidablePred Fails
  | ⟨.store (.query _ _), .error _⟩ => .isTrue .stored
  | ⟨.store (.query _ _), .ok _⟩ => decidable_of_iff _ fails_page_iff.symm
  | ⟨.graphQl _ _, none⟩ => .isTrue .broken
  | ⟨.graphQl _ _, some (.error _)⟩ => .isTrue .listed
  | ⟨.graphQl _ _, some (.ok _)⟩ => decidable_of_iff _ fails_answer_iff.symm
  | ⟨.store (.getItem _ _), _⟩ | ⟨.store (.batchGet _ _), _⟩ | ⟨.store (.batchWrite _ _), _⟩
  | ⟨.wait _, _⟩ => .isFalse fun h => by cases h

variable {log : List (Exchange signature)}

def Reading (log : List (Exchange signature)) : Prop :=
  ∀ x ∈ log, x.request.IsReading

def Clean (log : List (Exchange signature)) : Prop :=
  ∀ x ∈ log, ¬ x.Fails

/-- Pages are asked for before anything is written, and nothing is written once a page is wrong. -/
def Cautious (log : List (Exchange signature)) : Service.Request → Prop
  | .store (.batchWrite ..) => Clean log
  | .store (.query ..) | .graphQl .. => Reading log
  | .store (.getItem ..) | .store (.batchGet ..) | .wait _ => True

theorem reading_nil : Reading [] := List.forall_mem_nil _

theorem clean_nil : Clean [] := List.forall_mem_nil _

theorem not_fails_of_isBatch {x : Exchange signature} (h : x.request.IsBatch) : ¬ x.Fails := by
  rintro ⟨⟩ <;> exact h

/-- Where a side could not be read, there are no writes among exchanges that were cautious. -/
def Abstains (log : List (Exchange signature)) : Prop :=
  (∃ x ∈ log, x.Fails) → Reading log

theorem Abstains.append {x : Exchange signature} (h : Abstains log) (hx : Cautious log x.request) :
    Abstains (log ++ [x]) := by
  rintro ⟨y, hy, hfails⟩ z hz
  rw [List.mem_append, List.mem_singleton] at hy hz
  obtain ⟨r, reply⟩ := x
  match r with
  | .store (.batchWrite table ws) =>
    -- All before a write is clean, and so is the write.
    rcases hy with hy | rfl
    · exact absurd hfails (hx y hy)
    · cases hfails
  | .store (.query ..) | .graphQl .. =>
    rcases hz with hz | rfl
    · exact hx z hz
    · exact nofun
  | .store (.getItem ..) | .store (.batchGet ..) | .wait _ =>
    rcases hz with hz | rfl
    · rcases hy with hy | rfl
      · exact h ⟨y, hy, hfails⟩ z hz
      · cases hfails
    · exact nofun

theorem Reading.append {x : Exchange signature} (h : Reading log) (hx : x.request.IsReading) :
    Reading (log ++ [x]) :=
  List.forall_mem_append.mpr ⟨h, List.forall_mem_singleton.mpr hx⟩

theorem Clean.append {x : Exchange signature} (h : Clean log) (hx : ¬ x.Fails) :
    Clean (log ++ [x]) :=
  List.forall_mem_append.mpr ⟨h, List.forall_mem_singleton.mpr hx⟩

end Exchange

open Exchange

variable {log : List (Exchange signature)} {c : Catalogue}

section Reading

/-- Every page that was read holds items that are returned. -/
theorem queryFrom_cautious (q : Query) (pages : Nat) (start : Option Item) (hr : Reading log) :
    (queryFrom q pages start).Ensures (.logged Cautious) log fun items log' =>
      Reading log' ∧ ∀ x ∈ log', x ∈ log ∨ ∃ start page,
        x = ⟨.store (.query q start), .ok page⟩ ∧ page.items ⊆ items := by
  induction pages generalizing start log with
  | zero => exact Task.ensures_exhausted _ _
  | succ pages ih =>
    have hpage : (Task.query q start).Ensures (.logged Cautious) log fun page log' =>
        log' = log ++ [⟨.store (.query q start), .ok page⟩] :=
      Task.ensures_query _ hr fun _ _ h => h
    refine hpage.bind ?_
    rintro page _ rfl
    have hr' : Reading (log ++ [⟨.store (.query q start), .ok page⟩]) := hr.append nofun
    split
    · refine Task.ensures_pure ⟨hr', ?_⟩
      intro x hx
      rw [List.mem_append, List.mem_singleton] at hx
      exact hx.imp_right fun h => ⟨start, page, h, List.Subset.refl _⟩
    · refine (ih _ hr').bind ?_
      rintro items log' ⟨hr'', hitems⟩
      refine Task.ensures_pure ⟨hr'', ?_⟩
      intro x hx
      rcases hitems x hx with hx | ⟨start', page', rfl, hsub⟩
      · rw [List.mem_append, List.mem_singleton] at hx
        exact hx.imp_right fun h => ⟨start, page, h, List.subset_append_left _ _⟩
      · exact .inr ⟨start', page', rfl, List.Subset.trans hsub (List.subset_append_right _ _)⟩

theorem upcoming_cautious (c : Catalogue) (pages : Nat) (now : Instant) (group : String)
    (hr : Reading log) (hc : Clean log) :
    (c.upcoming pages now group).Ensures (.logged Cautious) log fun _ log' =>
      Reading log' ∧ Clean log' := by
  refine (queryFrom_cautious _ pages none hr).mapError.bind ?_
  rintro items log' ⟨hr', hitems⟩
  refine Task.ensures_ofExcept fun events hdecode => ⟨hr', ?_⟩
  have hall : ∀ item ∈ items, ∃ e, Event.ofItem item = .ok e :=
    Catalogue.exists_ofItem_of_decodeItems hdecode
  intro x hx
  rcases hitems x hx with hx | ⟨start, page, rfl, hsub⟩
  · exact hc x hx
  · intro hfails
    cases hfails with
    | @item _ _ _ item _ hitem he =>
      obtain ⟨e', he'⟩ := hall item (hsub hitem)
      rw [he'] at he
      cases he

theorem fetchPage_cautious (group : String) (cursor : Option String) (hr : Reading log)
    (hc : Clean log) :
    (Listing.fetchPage group cursor).Ensures (.logged Cautious) log fun _ log' =>
      Reading log' ∧ Clean log' := by
  have hx : (Task.graphQl Listing.pageQuery (Listing.pageVariables group cursor)).Ensures
      (.logged Cautious) log fun x log' => log' = log ++
        [⟨.graphQl Listing.pageQuery (Listing.pageVariables group cursor), some (.ok x)⟩] :=
    Task.ensures_graphQl _ hr fun _ _ h => h
  refine hx.mapError.bind ?_
  rintro x _ rfl
  refine Task.ensures_ofExcept fun page hpage => ⟨hr.append nofun, hc.append ?_⟩
  intro hfails
  cases hfails with
  | noPage h => exact h.ofAnswer_ne_ok group page hpage

theorem eventsFrom_cautious (group : String) (limit : Instant) (pages : Nat)
    (cursor : Option String) (hr : Reading log) (hc : Clean log) :
    (Listing.eventsFrom group limit pages cursor).Ensures (.logged Cautious) log fun _ log' =>
      Reading log' ∧ Clean log' := by
  induction pages generalizing cursor log with
  | zero => exact Task.ensures_exhausted _ _
  | succ pages ih =>
    refine (fetchPage_cautious group cursor hr hc).bind ?_
    rintro page log' h
    split
    · exact Task.ensures_pure h
    · split
      · exact Task.ensures_pure h
      · next next _ =>
        refine (ih (some next) h.1 h.2).bind ?_
        intro events log'' h'
        exact Task.ensures_pure h'

end Reading

section Writing

theorem pause_isBatch (attempt : Nat) :
    (pause attempt).Ensures (.only Service.Request.IsBatch) () fun _ _ => True := by
  unfold pause
  split
  · exact Task.ensures_pure trivial
  · exact Task.ensures_wait trivial fun _ _ => trivial

theorem writePending_isBatch (table : String) (left : Nat) (ws : List Write) :
    (writePending table left ws).Ensures (.only Service.Request.IsBatch) () fun _ _ => True := by
  induction left generalizing ws with
  | zero =>
    unfold writePending
    split
    · exact Task.ensures_pure trivial
    · exact Task.ensures_throw _ _ _
  | succ left ih =>
    unfold writePending
    split
    · exact Task.ensures_pure trivial
    · refine (pause_isBatch _).bind fun _ _ _ => ?_
      refine (Task.ensures_batchWrite (fun _ _ => True) trivial fun _ _ _ => trivial).bind ?_
      exact fun later _ _ => ih later

theorem getPending_isBatch (table : String) (left : Nat) (found keys : List Item) :
    (getPending table left found keys).Ensures (.only Service.Request.IsBatch) () fun _ _ => True := by
  induction left generalizing found keys with
  | zero =>
    unfold getPending
    split
    · exact Task.ensures_pure trivial
    · exact Task.ensures_throw _ _ _
  | succ left ih =>
    unfold getPending
    split
    · exact Task.ensures_pure trivial
    · refine (pause_isBatch _).bind fun _ _ _ => ?_
      refine (Task.ensures_batchGet (fun _ _ => True) trivial fun _ _ _ => trivial).bind ?_
      exact fun b _ _ => ih _ _

theorem upsert_isBatch (c : Catalogue) (events : List Event) :
    (c.upsert events).Ensures (.only Service.Request.IsBatch) () fun _ _ => True := by
  refine Task.ensures_forM (g := ()) _ (fun _ _ => True) trivial ?_
  intro done chunk rest _ _ _
  exact (writePending_isBatch c.live maxAttempts _).mapError

theorem archiveEvents_isBatch (c : Catalogue) (ids : List String) :
    (c.archiveEvents ids).Ensures (.only Service.Request.IsBatch) () fun _ _ => True := by
  refine Task.ensures_forM (g := ()) _ (fun _ _ => True) trivial ?_
  intro done chunk rest _ _ _
  refine ((getPending_isBatch c.live maxAttempts [] _).bind ?_).mapError
  intro items _ _
  split
  · exact Task.ensures_pure trivial
  · refine (writePending_isBatch c.archive maxAttempts _).bind fun _ _ _ => ?_
    exact writePending_isBatch c.live maxAttempts _

/-- Batches are allowed where all is clean, and leave it so. -/
theorem clean_of_isBatch {ε α : Type} {t : Task ε α}
    (h : t.Ensures (.only Service.Request.IsBatch) () fun _ _ => True) (hc : Clean log) :
    t.Ensures (.logged Cautious) log fun _ log' => Clean log' := by
  refine Task.Ensures.of_only h ?_ hc
  intro r log hr hc
  refine ⟨?_, ?_⟩
  · match r with
    | .store (.batchWrite ..) => exact hc
    | .store (.batchGet ..) | .wait _ => trivial
  · rintro reply log' rfl
    exact hc.append (not_fails_of_isBatch hr)

end Writing

namespace Import

/-- The import of a group is cautious, and where it succeeds nothing has failed. -/
theorem importGroup_cautious (c : Catalogue) (pages : Nat) (now limit : Instant) (group : String) :
    (importGroup c pages now limit group).Ensures (.logged Cautious) [] fun _ log => Clean log := by
  refine (upcoming_cautious c pages now group reading_nil clean_nil).mapError.bind ?_
  rintro stored log ⟨hr, hc⟩
  refine (eventsFrom_cautious group limit pages none hr hc).mapError.bind ?_
  rintro incoming log₁ ⟨-, hc₁⟩
  refine (clean_of_isBatch (upsert_isBatch c incoming) hc₁).mapError.bind ?_
  intro _ log₂ hc₂
  refine (clean_of_isBatch (archiveEvents_isBatch c _) hc₂).mapError.bind ?_
  intro _ log₃ hc₃
  exact Task.ensures_pure hc₃

variable {σ : Type}

theorem Worker.KeepsTo.clean_of_counts {w : Worker} {g : GroupImport}
    (h : w.KeepsTo Cautious (fun x log => ∀ g, x = .ok g → Clean log) log)
    (hg : w.counts? = some g) : Clean log := by
  obtain ⟨group, phase⟩ := w
  match phase with
  | .finished result => exact h _ (Outcome.eq_of_value? hg) g rfl
  | .waiting _ | .working _ => cases hg

/-- Where a worker cannot read one of its sides it writes nothing, never returns counts, and its
group is reported as failed when all have finished. -/
theorem failed_fetch_writes_nothing (c : Catalogue) (pages : Nat) (now : String → Instant)
    (limit : Instant) (groups : List String) (handle : Handler σ) (s : σ) (schedule : List Nat)
    {i : Nat} {group : String} (hi : groups[i]? = some group) :
    let r₀ := Run.start (fun g => (importGroup c pages (now g) limit g).run) groups s
    let r := r₀.steps handle schedule
    (∃ x ∈ r₀.exchanges handle i schedule, x.Fails) →
      (∀ x ∈ r₀.exchanges handle i schedule, x.request.IsReading) ∧
      (∃ w, r.workers[i]? = some w ∧ w.group = group ∧ w.counts? = none) ∧
      ((∀ w ∈ r.workers, w.result?.isSome) → ∀ order : List Nat,
        order.Perm (List.range groups.length) →
          group ∈ (Summary.ofWorkers r.workers order).failed) := by
  intro r₀ r hfails
  have hstart : r₀.workers[i]? =
      some ⟨group, .waiting (importGroup c pages (now group) limit group).run⟩ := by
    change (groups.map _)[i]? = _
    rw [List.getElem?_map, hi]
    rfl
  have hkeeps : Worker.KeepsTo Cautious (fun x log => ∀ g, x = .ok g → Clean log)
      ⟨group, .waiting (importGroup c pages (now group) limit group).run⟩ [] :=
    importGroup_cautious c pages (now group) limit group
  obtain ⟨habstains, w, hw, hend⟩ := hkeeps.steps (p := Abstains)
    (fun log x h hx => h.append hx) hstart (fun _ => reading_nil) handle schedule
  rw [List.nil_append] at habstains hend
  have hreporting := (reporting_start c pages now limit groups s).of_reaches
    (Run.advances_steps handle r₀ schedule)
  have hgroup : w.group = group := by
    have hnames := congrArg (·[i]?) hreporting.groups_eq
    simp only [List.getElem?_map, hi] at hnames
    rw [hw] at hnames
    exact Option.some.inj hnames
  have hcounts : w.counts? = none := by
    rw [Option.eq_none_iff_forall_ne_some]
    intro g hg
    obtain ⟨x, hx, hfails⟩ := hfails
    exact hend.clean_of_counts hg x hx hfails
  refine ⟨habstains hfails, ⟨w, hw, hgroup, hcounts⟩, ?_⟩
  intro hfinished order hperm
  have hlength : r.workers.length = groups.length := by
    rw [← hreporting.groups_eq, List.length_map]
  rw [← hlength] at hperm
  rw [ofWorkers_eq hperm hfinished]
  have hlt : i < r.workers.length := (List.getElem?_eq_some_iff.mp hw).1
  refine List.mem_filterMap.mpr ⟨i, hperm.mem_iff.mpr (List.mem_range.mpr hlt), ?_⟩
  rw [hw, Option.bind_some, Worker.failure?, hcounts, hgroup]
  rfl

section Sample

/-- The answer about a group that is not there. -/
def groupless : Json := .object [("data", .object [("events", .null)]), ("errors", .array [])]

/-- The second page of group `a` names no group; group `b` is listed well. -/
def failingSite : Source Unit := sampleSite fun group cursor =>
  if group = "b" then sampleAnswer [sampleEdge "other" "b" "2025-05-03T10:00+00:00"] ""
  else if cursor = none then sampleAnswer [sampleEdge "kept" "a" "2025-05-03T10:00+00:00"] "next"
  else groupless

def failingStart : Run (Memory × Unit) :=
  .start (fun g => (importGroup sampleCatalogue 3 sampleNow (cutoff sampleNow) g).run)
    ["a", "b"] (storedSample, ())

/-- Both workers read, and group `b` is written while group `a` fails. -/
def failingSchedule : List Nat := [0, 0, 1, 0, 1, 1, 0, 0] ++ List.replicate 6 1

theorem failed_fetch_writes_nothing_sample :
    (∃ x ∈ failingStart.exchanges (answer failingSite) 0 failingSchedule, x.Fails) ∧
    (∀ x ∈ failingStart.exchanges (answer failingSite) 0 failingSchedule, x.request.IsReading) ∧
    "a" ∈ (Summary.ofWorkers (failingStart.steps (answer failingSite) failingSchedule).workers
      [1, 0]).failed := by
  have hfails : ∃ x ∈ failingStart.exchanges (answer failingSite) 0 failingSchedule, x.Fails := by
    decide +kernel
  obtain ⟨hreading, -, hreported⟩ := failed_fetch_writes_nothing sampleCatalogue 3
    (fun _ => sampleNow) (cutoff sampleNow) ["a", "b"] (answer failingSite) (storedSample, ())
    failingSchedule (i := 0) rfl hfails
  exact ⟨hfails, hreading, hreported (by decide +kernel) [1, 0] (by decide)⟩

end Sample

end Import

end GroupCalendar
