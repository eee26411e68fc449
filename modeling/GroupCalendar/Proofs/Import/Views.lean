import GroupCalendar.Proofs.Import.Confinement
import GroupCalendar.Proofs.Import.Interleaving
import GroupCalendar.Proofs.Import.Progress

/-! # Views of a shared store

Imports whose footprints are apart share a store. To each of them it looks like a store that
belongs to this one alone, its view: a request is answered in the same way by both, and changes
both in the same way. So a worker goes through its import as it would alone, whatever the others do.
-/

namespace GroupCalendar

open Store Service

namespace Service

/-- The group whose events a request asks for. -/
def askedGroup (arguments : Json) : String :=
  ((arguments.get? "urlname").bind Json.string?).getD ""

variable {τ : Type}

/-- A source that answers for every group from a state of its own. -/
def sites (site : String → Source τ) : Source (String → τ) :=
  fun query arguments w =>
    let g := askedGroup arguments
    ((site g query arguments (w g)).1,
      Function.update w g (site g query arguments (w g)).2)

theorem sites_page (site : String → Source τ) (group : String) (cursor : Option String)
    (w : String → τ) :
    sites site Listing.pageQuery (Listing.pageVariables group cursor) w =
      ((site group Listing.pageQuery (Listing.pageVariables group cursor) (w group)).1,
        Function.update w group
          (site group Listing.pageQuery (Listing.pageVariables group cursor) (w group)).2) := rfl

end Service

namespace Import

variable {τ : Type} {site : String → Source τ} {c : Catalogue} {now : String → Instant}
  {ids : String → List String} {groups : List String} {m₀ : Memory}
  {views : String → Memory × (String → τ)} {s : Memory × (String → τ)} {g : String}

/-- To the import of a group a state looks like the view that it has of it. -/
structure Looks (c : Catalogue) (now : Instant) (group : String) (ids : List String)
    (view s : Memory × (String → τ)) : Prop where
  view_confines : c.Confines now group ids view.1
  confines : c.Confines now group ids s.1
  agree : c.AgreeOn ids view.1 s.1
  site_eq : s.2 group = view.2 group

/-- A state looks to every group like its view, and what belongs to no group is as at first. -/
structure Shares (c : Catalogue) (now : String → Instant) (ids : String → List String)
    (groups : List String) (m₀ : Memory) (views : String → Memory × (String → τ))
    (s : Memory × (String → τ)) : Prop where
  looks : ∀ g ∈ groups, Looks c (now g) g (ids g) (views g) s
  rest : ∀ table id, (c.Has table → ∀ g ∈ groups, id ∉ ids g) →
    s.1.get? table id = m₀.get? table id

/-- No id of one group is one of another. -/
def Apart (ids : String → List String) (groups : List String) : Prop :=
  ∀ g ∈ groups, ∀ g' ∈ groups, g ≠ g' → ∀ id ∈ ids g, id ∉ ids g'

section Requests

/-- A request of one group changes the view of that group alone. -/
theorem Shares.update {view : Memory × (String → τ)} {s' : Memory × (String → τ)}
    (hg : Looks c (now g) g (ids g) view s')
    (hother : ∀ g' ∈ groups, g' ≠ g → Looks c (now g') g' (ids g') (views g') s')
    (hrest : ∀ table id, (c.Has table → ∀ g ∈ groups, id ∉ ids g) →
      s'.1.get? table id = m₀.get? table id) :
    Shares c now ids groups m₀ (Function.update views g view) s' where
  looks g' hg' := by
    by_cases he : g' = g
    · subst he
      rwa [Function.update_self]
    · rw [Function.update_of_ne he]
      exact hother g' hg' he
  rest := hrest

/-- A page of a group is the one of its view, and no other group's pages change. -/
theorem Shares.page (site : String → Source τ) (h : Shares c now ids groups m₀ views s)
    (hg : g ∈ groups) (cursor : Option String) :
    let q : Service.Request := .graphQl Listing.pageQuery (Listing.pageVariables g cursor)
    (answer (sites site) q s).1 = (answer (sites site) q (views g)).1 ∧
      Shares c now ids groups m₀
        (Function.update views g (answer (sites site) q (views g)).2)
        (answer (sites site) q s).2 := by
  intro q
  have hown := h.looks g hg
  refine ⟨?_, Shares.update ?_ ?_ h.rest⟩
  · change (sites site _ _ s.2).1 = (sites site _ _ (views g).2).1
    rw [sites_page, sites_page, hown.site_eq]
  · refine ⟨hown.view_confines, hown.confines, hown.agree, ?_⟩
    change (sites site _ _ s.2).2 g = (sites site _ _ (views g).2).2 g
    simp only [sites_page, Function.update_self, hown.site_eq]
  · intro g' hg' hne
    have hlooks := h.looks g' hg'
    refine ⟨hlooks.view_confines, hlooks.confines, hlooks.agree, ?_⟩
    change (sites site _ _ s.2).2 g' = _
    simp only [sites_page, Function.update_of_ne hne, hlooks.site_eq]

/-- The store answers a group as its view does, and what it writes no other group sees. -/
theorem Shares.store (site : String → Source τ) (h : Shares c now ids groups m₀ views s)
    (hapart : Apart ids groups) (hg : g ∈ groups) {r : Store.Request}
    (hr : c.Within (now g) g (ids g) (.store r)) :
    (answer (sites site) (.store r) s).1 = (answer (sites site) (.store r) (views g)).1 ∧
      Shares c now ids groups m₀
        (Function.update views g (answer (sites site) (.store r) (views g)).2)
        (answer (sites site) (.store r) s).2 := by
  have hown := h.looks g hg
  obtain ⟨table, ws, ht, hws, hwrote⟩ := hr.wrote
  have hquiet : (s.1.answer r).2.Quiet := hown.confines.quiet.answer r
  have hshared := hwrote s.1 hown.confines.fits hown.confines.quiet
  have hview := hwrote (views g).1 hown.view_confines.fits hown.view_confines.quiet
  refine ⟨hr.answer_eq hown.view_confines hown.confines hown.agree, Shares.update ?_ ?_ ?_⟩
  · exact ⟨hown.view_confines.wrote hview (hown.view_confines.quiet.answer r) hws
      fun _ => List.Subset.refl _, hown.confines.wrote hshared hquiet hws
      fun _ => List.Subset.refl _, hown.agree.wrote hview hshared, hown.site_eq⟩
  · intro g' hg' hne
    have hlooks := h.looks g' hg'
    exact ⟨hlooks.view_confines,
      hlooks.confines.wrote hshared hquiet hws fun he => absurd he.symm hne,
      hlooks.agree.frame hown.confines.fits hshared ht hws (hapart g' hg' g hg hne),
      hlooks.site_eq⟩
  · intro other id hid
    exact (Catalogue.get?_of_notMem hown.confines.fits hshared ht hws fun ho => hid ho g hg).trans
      (h.rest other id hid)

/-- A request within the footprint of a group is answered as in the view of the group. -/
theorem Shares.answer (site : String → Source τ) (h : Shares c now ids groups m₀ views s)
    (hapart : Apart ids groups) (hg : g ∈ groups) {q : Service.Request}
    (hq : c.Within (now g) g (ids g) q) :
    (answer (sites site) q s).1 = (answer (sites site) q (views g)).1 ∧
      Shares c now ids groups m₀
        (Function.update views g (answer (sites site) q (views g)).2)
        (answer (sites site) q s).2 := by
  cases q with
  | wait millis =>
    refine ⟨rfl, ?_⟩
    change Shares c now ids groups m₀ (Function.update views g (views g)) s
    rwa [Function.update_eq_self]
  | graphQl query arguments =>
    cases hq with
    | page => exact h.page site hg _
  | store r => exact h.store site hapart hg hq

/-- A program that keeps to the footprint of a group runs as in the view of the group. -/
theorem Shares.run {α : Type} {p : Program signature α} (h : Shares c now ids groups m₀ views s)
    (hapart : Apart ids groups) (hg : g ∈ groups)
    (hp : p.Meets (Catalogue.confined (sites site) c (now g) g (ids g)) (views g)
      fun _ _ => True) :
    (p.run (Service.answer (sites site)) s).1 =
        (p.run (Service.answer (sites site)) (views g)).1 ∧
      Shares c now ids groups m₀
        (Function.update views g (p.run (Service.answer (sites site)) (views g)).2)
        (p.run (Service.answer (sites site)) s).2 := by
  induction p generalizing views s with
  | done a | broken | exhausted =>
    refine ⟨rfl, ?_⟩
    change Shares c now ids groups m₀ (Function.update views g (views g)) s
    rwa [Function.update_eq_self]
  | ask q next ih =>
    obtain ⟨⟨-, hwithin⟩, hnext⟩ := hp
    obtain ⟨hreply, hshares⟩ := h.answer site hapart hg hwithin
    have hmeets := hnext (Service.answer (sites site) q (views g)).1
      (Service.answer (sites site) q (views g)).2 rfl
    have hrest := ih _ hshares (by rwa [Function.update_self])
    rw [Function.update_self, Function.update_idem] at hrest
    have hrun : ∀ s, (Program.ask q next).run (Service.answer (sites site)) s =
        (next (Service.answer (sites site) q s).1).run (Service.answer (sites site))
          (Service.answer (sites site) q s).2 := fun _ => rfl
    rw [hrun, hrun, hreply]
    exact hrest

end Requests

section Turns

variable {work : String → Work}

/-- Groups imported one after the other: the workers at their end, and the last state. -/
def inTurn {σ : Type} (handle : Handler σ) (work : String → Work) : List String → σ →
    List Worker × σ
  | [], s => ([], s)
  | g :: rest, s =>
    let (result, s) := (work g).run handle s
    let (workers, s) := inTurn handle work rest s
    (⟨g, .finished result⟩ :: workers, s)

/-- Imported one after the other, every group ends as it would alone. -/
theorem Shares.inTurn {order : List String} (h : Shares c now ids groups m₀ views s)
    (hapart : Apart ids groups) (hn : order.Nodup) (hsub : order ⊆ groups)
    (hwork : ∀ g ∈ order, (work g).Meets (Catalogue.confined (sites site) c (now g) g (ids g))
      (views g) fun _ _ => True) :
    ∃ views', Shares c now ids groups m₀ views'
        (inTurn (Service.answer (sites site)) work order s).2 ∧
      (inTurn (Service.answer (sites site)) work order s).1 = order.map (fun g =>
        ⟨g, .finished ((work g).run (Service.answer (sites site)) (views g)).1⟩) ∧
      (∀ g ∈ order, views' g = ((work g).run (Service.answer (sites site)) (views g)).2) ∧
      ∀ g ∉ order, views' g = views g := by
  induction order generalizing views s with
  | nil => exact ⟨views, h, rfl, by simp, fun _ _ => rfl⟩
  | cons g rest ih =>
    obtain ⟨hg, hn⟩ := List.nodup_cons.mp hn
    obtain ⟨hmem, hsub⟩ := List.cons_subset.mp hsub
    obtain ⟨hwork, hrest⟩ := List.forall_mem_cons.mp hwork
    obtain ⟨hresult, hshares⟩ := h.run hapart hmem hwork
    have hother : ∀ g' ∈ rest, ∀ view, Function.update views g view g' = views g' :=
      fun g' hg' view => Function.update_of_ne (ne_of_mem_of_not_mem hg' hg) view views
    obtain ⟨views', hend, hworkers, hin, hout⟩ := ih hshares hn hsub fun g' hg' => by
      rw [hother g' hg']
      exact hrest g' hg'
    refine ⟨views', hend, ?_, ?_, ?_⟩
    · change Worker.mk g (.finished _) :: (Import.inTurn _ work rest _).1 = _
      rw [hworkers, hresult, List.map_cons]
      refine congrArg _ (List.map_congr_left fun g' hg' => ?_)
      rw [hother g' hg']
    · refine List.forall_mem_cons.mpr ⟨?_, fun g' hg' => ?_⟩
      · rw [hout g hg, Function.update_self]
      · rw [hin g' hg', hother g' hg']
    · intro g' hg'
      obtain ⟨hne, hnot⟩ := not_or.mp (mt List.mem_cons.mpr hg')
      rw [hout g' hnot, Function.update_of_ne hne]

end Turns

section Steps

/-- A worker is on its way from the view of its group to where its import ends alone. -/
def Worker.Follows (site : String → Source τ) (c : Catalogue) (now : String → Instant)
    (ids : String → List String) (alone : String → Result × (Memory × (String → τ)))
    (views : String → Memory × (String → τ)) (w : Worker) : Prop :=
  match w.phase with
  | .waiting p | .working p =>
    p.Meets (Catalogue.confined (sites site) c (now w.group) w.group (ids w.group))
      (views w.group) (fun _ _ => True) ∧
    p.run (Service.answer (sites site)) (views w.group) = alone w.group
  | .finished result => alone w.group = (result, views w.group)

/-- All workers follow their imports alone, and the groups without a worker see the start. -/
structure Tracks (site : String → Source τ) (c : Catalogue) (now : String → Instant)
    (ids : String → List String) (groups order : List String) (start : Memory × (String → τ))
    (alone : String → Result × (Memory × (String → τ))) (views : String → Memory × (String → τ))
    (r : Run (Memory × (String → τ))) : Prop where
  groups_eq : r.workers.map (·.group) = order
  shares : Shares c now ids groups start.1 views r.state
  follows : ∀ w ∈ r.workers, w.Follows site c now ids alone views
  absent : ∀ g ∉ order, views g = start

variable {order : List String} {start : Memory × (String → τ)}
  {alone : String → Result × (Memory × (String → τ))} {r r' : Run (Memory × (String → τ))}

theorem Worker.Follows.update {w : Worker} (h : w.Follows site c now ids alone views)
    (hne : w.group ≠ g) (view : Memory × (String → τ)) :
    w.Follows site c now ids alone (Function.update views g view) := by
  unfold Worker.Follows
  rw [Function.update_of_ne hne]
  exact h

theorem Worker.Follows.passes {w : Worker} {phase : Phase}
    (h : w.Follows site c now ids alone views) (hp : w.phase.Passes phase) :
    Worker.Follows site c now ids alone views { w with phase := phase } := by
  obtain ⟨group, before⟩ := w
  cases hp with
  | starts => exact h
  | ends | breaks | exhausts => exact h.2.symm

/-- A new phase of one worker and a new view of its group. -/
theorem Tracks.replace (h : Tracks site c now ids groups order start alone views r)
    (hn : order.Nodup) {i : Nat} {w : Worker} {phase : Phase} (view : Memory × (String → τ))
    (hw : r.workers[i]? = some w) (hr : r'.workers = (r.setPhase i phase).workers)
    (hs : Shares c now ids groups start.1 (Function.update views w.group view) r'.state)
    (hf : Worker.Follows site c now ids alone (Function.update views w.group view)
      { w with phase := phase }) :
    Tracks site c now ids groups order start alone (Function.update views w.group view) r' := by
  have hmem : w.group ∈ order := by
    rw [← h.groups_eq]
    exact List.mem_map_of_mem (List.mem_of_getElem? hw)
  refine ⟨?_, hs, ?_, ?_⟩
  · rw [hr, r.groups_setPhase hw, h.groups_eq]
  · intro v hv
    rw [hr] at hv
    rcases r.eq_or_mem_of_mem_setPhase hw hv with rfl | ⟨hv, hne⟩
    · exact hf
    · exact (h.follows v hv).update (hne (h.groups_eq ▸ hn)) view
  · intro g hg
    rw [Function.update_of_ne (ne_of_mem_of_not_mem hmem hg).symm]
    exact h.absent g hg

section Run

variable (hapart : Apart ids groups) (hn : order.Nodup) (hsub : order ⊆ groups)

include hapart hn hsub

/-- A step of a worker is a step of its import alone, in the view of its group. -/
theorem Tracks.step (h : Tracks site c now ids groups order start alone views r) (i : Nat) :
    ∃ views', Tracks site c now ids groups order start alone views'
      (r.step (Service.answer (sites site)) i) := by
  rcases r.step_cases c (Service.answer (sites site)) i (fun _ => {}) with
    ⟨hr, -⟩ | ⟨w, phase, hw, hp, hr, hs, -⟩ | ⟨group, q, next, hw, hr, hs, -⟩
  · rw [hr]
    exact ⟨views, h⟩
  · have hf := h.follows w (List.mem_of_getElem? hw)
    refine ⟨_, h.replace hn (views w.group) hw hr ?_ ?_⟩
    · rw [Function.update_eq_self, hs]
      exact h.shares
    · rw [Function.update_eq_self]
      exact hf.passes hp
  · have hmem := List.mem_of_getElem? hw
    have hgroup : group ∈ groups := hsub (h.groups_eq ▸ List.mem_map_of_mem hmem)
    obtain ⟨⟨⟨-, hwithin⟩, hnext⟩, hrun⟩ := h.follows _ hmem
    obtain ⟨hreply, hshares⟩ := h.shares.answer site hapart hgroup hwithin
    refine ⟨_, h.replace hn _ hw hr (hs ▸ hshares) ?_⟩
    unfold Worker.Follows
    rw [hreply, Function.update_self]
    exact ⟨hnext _ _ rfl, hrun⟩

theorem Tracks.steps (h : Tracks site c now ids groups order start alone views r)
    (schedule : List Nat) :
    ∃ views', Tracks site c now ids groups order start alone views'
      (r.steps (Service.answer (sites site)) schedule) := by
  induction schedule generalizing views r with
  | nil => exact ⟨views, h⟩
  | cons i rest ih =>
    obtain ⟨views', h'⟩ := h.step hapart hn hsub i
    exact ih h'

end Run

/-- Workers that have finished have ended as their imports do alone. -/
theorem Tracks.finished (h : Tracks site c now ids groups order start alone views r)
    (hf : ∀ w ∈ r.workers, w.result?.isSome) :
    r.workers = order.map (fun g => ⟨g, .finished (alone g).1⟩) ∧
      ∀ g ∈ order, views g = (alone g).2 := by
  have hworker : ∀ w ∈ r.workers, w = ⟨w.group, .finished (alone w.group).1⟩ ∧
      views w.group = (alone w.group).2 := by
    rintro ⟨group, phase⟩ hw
    have hs := hf _ hw
    have halone := h.follows _ hw
    cases phase with
    | waiting p | working p => cases hs
    | finished result =>
      change alone group = (result, views group) at halone
      rw [halone]
      exact ⟨rfl, rfl⟩
  rw [← h.groups_eq]
  constructor
  · rw [List.map_map]
    exact (List.map_id _).symm.trans (List.map_congr_left fun w hw => (hworker w hw).1)
  · intro g hg
    obtain ⟨w, hw, rfl⟩ := List.mem_map.mp hg
    exact (hworker w hw).2

end Steps

/-- What the groups see decides about all tables. -/
theorem Shares.table_eq {views' : String → Memory × (String → τ)} {s' : Memory × (String → τ)}
    (h : Shares c now ids groups m₀ views s) (h' : Shares c now ids groups m₀ views' s')
    (hv : ∀ g ∈ groups, (views g).1.Same (views' g).1) (table : String) :
    s'.1.table table = s.1.table table := by
  refine Table.ext fun id => ?_
  by_cases hid : c.Has table ∧ ∃ g ∈ groups, id ∈ ids g
  · obtain ⟨ht, g, hg, hid⟩ := hid
    calc
      s'.1.get? table id = (views' g).1.get? table id :=
        (h'.looks g hg).agree.get?_eq table ht id hid
      _ = (views g).1.get? table id := (hv g hg).get?_eq table id
      _ = s.1.get? table id := ((h.looks g hg).agree.get?_eq table ht id hid).symm
  · have hrest : c.Has table → ∀ g ∈ groups, id ∉ ids g := fun ht g hg hmem =>
      hid ⟨ht, g, hg, hmem⟩
    exact (h'.rest table id hrest).trans (h.rest table id hrest).symm

section Ends

variable {order : List String} {start : Memory × (String → τ)}
  {alone : String → Result × (Memory × (String → τ))} {workers workers' : List Worker}
  {s' : Memory × (String → τ)}

/-- Some groups have been imported, and each has ended as it does alone. -/
structure EndsAlone (c : Catalogue) (now : String → Instant) (ids : String → List String)
    (groups order : List String) (start : Memory × (String → τ))
    (alone : String → Result × (Memory × (String → τ))) (workers : List Worker)
    (s : Memory × (String → τ)) : Prop where
  workers_eq : workers = order.map fun g => ⟨g, .finished (alone g).1⟩
  exists_views : ∃ views, Shares c now ids groups start.1 views s ∧
    (∀ g ∈ order, views g = (alone g).2) ∧ ∀ g ∉ order, views g = start

theorem Tracks.endsAlone {r : Run (Memory × (String → τ))}
    (h : Tracks site c now ids groups order start alone views r)
    (hf : ∀ w ∈ r.workers, w.result?.isSome) :
    EndsAlone c now ids groups order start alone r.workers r.state := by
  obtain ⟨hworkers, hviews⟩ := h.finished hf
  exact ⟨hworkers, views, h.shares, hviews, h.absent⟩

/-- Groups that have written nothing may be left out. -/
theorem EndsAlone.agree (h : EndsAlone c now ids groups groups start alone workers s)
    (h' : EndsAlone c now ids groups order start alone workers' s') (hn : groups.Nodup)
    (hn' : order.Nodup) (hsub : order ⊆ groups)
    (hout : ∀ g ∈ groups, g ∉ order → start.1.Same (alone g).2.1) :
    (∀ table, s.1.table table = s'.1.table table) ∧
      (workers.filter (·.group ∈ order)).Perm workers' := by
  obtain ⟨rfl, views, hshares, hin, -⟩ := h
  obtain ⟨rfl, views', hshares', hin', hout'⟩ := h'
  constructor
  · refine hshares'.table_eq hshares fun g hg => ?_
    rw [hin g hg]
    by_cases ho : g ∈ order
    · rw [hin' g ho]
      exact .refl _
    · rw [hout' g ho]
      exact hout g hg ho
  · rw [List.filter_map]
    refine List.Perm.map _ ((List.perm_ext_iff_of_nodup (hn.filter _) hn').mpr fun g => ?_)
    rw [List.mem_filter]
    simpa using fun hg => hsub hg

end Ends

end Import

end GroupCalendar
