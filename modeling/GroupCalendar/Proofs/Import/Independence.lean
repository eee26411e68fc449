import GroupCalendar.Proofs.Import.Views

/-! # Independent groups

Groups are independent if each lists events of its own and no id that is upcoming or listed for one
of them is so for another. In whatever way their imports are interleaved, the tables and the results
are those of imports one after the other, in any order, and a group whose import fails may as well
be left out.
-/

namespace GroupCalendar.Import

open Store Service

section Definitions

variable {ω : Type}

/-- The import of a group, with the time that its clock shows. -/
def groupWork (c : Catalogue) (pages : Nat) (now : String → Instant) (limit : Instant)
    (group : String) : Work :=
  (importGroup c pages (now group) limit group).run

/-- The events that are fetched for a group; there are none if the fetch fails or breaks off. -/
def fetched (source : Source ω) (pages : Nat) (limit : Instant) (s : Memory × ω)
    (group : String) : List Event :=
  ((Listing.eventsUntil pages group limit).run.run (answer source) s).1.value?.getD []

/-- The ids that are stored as upcoming for a group or fetched for it. -/
def footprint (c : Catalogue) (source : Source ω) (pages : Nat) (now : String → Instant)
    (limit : Instant) (s : Memory × ω) (group : String) : List String :=
  c.upcomingIds s.1 (now group) group ++ (fetched source pages limit s group).map (·.id)

/-- What is fetched for a group is of the group, and no id of its footprint is in another one. -/
structure Independent (c : Catalogue) (source : Source ω) (pages : Nat) (now : String → Instant)
    (limit : Instant) (groups : List String) (s : Memory × ω) : Prop where
  own : ∀ g ∈ groups, ∀ e ∈ fetched source pages limit s g, e.groupId = g
  apart : Apart (footprint c source pages now limit s) groups

end Definitions

variable {τ : Type} {site : String → Source τ} {c : Catalogue} {pages : Nat}
  {now : String → Instant} {limit : Instant} {groups order : List String} {m : Memory}
  {w : String → τ}

theorem confines_footprint {ω : Type} (hc : c.Fits m.schema) (hi : c.IndexIn m.schema)
    (hk : m.Keyed) (hq : m.Quiet) (source : Source ω) (w : ω) (g : String) :
    c.Confines (now g) g (footprint c source pages now limit (m, w) g) m :=
  ⟨hc, hi, hk, hq, List.subset_append_left _ _⟩

section Alone

variable {ω : Type} {source : Source ω} {w : ω} {g : String} (hc : c.Fits m.schema)
  (hi : c.IndexIn m.schema) (hk : m.Keyed)
  (hs : ∀ item ∈ m.items c.live, Fields.Sorted item) (hq : m.Quiet)
  (hown : ∀ e ∈ fetched source pages limit (m, w) g, e.groupId = g)

include hown in
theorem mem_footprint {incoming : List Event} {s : Memory × ω}
    (h : (Listing.eventsUntil pages g limit).run.run (answer source) (m, w) =
      (.done (.ok incoming), s)) :
    ∀ e ∈ incoming, e.id ∈ footprint c source pages now limit (m, w) g ∧ e.groupId = g := by
  have hf : fetched source pages limit (m, w) g = incoming := by
    unfold fetched
    rw [h]
    rfl
  rw [hf] at hown
  intro e he
  refine ⟨List.mem_append_right _ ?_, hown e he⟩
  rw [hf]
  exact List.mem_map_of_mem he

include hc hi hk hs hq hown

theorem groupWork_meets :
    (groupWork c pages now limit g).Meets
      (Catalogue.confined source c (now g) g (footprint c source pages now limit (m, w) g)) (m, w)
      fun _ _ => True := by
  have h : (importGroup c pages (now g) limit g).Ensures _ (m, w) _ :=
    importGroup_confined (confines_footprint hc hi hk hq source w g) hs
      fun _ _ => mem_footprint hown
  exact Program.Meets.mono h fun _ _ _ => trivial

theorem groupWork_same
    (hv : ((groupWork c pages now limit g).run (answer source) (m, w)).1.value? = none) :
    m.Same ((groupWork c pages now limit g).run (answer source) (m, w)).2.1 := by
  rcases importGroup_allOrNothing (confines_footprint hc hi hk hq source w g) hs
    fun _ _ => mem_footprint hown with h | h
  · have hn : ((importGroup c pages (now g) limit g).run.run (answer source) (m, w)).1.value? =
        none := hv
    rw [hn] at h
    cases h
  · exact h

end Alone

section Commute

variable (hc : c.Fits m.schema) (hi : c.IndexIn m.schema) (hk : m.Keyed)
  (hs : ∀ item ∈ m.items c.live, Fields.Sorted item) (hq : m.Quiet)
  (hn : groups.Nodup) (h : Independent c (sites site) pages now limit groups (m, w))

/-- Where the import of a group alone ends. -/
def groupAlone (c : Catalogue) (site : String → Source τ) (pages : Nat) (now : String → Instant)
    (limit : Instant) (s : Memory × (String → τ)) (g : String) : Result × (Memory × (String → τ)) :=
  (groupWork c pages now limit g).run (answer (sites site)) s

include hc hi hk hq in
theorem shares_start :
    Shares c now (footprint c (sites site) pages now limit (m, w)) groups m (fun _ => (m, w))
      (m, w) where
  looks g _ :=
    have hg := confines_footprint hc hi hk hq (sites site) w g
    ⟨hg, hg, .refl c _ m, rfl⟩
  rest _ _ _ := rfl

include hc hi hk hs hq h

/-- However the workers of independent groups are interleaved, each ends as it would alone. -/
theorem steps_endsAlone (hn' : order.Nodup) (hsub : order ⊆ groups) {schedule : List Nat}
    (hf : ∀ v ∈ ((Run.start (groupWork c pages now limit) order (m, w)).steps
      (answer (sites site)) schedule).workers, v.result?.isSome) :
    EndsAlone c now (footprint c (sites site) pages now limit (m, w)) groups order (m, w)
      (groupAlone c site pages now limit (m, w))
      ((Run.start (groupWork c pages now limit) order (m, w)).steps (answer (sites site))
        schedule).workers
      ((Run.start (groupWork c pages now limit) order (m, w)).steps (answer (sites site))
        schedule).state := by
  have hstart : Tracks site c now (footprint c (sites site) pages now limit (m, w)) groups order
      (m, w) (groupAlone c site pages now limit (m, w)) (fun _ => (m, w))
      (Run.start (groupWork c pages now limit) order (m, w)) := by
    refine ⟨(List.map_map ..).trans (List.map_id _), shares_start hc hi hk hq, ?_, fun _ _ => rfl⟩
    intro v hv
    obtain ⟨g, hg, rfl⟩ := List.mem_map.mp hv
    exact ⟨groupWork_meets hc hi hk hs hq (h.own g (hsub hg)), rfl⟩
  obtain ⟨views, htracks⟩ := hstart.steps h.apart hn' hsub schedule
  exact htracks.endsAlone hf

/-- Imported one after the other, independent groups end as they would alone. -/
theorem inTurn_endsAlone (hn' : order.Nodup) (hsub : order ⊆ groups) :
    EndsAlone c now (footprint c (sites site) pages now limit (m, w)) groups order (m, w)
      (groupAlone c site pages now limit (m, w))
      (inTurn (answer (sites site)) (groupWork c pages now limit) order (m, w)).1
      (inTurn (answer (sites site)) (groupWork c pages now limit) order (m, w)).2 := by
  obtain ⟨views, hshares, hworkers, hin, hout⟩ := (shares_start hc hi hk hq).inTurn h.apart hn' hsub
    fun g hg => groupWork_meets hc hi hk hs hq (h.own g (hsub hg))
  exact ⟨hworkers, views, hshares, hin, hout⟩

include hn in
/-- However the imports of independent groups are interleaved, the tables and the results of the
groups are those of imports one after the other in any order, and those of any other interleaving.
Groups whose imports fail may be left out there. -/
theorem independent_groups_commute {schedule : List Nat}
    (hf : ∀ v ∈ ((Run.start (groupWork c pages now limit) groups (m, w)).steps
      (answer (sites site)) schedule).workers, v.result?.isSome)
    (hn' : order.Nodup) (hsub : order ⊆ groups)
    (hout : ∀ g ∈ groups, g ∉ order →
      ((groupWork c pages now limit g).run (answer (sites site)) (m, w)).1.value? = none) :
    let r := (Run.start (groupWork c pages now limit) groups (m, w)).steps
      (answer (sites site)) schedule
    let turns := inTurn (answer (sites site)) (groupWork c pages now limit) order (m, w)
    ((∀ table, r.state.1.table table = turns.2.1.table table) ∧
      (r.workers.filter (·.group ∈ order)).Perm turns.1) ∧
    ∀ schedule',
      let r' := (Run.start (groupWork c pages now limit) order (m, w)).steps
        (answer (sites site)) schedule'
      (∀ v ∈ r'.workers, v.result?.isSome) →
        (∀ table, r.state.1.table table = r'.state.1.table table) ∧
          (r.workers.filter (·.group ∈ order)).Perm r'.workers := by
  intro r turns
  have hwrote : ∀ g ∈ groups, g ∉ order →
      m.Same (groupAlone c site pages now limit (m, w) g).2.1 := fun g hg ho =>
    groupWork_same hc hi hk hs hq (h.own g hg) (hout g hg ho)
  have hall := steps_endsAlone hc hi hk hs hq h hn (List.Subset.refl _) hf
  constructor
  · exact hall.agree (inTurn_endsAlone hc hi hk hs hq h hn' hsub) hn hn' hsub hwrote
  · intro schedule' r' hf'
    exact hall.agree (steps_endsAlone hc hi hk hs hq h hn' hsub hf') hn hn' hsub hwrote

end Commute

section Sample

/-- Group `a` lists the id of an undated event of group `d`, group `b` changes its coming event, and
the listing of group `c` breaks off. -/
def apartSite (group : String) : Source Unit :=
  if group = "a" then sampleSite fun _ _ =>
    sampleAnswer [sampleEdge "taken" "a" "2025-06-01T10:00+00:00"] ""
  else if group = "b" then sampleSite fun _ _ =>
    sampleAnswer [sampleEdge "moved" "b" "2025-07-01T10:00+00:00"] ""
  else fun _ _ w => (none, w)

/-- A coming event of each group, and an undated one of a group that is not imported. -/
def apartMemory : Memory :=
  sampleMemory [sampleItem "gone" "a" "2025-05-01T10:00:00Z",
    sampleItem "moved" "b" "2025-05-02T10:00:00Z", sampleItem "left" "c" "2025-05-03T10:00:00Z",
    [("groupId", .text "d"), ("id", .text "taken")]] {}

def apartStart (groups : List String) : Run (Memory × (String → Unit)) :=
  .start (groupWork sampleCatalogue 1 (fun _ => sampleNow) (cutoff sampleNow)) groups
    (apartMemory, fun _ => ())

/-- The workers take turns at every request. -/
def apartSchedule : List Nat := (List.range 36).map (· % 3)

theorem independent_groups_commute_sample :
    let r := (apartStart ["a", "b", "c"]).steps (answer (sites apartSite)) apartSchedule
    let turns := inTurn (answer (sites apartSite))
      (groupWork sampleCatalogue 1 (fun _ => sampleNow) (cutoff sampleNow)) ["b", "a"]
      (apartMemory, fun _ => ())
    ((r.state.1.get? "archive" "gone").isSome ∧ (r.state.1.get? "live" "left").isSome) ∧
      (∀ table, r.state.1.table table = turns.2.1.table table) ∧
      (r.workers.filter (·.group ∈ ["b", "a"])).Perm turns.1 := by
  have hc : sampleCatalogue.Fits apartMemory.schema := ⟨rfl, rfl, by decide⟩
  have hi : sampleCatalogue.IndexIn apartMemory.schema := rfl
  have hs : ∀ item ∈ apartMemory.items sampleCatalogue.live, Fields.Sorted item := by
    decide +kernel
  have hown : ∀ g ∈ ["a", "b", "c"], ∀ e ∈ fetched (sites apartSite) 1 (cutoff sampleNow)
      (apartMemory, fun _ => ()) g, e.groupId = g := by decide +kernel
  have hapart : ∀ g ∈ ["a", "b", "c"], ∀ g' ∈ ["a", "b", "c"], g ≠ g' →
      ∀ id ∈ footprint sampleCatalogue (sites apartSite) 1 (fun _ => sampleNow) (cutoff sampleNow)
        (apartMemory, fun _ => ()) g,
      id ∉ footprint sampleCatalogue (sites apartSite) 1 (fun _ => sampleNow) (cutoff sampleNow)
        (apartMemory, fun _ => ()) g' := by decide +kernel
  have hf : ∀ v ∈ ((apartStart ["a", "b", "c"]).steps (answer (sites apartSite))
      apartSchedule).workers, v.result?.isSome := by decide +kernel
  have hout : ∀ g ∈ ["a", "b", "c"], g ∉ ["b", "a"] →
      ((groupWork sampleCatalogue 1 (fun _ => sampleNow) (cutoff sampleNow) g).run
        (answer (sites apartSite)) (apartMemory, fun _ => ())).1.value? = none := by
    decide +kernel
  obtain ⟨hturns, -⟩ := independent_groups_commute hc hi (keyed_sampleMemory _ _) hs rfl (by decide)
    ⟨hown, hapart⟩ hf (by decide) (by decide) hout
  refine ⟨by decide +kernel, ?_⟩
  unfold apartStart
  exact hturns

end Sample

end GroupCalendar.Import
