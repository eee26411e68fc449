import GroupCalendar.Listing.Walk
import GroupCalendar.Proofs.Program.Contract

/-! # Requests of a listing

Walking a listing asks for pages and for nothing else.
-/

namespace GroupCalendar

/-- A request for a GraphQL answer. -/
def Service.Request.IsGraphQl : Service.Request → Prop
  | .graphQl .. => True
  | _ => False

namespace Listing

open Service

/-- A request for a page of the events of a group. -/
def AsksFor (group : String) (r : Request) : Prop :=
  ∃ cursor, r = .graphQl pageQuery (pageVariables group cursor)

theorem fetchPage_asksFor (group : String) (cursor : Option String) :
    (fetchPage group cursor).Ensures (.only (AsksFor group)) () fun _ _ => True := by
  have hx : (Task.graphQl pageQuery (pageVariables group cursor)).Ensures
      (.only (AsksFor group)) () fun _ _ => True :=
    Task.ensures_graphQl _ ⟨cursor, rfl⟩ fun _ _ _ => trivial
  refine hx.mapError.bind ?_
  intro x _ _
  exact Task.ensures_ofExcept fun _ _ => trivial

theorem eventsFrom_asksFor (group : String) (limit : Instant) (pages : Nat)
    (cursor : Option String) :
    (eventsFrom group limit pages cursor).Ensures (.only (AsksFor group)) () fun _ _ => True := by
  induction pages generalizing cursor with
  | zero => exact Task.ensures_exhausted _ _
  | succ pages ih =>
    refine (fetchPage_asksFor group cursor).bind ?_
    intro page _ _
    split
    · exact Task.ensures_pure trivial
    · split
      · exact Task.ensures_pure trivial
      · next next _ =>
        refine (ih (some next)).bind ?_
        intro events _ _
        exact Task.ensures_pure trivial

theorem eventsFrom_graphQl (group : String) (limit : Instant) (pages : Nat)
    (cursor : Option String) :
    (eventsFrom group limit pages cursor).Ensures (.only Request.IsGraphQl) () fun _ _ => True := by
  refine (eventsFrom_asksFor group limit pages cursor).only_mono ?_
  rintro r ⟨cursor, rfl⟩
  trivial

end Listing

end GroupCalendar
