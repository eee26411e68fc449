import GroupCalendar.Cloud.Functions
import GroupCalendar.Cloud.Tables
import GroupCalendar.Service

/-! # Services in the cloud

The services of an import whose tables and whose proxy of the listing site both are in the cloud.
-/

namespace GroupCalendar.Cloud

/-- The reply to a request for a service; `proxy` is the function that is asked for listings. -/
def services [HostNames] (endpoint : Option String) (proxy : String) :
    (r : Service.Request) → Cloud (Service.Reply r)
  | .store r => Tables.answer endpoint r
  | .wait millis => wait millis
  | .graphQl query arguments => some <$> (Functions.query proxy ⟨query, arguments⟩).run

end GroupCalendar.Cloud
