import CryptoExchange.Lib.Json

/-!
# Audit events

`Event` holds the arguments of one call of `emit` (`app/audit/service.py`).
-/

namespace CryptoExchange

open Lib

/-- `Optional[int]` and the like as JSON values. -/
def jsonInt? (n : Option ℤ) : Json := (n.map Json.int).getD .null

/-- `Optional[str]` as a JSON value. -/
def jsonStr? (s : Option String) : Json := (s.map Json.str).getD .null

/-- The arguments of `emit`. -/
structure Event where
  eventType : String
  actorId : Option ℤ := none
  actorUsername : Option String := none
  targetType : Option String := none
  targetId : Option String := none
  ipAddress : Option String := none
  eventData : Option Dict := none
  severity : String := "INFO"

end CryptoExchange
