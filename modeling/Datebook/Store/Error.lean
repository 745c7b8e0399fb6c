import Datebook.Event

/-!
# Store errors

Why a store refuses a call: the call is at fault, or the store cannot be used.
-/

namespace Datebook

/-- Why a call of an event or notification store fails. -/
inductive StoreError
  | busy
  | invalid (flaw : Event.Flaw)
  | notFound (id : String)
  | outOfRange (value : Int) (column : Nat)
  | io (reason : String)
  deriving DecidableEq

namespace StoreError

/-- The short name of the cause. -/
def code : StoreError → String
  | .busy => "DATE_BUSY"
  | .invalid _ => "INVALID_EVENT"
  | .notFound _ => "EVENT_NOT_FOUND"
  | .outOfRange _ _ => "DATABASE_ERROR"
  | .io _ => "IO_ERROR"

def message : StoreError → String
  | .busy => "time slot is already busy"
  | .invalid flaw => "invalid event data: " ++ flaw.message
  | .notFound id => "event not found: " ++ id
  | .outOfRange value column =>
    "database error: Integer " ++ toString value ++ " out of range at index " ++ toString column
  | .io reason => "I/O error: " ++ reason

end StoreError

end Datebook
