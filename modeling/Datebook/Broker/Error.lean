/-!
# Broker errors

Why a client of the broker fails.
-/

namespace Datebook

/-- Why a call of a broker's client fails. -/
inductive BrokerError
  | unavailable (reason : String)
  | connectFailed (attempts : Nat) (reason : String)
  | cancelled
  | notConnected
  | send (reason : String)
  deriving DecidableEq

namespace BrokerError

def message : BrokerError → String
  | .unavailable reason => "Broker unavailable: " ++ reason
  | .connectFailed attempts reason =>
    "Failed to connect after " ++ toString attempts ++ " attempts: " ++ reason
  | .cancelled => "Operation cancelled"
  | .notConnected => "Not connected"
  | .send reason => "Send failed: " ++ reason

/-- The text of the error where it ends a scheduler or an archive. -/
def wrapped (e : BrokerError) : String := "Broker error: " ++ e.message

end BrokerError

end Datebook
