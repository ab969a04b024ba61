import PmacPoll.Transport

/-!
# TCP endpoints

Where a controller listens. `Endpoint` is the transport of a connection that has not been dialled:
every call on it is refused. Dialling is the work of the program around this library.
-/

namespace PmacPoll

/-- The address of a controller. -/
structure Endpoint where
  host : String
  port : Nat := 1025
  /-- How long dialling may take. -/
  connectTimeoutMs : Nat := 5000
  deriving DecidableEq, Repr

namespace Endpoint

/-- Host and port. -/
def address (e : Endpoint) : String :=
  e.host ++ ":" ++ toString e.port

/-- What the endpoint is called. -/
def describe (e : Endpoint) : String :=
  "tcp://" ++ e.address

/-- The failure of every call on a connection that was not dialled. -/
def notConnected : LinkError :=
  .connection "not connected"

instance : Transport Endpoint where
  write _ := throw notConnected
  read _ _ := throw notConnected
  reconnect := throw notConnected
  describe := describe
  now _ := 0
  horizon _ := 0

end Endpoint

end PmacPoll
