import PmacPoll.Channel
import PmacPoll.VariableTable

/-!
# What an operation of the gateway can fail with

Failures of the link come from the channel and mean that the connection is given up. A reply of the
wrong length and an error that the controller reports leave the connection as it is.
-/

namespace PmacPoll

/-- Why an operation of the gateway failed. -/
inductive GatewayError where
  /-- No byte came in time, not even after a probe. -/
  | timeout (reason : String)
  /-- The connection was reset or closed. -/
  | transport (reason : String)
  /-- Bytes that make no sense. -/
  | protocol (reason : String)
  /-- A reply has another number of lines than its command has names. -/
  | mismatch (counts : Mismatch)
  /-- The controller reported an error. -/
  | device (code : String)
  /-- There is no connection, and nothing was sent. -/
  | disconnected
  deriving DecidableEq, Repr

namespace GatewayError

/-- The text of an error. -/
def message : GatewayError → String
  | timeout reason => "timeout: " ++ reason
  | transport reason => "transport error: " ++ reason
  | protocol reason => "protocol error: " ++ reason
  | mismatch counts => counts.message
  | device code => "device error: " ++ code
  | disconnected => "not connected"

/-- Does the error mean that the link is gone? -/
def isLinkFailure : GatewayError → Bool
  | timeout _ | transport _ | protocol _ | disconnected => true
  | mismatch _ | device _ => false

/-- The error that a failed call on the link amounts to. -/
def ofLink : LinkError → GatewayError
  | .timeout reason => timeout reason
  | .connection reason | .io reason => transport reason
  | .frame reason | .settings reason => protocol reason

end GatewayError

end PmacPoll
