/-!
# What can go wrong on the link

The causes for which a call to the controller fails, and their wording.
-/

namespace PmacPoll

/-- Why a call on the link failed. -/
inductive LinkError where
  /-- The connection is gone or was never made. -/
  | connection (reason : String)
  /-- The operating system refused a read or a write. -/
  | io (reason : String)
  /-- No byte came in time. -/
  | timeout (reason : String)
  /-- Bytes that are not a frame. -/
  | frame (reason : String)
  /-- Settings that cannot be read. -/
  | settings (reason : String)
  deriving DecidableEq, Repr

namespace LinkError

/-- The text of an error. -/
def message : LinkError → String
  | connection reason => "connection error: " ++ reason
  | io reason => "io error: " ++ reason
  | timeout reason => "timeout: " ++ reason
  | frame reason => "frame error: " ++ reason
  | settings reason => "config parse error: " ++ reason

/-- Silence, as against a failure of the link. -/
def isTimeout : LinkError → Bool
  | timeout _ => true
  | _ => false

/-- The link itself has gone. -/
def isTransport : LinkError → Bool
  | connection _ | io _ => true
  | _ => false

end LinkError

end PmacPoll
