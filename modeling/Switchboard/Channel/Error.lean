import Switchboard.Frame
import Switchboard.Query.Table

/-!
# What can go wrong in using a channel
-/

namespace Switchboard

inductive ChannelError where
  | frame (error : FrameError)
  | closed
  | query (error : QueryError)
  deriving DecidableEq, Repr

namespace ChannelError

def message : ChannelError → String
  | frame error => s!"Protocol error: {error.message}"
  | closed => "Channel closed"
  | query error => s!"Query failed: {error.message}"

def causes (e : ChannelError) : Causes :=
  match e with
  | frame error => e.message :: error.causes
  | closed => [e.message]
  | query error => [e.message, error.message]

end ChannelError

end Switchboard
