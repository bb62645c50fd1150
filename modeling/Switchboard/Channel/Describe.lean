import Switchboard.Channel.Basic

/-!
# The text of a channel

Its identity and whether it is active, on one line.
-/

namespace Switchboard

/-- A record in braces: its name and its fields. -/
def recordText (name : String) (fields : List (String × String)) : String :=
  name ++ " \x7b " ++ ", ".intercalate (fields.map fun (k, v) => k ++ ": " ++ v) ++ " \x7d"

def flagText (b : Bool) : String := if b then "true" else "false"

def ChannelInfo.text (i : ChannelInfo) : String :=
  recordText "ChannelInfo" [("id", toString i.id), ("local_addr", i.localAddress),
    ("remote_addr", i.remoteAddress), ("client_provided", flagText i.clientProvided)]

def Channel.text (c : Channel) : String :=
  recordText "NetworkChannel" [("info", c.info.text), ("active", flagText c.active)]

end Switchboard
