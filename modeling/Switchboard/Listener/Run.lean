import Switchboard.Rpc.Service

/-!
# Running listeners

How each kind of listener behaves, and the dispatch of a packet. A listener may
dispatch in turn; `depth` bounds how deep.
-/

namespace Switchboard

/-- What a ready-made listener does with a packet; `inner` dispatches from within it. -/
def Behaviour.run (inner : String → Packet → Action Nat) (name : String) (b : Behaviour)
    (p : Packet) : Attempt Unit :=
  match b with
  | .record => return ()
  | .fail message => Attempt.failWith [message]
  | .panic => throw .panicked
  | .reply contents => contents.forM fun s => Attempt.respond p (.ofBytes s)
  | .echo => Attempt.respond p p.content
  | .replyText lead =>
    match (Source.read Reader.text p.content).1 with
    | .ok text => Attempt.respond p (.ofBytes (block (Utf8.encode (lead ++ text))))
    | .error e => Attempt.failWith e.causes
  | .forward channel => Attempt.send { channel, content := p.content }
  | .ask channel => do
    match ← Attempt.request (.ask { channel, content := p.content } .pure) with
    | .ok answer =>
      Attempt.note (.answered name answer)
      if p.isQuery then Attempt.respond p answer.content
    | .error e => Attempt.failWith e.causes
  | .close => Attempt.request (.close (.pure ()))
  | .register registry on name behaviour => do
    let _ ← Attempt.request (.register registry on (.stock name behaviour) .pure)
  | .unregister registry on id => do
    let found ← Attempt.request (.unregister registry on id .pure)
    Attempt.note (.unregistered name found)
  | .unregisterChannel registry on => do
    let count ← Attempt.request (.unregisterChannel registry on .pure)
    Attempt.note (.removed name count)
  | .dispatch registry packet => do
    let count ← Attempt.request (inner registry packet)
    Attempt.note (.dispatched name count)

/-- Hand a packet to a listener. A ready-made one notes the packet and why it failed;
no failure or panic goes beyond it. -/
def Listener.run (inner : String → Packet → Action Nat) (p : Packet) : Listener → Action Unit
  | .service => do
    let _ ← (serve p).outcome
  | .stock name behaviour => do
    Action.note (.received name p) (.pure ())
    match ← (behaviour.run inner name p).outcome with
    | .failed causes => Action.note (.failed name causes.text) (.pure ())
    | _ => return ()

/-- Dispatch a packet to the listeners of a registry and its ancestors. -/
def dispatchPacket : (depth : Nat) → (registry : String) → (p : Packet) → Action Nat
  | 0, _, _ => .pure 0
  | depth + 1, registry, p => do
    let names ← Action.chain registry .pure
    dispatch (fun name => Action.snapshot name p.channel .pure)
      (Listener.run (dispatchPacket depth) p) names

def dispatchDepth : Nat := 256

end Switchboard
