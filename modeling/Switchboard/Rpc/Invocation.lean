import Switchboard.Buffer.Value
import Switchboard.Rpc.Error

/-!
# Invocations and replies on the wire

An invocation is the target, the method, a flag whether a result is awaited, a count,
and each argument as a nested buffer. A reply is a flag and either the result as a
nested buffer or a description of the failure.
-/

namespace Switchboard

structure Invocation where
  target : String
  method : String
  expectsResult : Bool := true
  arguments : List Buffer := []
  deriving DecidableEq, Repr

namespace Invocation

/-- Target and method, as descriptions of failures name them. -/
def name (i : Invocation) : String := i.target ++ "#" ++ i.method

def push (i : Invocation) (v : Typed) : Invocation :=
  { i with arguments := i.arguments ++ [Buffer.ofBytes v.encode] }

/-- Invocations alike but for octets of their arguments that were read already. -/
def agrees (i j : Invocation) : Bool :=
  i.target == j.target && i.method == j.method && i.expectsResult == j.expectsResult &&
    i.arguments.map Buffer.unread == j.arguments.map Buffer.unread

def encode (i : Invocation) : List UInt8 :=
  block (Utf8.encode i.target) ++ block (Utf8.encode i.method) ++ Ty.bool.encode i.expectsResult ++
    lengthPrefix i.arguments.length ++ i.arguments.flatMap fun b => block b.unread

/-- The reader of an invocation. Each argument takes an octet at least, so a count
beyond the unread octets is refused at once. -/
def reader : Reader Invocation := do
  let target ← Reader.text
  let method ← Reader.text
  let expectsResult ← Reader.bool
  let count ← Reader.varInt
  Reader.ensure count.toNat
  let arguments ← Reader.times count.toNat Reader.buffer
  return { target, method, expectsResult, arguments }

end Invocation

/-- A reply to an invocation. -/
inductive Reply where
  | success (result : Buffer)
  | failure (description : String)
  deriving DecidableEq, Repr

namespace Reply

def ofOutcome : Except String Buffer → Reply
  | .ok result => success result
  | .error description => failure description

def encode : Reply → List UInt8
  | success result => Ty.bool.encode true ++ block result.unread
  | failure description => Ty.bool.encode false ++ block (Utf8.encode description)

def reader : Reader Reply := do
  if ← Reader.bool then return success (← Reader.buffer)
  else return failure (← Reader.text)

def result : Reply → Except RpcError Buffer
  | success result => .ok result
  | failure description => .error (.remote description)

/-- The value that the content of a response carries for its caller. -/
def value (t : Ty) (content : Buffer) : Except RpcError t.Value :=
  match (Source.read reader content).1 with
  | .error e => .error (.buffer e)
  | .ok reply =>
    match reply.result with
    | .error e => .error e
    | .ok result =>
      match (Source.read t.reader result).1 with
      | .ok v => .ok v
      | .error e => .error (.buffer e)

end Reply

end Switchboard
