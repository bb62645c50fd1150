import Switchboard.Octet.Utf8

/-!
# What can go wrong in reading a buffer

Also the text of a chain of causes: the layers of an error, outermost first.
-/

namespace Switchboard

/-- Layers of an error report, outermost first. -/
abbrev Causes := List String

def Causes.text (layers : Causes) : String :=
  ": ".intercalate layers

/-- The lower-case hexadecimal digits of `n`, without leading zeros. -/
def hexadecimal (n : Nat) : String :=
  String.ofList (Nat.toDigits 16 n)

inductive BufferError where
  /-- More octets were asked for than are unread. -/
  | underflow (needed remaining : Nat)
  | varIntTooLong
  | invalidUtf8 (fault : Utf8.Fault)
  /-- The number is no Unicode scalar value. -/
  | invalidChar (scalar : UInt32)
  /-- An object does not map to or from its octets. -/
  | object
  deriving DecidableEq, Repr

namespace BufferError

def message : BufferError → String
  | underflow needed remaining =>
    s!"Buffer underflow: needed {needed} bytes, {remaining} remaining"
  | varIntTooLong => "Variable-length integer is too long"
  | invalidUtf8 fault => s!"Invalid UTF-8 string: {fault.message}"
  | invalidChar scalar => s!"Invalid char scalar value: 0x{hexadecimal scalar.toNat}"
  | object => "Object mapping error"

/-- The message and the causes below it: ill-formed text names its fault again. -/
def causes (e : BufferError) : Causes :=
  match e with
  | invalidUtf8 fault => [e.message, fault.message]
  | _ => [e.message]

end BufferError

end Switchboard
