/-
# LocalPlatform.Relay.Kafka — messages, and what the writer refuses.

A message's key and value are Go slices, so each can be nil; a fetched message also says where it was.
The writer refuses a message on its own account only for its size.
-/
import LocalPlatform.Codec.Time

namespace LocalPlatform.Relay.Kafka

open Codec

/-- A message as `kafka.Reader` returns it; `none` is a nil slice. -/
structure Message where
  topic : Bytes
  partition : Nat
  offset : Nat
  key : Option Bytes
  value : Option Bytes
  time : Time
  deriving DecidableEq, Repr

/-- A message handed to `kafka.Writer`. -/
structure Outgoing where
  key : Bytes
  value : Bytes
  deriving DecidableEq, Repr

/-- What the writer counts besides the key and the value. -/
def framing : Nat := 23

def Outgoing.size (m : Outgoing) : Nat := m.key.length + m.value.length + framing

/-- **A writer with this batch limit takes the message.** -/
def Outgoing.fits (limit : Nat) (m : Outgoing) : Bool := m.size ≤ limit

end LocalPlatform.Relay.Kafka
