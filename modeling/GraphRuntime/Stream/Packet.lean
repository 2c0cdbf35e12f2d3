import GraphRuntime.Stream.Timestamp

/-!
# Packets

A packet is a shared pointer to a payload and a timestamp.  The pointer is modelled by the
identity of what it points to: all the framework asks of a payload is the name of its type
(`DebugTypeName`).  A packet without a payload is *empty*.
-/

namespace GraphRuntime.Stream

structure Packet where
  holder : Option Nat
  timestamp : Timestamp
deriving DecidableEq

namespace Packet

/-- The default constructor. -/
def empty : Packet := ⟨none, Timestamp.unset⟩

def isEmpty (p : Packet) : Bool := p.holder.isNone

/-- `Packet::At`. -/
def at' (p : Packet) (ts : Timestamp) : Packet := { p with timestamp := ts }

/-- `Packet::DebugTypeName`, when `payloadType` is what `Type().name()` says of the payloads. -/
def debugTypeName (payloadType : Nat → String) (p : Packet) : String :=
  match p.holder with
  | none => "\x7bempty\x7d"
  | some payload => payloadType payload

/-- What `std::move` leaves behind: the payload is gone, the timestamp is a
plain integer and stays. -/
def movedFrom (p : Packet) : Packet := { p with holder := none }

end Packet

end GraphRuntime.Stream
