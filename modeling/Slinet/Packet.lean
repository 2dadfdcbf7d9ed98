/-
# Packets, their codecs and what can go wrong with them

The errors of `src/protocols/packet.rs`, the drop reasons of
`src/protocols/transport.rs`, and the packet codec of
`src/serializers/serializer.rs`: a codec with connection-local state, of which
the read-only codecs are the ones that do not use it.
-/
import Slinet.LengthCodec

namespace Slinet

/-- The `io::ErrorKind`s the crate names, and any other. -/
inductive ErrorKind
  | connectionAborted
  | connectionReset
  | connectionRefused
  | writeZero
  | unexpectedEof
  | invalidData
  | wouldBlock
  | brokenPipe
  | other
  | kind (code : ℕ)
  deriving DecidableEq, Repr

structure IoError where
  kind : ErrorKind
  message : String
  deriving DecidableEq, Repr

/-- Why reception stopped. -/
inductive ReceiveError (D L : Type*)
  | io (error : IoError)
  | deserialization (error : D)
  | lengthDeserialization (error : L)
  | packetTooBig
  | noConnection (error : IoError)
  | intentionalDisconnection
  deriving DecidableEq, Repr

/-- A packet discarded by a queue or by a closing connection. -/
inductive QueueDropReason
  | outgoingQueueFull
  | outgoingQueueEvicted
  | receiveQueueFull
  | receiveQueueEvicted
  | closedBeforeDelivery
  deriving DecidableEq, Repr

/-- A packet codec with state `σ`, encoding `S` and decoding `R`. A call runs
under the lock of its adapter, so calls of the two tasks that share it are in
some order. -/
structure Serializer (t : Target) (σ R S EncErr DecErr : Type*) where
  serialize : σ → S → Except EncErr (Bytes t) × σ
  deserialize : σ → List UInt8 → Except DecErr R × σ

/-- A codec without state. -/
def Serializer.readOnly {t : Target} {R S EncErr DecErr : Type*}
    (serialize : S → Except EncErr (Bytes t)) (deserialize : List UInt8 → Except DecErr R) :
    Serializer t Unit R S EncErr DecErr where
  serialize _ packet := (serialize packet, ())
  deserialize _ data := (deserialize data, ())

end Slinet
