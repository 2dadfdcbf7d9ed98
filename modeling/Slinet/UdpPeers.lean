/-
# The peers of a UDP listener

`UdpNetworkListener` (`src/protocols/udp/listener.rs`) routes datagrams to
sessions by their source address. The table of peers is behind a lock that
`dispatch` holds throughout; a slot of the semaphore stands behind every
session; a session is a raw queue, a flag that says it is closed, and its owner:
the stream that `accept` returned, later its read half
(`src/protocols/udp/stream.rs`), in the end the drop of the one or the other.

The drops are lists of steps, in the order in which the fields of the source's
structures are dropped, and all steps of a session that need no lock can come
between the steps of a dispatch. `UdpPeers.step` is the machine; what it keeps
is the subject of `UdpTable` and `UdpRouting`.
-/
import Mathlib.Data.List.AList
import Slinet.Lossy

namespace Slinet

abbrev Datagram := List UInt8

def maxDatagramSize : ℕ := 65507

/-- Why a received datagram was not delivered. -/
inductive RawDrop
  | rawQueueFull
  | rawQueueEvicted
  | receiveLimit
  | malformedPayload
  | closedBeforeDelivery
  deriving DecidableEq, Repr

/-- The options that `dispatch` reads. -/
structure UdpOptions where
  maxPeers : ℕ
  receiveQueueCapacity : ℕ
  receiveQueueBytes : ℕ
  receiveQueueOverflow : OverflowPolicy
  deriving DecidableEq, Repr

def UdpOptions.limits (o : UdpOptions) : Lossy.Limits :=
  ⟨o.receiveQueueCapacity, o.receiveQueueBytes, o.receiveQueueOverflow⟩

/-- The steps of a session's drop: `PeerState::close` of the read half, the
counted drain of `TrackedIncoming`, the drain of `LossyReceiver` that follows
it, and of the registration the removal from the table, the cancellation and
the release of the slot. -/
inductive DropStep
  | close
  | drain
  | count (datagram : Datagram)
  | inner
  | unregister
  | cancel
  | release
  deriving DecidableEq, Repr

/-- A call of `receive`: not polled, past the test of the peer, or with the
datagram it took. -/
inductive Receiving
  | idle
  | polled
  | hand (datagram : Datagram)
  deriving DecidableEq, Repr

/-- Who owns the session's queue and registration. -/
inductive Owner
  | stream
  | reading (r : Receiving)
  | dropping (todo : List DropStep)
  deriving DecidableEq, Repr

/-- The drop of a `UdpServerStream`, whose registration is its first field. -/
def dropStream : List DropStep := [.unregister, .cancel, .release, .drain, .inner]

/-- The drop of a `UdpReadHalf`, whose registration is dropped after the queue. -/
def dropRead : List DropStep := [.close, .drain, .inner, .unregister, .cancel, .release]

/-- What is still to be dropped. -/
def Owner.todo : Owner → List DropStep
  | stream => dropStream
  | reading _ => dropRead
  | dropping todo => todo

/-- A datagram counted as received: where it came from, and the table's entry
for that address at the time. -/
structure Arrival (Addr : Type*) where
  address : Addr
  current : Option ℕ
  bytes : Datagram

/-- A session, with what its handle has counted: the datagrams received, those
dropped, and beside them those returned by `receive` and those lost without a
record. -/
structure Session (q : Lossy.Limits) (Addr : Type*) where
  address : Addr
  closed : Bool
  queue : Lossy.Queue q Datagram
  owner : Owner
  created : Datagram
  received : List (Arrival Addr)
  returned : List Datagram
  drops : List (RawDrop × Datagram)
  lost : List Datagram

namespace Session

variable {q : Lossy.Limits} {Addr : Type*}

/-- The drop of the registration has not begun. -/
def Registered (p : Session q Addr) : Bool := .unregister ∈ p.owner.todo

/-- The slot is not back. -/
def HoldsSlot (p : Session q Addr) : Bool := .release ∈ p.owner.todo

/-- The session that a datagram creates, which is in its queue already. -/
def accepted (address : Addr) (current : Option ℕ) (bytes : Datagram)
    (queue : Lossy.Queue q Datagram) : Session q Addr where
  address := address
  closed := false
  queue := queue
  owner := .stream
  created := bytes
  received := [⟨address, current, bytes⟩]
  returned := []
  drops := []
  lost := []

def drop (p : Session q Addr) (reason : RawDrop) (datagram : Datagram) : Session q Addr :=
  { p with drops := p.drops ++ [(reason, datagram)] }

/-- A datagram for the session is counted as received. -/
def arrive (p : Session q Addr) (a : Arrival Addr) : Session q Addr :=
  { p with received := p.received ++ [a] }

/-- `try_send` of `Peer::push`, with its counts. -/
def push (p : Session q Addr) (datagram : Datagram) : Session q Addr :=
  match p.queue.trySend datagram datagram.length with
  | (.ok evicted, queue) =>
    { p with queue := queue, drops := p.drops ++ evicted.map (Prod.mk .rawQueueEvicted) }
  | (.error (.full _), queue) => { p.drop .rawQueueFull datagram with queue := queue }
  | (.error (.closed _), queue) => { p.drop .closedBeforeDelivery datagram with queue := queue }

/-- The poll of `receive`, with the peer first. -/
def poll (p : Session q Addr) : Session q Addr :=
  match p.owner with
  | .reading .idle => if p.closed then p else { p with owner := .reading .polled }
  | _ => p

/-- The poll goes on to `Incoming::next`: a datagram, the end of the queue, on
which the read half closes the peer, or nothing yet. -/
def next (p : Session q Addr) : Session q Addr :=
  match p.owner with
  | .reading .polled =>
    match p.queue.tryRecv with
    | (.ok datagram, queue) => { p with queue := queue, owner := .reading (.hand datagram) }
    | (.error .disconnected, queue) => { p with queue := queue, closed := true, owner := .reading .idle }
    | (.error .empty, queue) => { p with queue := queue, owner := .reading .idle }
  | _ => p

/-- What `receive` does with the datagram under the limit of the moment, when
the codec accepts it and when it does not. -/
def decode (p : Session q Addr) (limit : ℕ) (decodes : Bool) : Session q Addr :=
  match p.owner with
  | .reading (.hand datagram) =>
    let p := { p with owner := .reading .idle }
    if datagram.length > maxDatagramSize then p.drop .receiveLimit datagram
    else if datagram.length > limit then p.drop .receiveLimit datagram
    else if decodes then { p with returned := p.returned ++ [datagram] }
    else p.drop .malformedPayload datagram
  | _ => p

/-- `PacketReader::close`, between two calls of `receive`. -/
def close (p : Session q Addr) : Session q Addr :=
  match p.owner with
  | .reading .idle => { p with closed := true }
  | _ => p

def split (p : Session q Addr) : Session q Addr :=
  match p.owner with
  | .stream => { p with owner := .reading .idle }
  | _ => p

/-- The owner is dropped; a pending `receive` goes with the read half. -/
def dropOwner (p : Session q Addr) : Session q Addr :=
  match p.owner with
  | .stream => { p with owner := .dropping dropStream }
  | .reading .idle => { p with owner := .dropping dropRead }
  | _ => p

def proceed (p : Session q Addr) (rest : List DropStep) : Session q Addr :=
  { p with owner := .dropping rest }

/-- A step of the drop that needs neither the table nor the slots. -/
def dropLocal (p : Session q Addr) (d : DropStep) (rest : List DropStep) : Session q Addr :=
  match d with
  | .close => { p.proceed rest with closed := true }
  | .drain =>
    { p with
      queue := p.queue.closeAndDrain.2
      owner := .dropping (p.queue.closeAndDrain.1.map .count ++ rest) }
  | .count datagram => (p.drop .closedBeforeDelivery datagram).proceed rest
  | .inner =>
    { p with
      queue := p.queue.closeAndDrain.2
      lost := p.lost ++ p.queue.closeAndDrain.1
      owner := .dropping rest }
  | .cancel => { p.proceed rest with closed := true }
  | _ => p.proceed rest

/-- The listener's `Peer` is dropped. -/
def dropSender (p : Session q Addr) : Session q Addr := { p with queue := p.queue.dropSender }

end Session

/-- A dispatch to an open session, under the lock: before `is_closed` of
`Peer::push`, or before its `try_send`. -/
inductive Push
  | checking (session : ℕ) (datagram : Datagram)
  | sending (session : ℕ) (datagram : Datagram)

/-- The listener and the sessions it has created, in the order of creation. -/
structure UdpPeers (o : UdpOptions) (Addr : Type*) where
  alive : Bool
  table : AList fun _ : Addr => ℕ
  free : ℕ
  sessions : List (Session o.limits Addr)
  dispatching : Option Push

namespace UdpPeers

variable {o : UdpOptions} {Addr : Type*}

def new (o : UdpOptions) (Addr : Type*) : UdpPeers o Addr := ⟨true, ∅, o.maxPeers, [], none⟩

def update (s : UdpPeers o Addr) (i : ℕ) (f : Session o.limits Addr → Session o.limits Addr) :
    UdpPeers o Addr :=
  { s with sessions := s.sessions.modify i f }

/-- The lock is held by a push to an open session, or is free. -/
def lock (s : UdpPeers o Addr) (d : Option Push) : UdpPeers o Addr := { s with dispatching := d }

variable [DecidableEq Addr]

/-- The table's entry for the address, if it is not closed. -/
def open? (s : UdpPeers o Addr) (address : Addr) : Option ℕ :=
  match s.table.lookup address with
  | some i =>
    match s.sessions[i]? with
    | some p => if p.closed then none else some i
    | none => none
  | none => none

/-- The end of `dispatch`: a slot, a queue with the datagram in it, and an entry
in the table, in place of a closed one. -/
def accept (s : UdpPeers o Addr) (bytes : Datagram) (address : Addr) : UdpPeers o Addr :=
  if s.free = 0 then s
  else
    match (Lossy.Queue.new : Lossy.Queue o.limits Datagram).trySend bytes bytes.length with
    | (.error _, _) => s
    | (.ok _, queue) =>
      let old := match s.table.lookup address with
        | some k => s.sessions.modify k Session.dropSender
        | none => s.sessions
      let table := s.table.insert address s.sessions.length
      { s with
        free := s.free - 1
        table := table
        sessions := old ++ [.accepted address (table.lookup address) bytes queue] }

/-- `dispatch`, up to the push to an open session. -/
def dispatch (s : UdpPeers o Addr) (bytes : Datagram) (address : Addr) : UdpPeers o Addr :=
  if s.alive = false ∨ s.dispatching.isSome then s
  else if bytes.length > maxDatagramSize then s
  else
    match s.open? address with
    | some i =>
      (s.update i fun p => p.arrive ⟨address, s.table.lookup address, bytes⟩).lock
        (some (.checking i bytes))
    | none =>
      if o.receiveQueueCapacity = 0 ∨ bytes.length > o.receiveQueueBytes then s
      else s.accept bytes address

/-- The push of the dispatch takes its next step. -/
def push (s : UdpPeers o Addr) : UdpPeers o Addr :=
  match s.dispatching with
  | none => s
  | some (.checking i datagram) =>
    match s.sessions[i]? with
    | none => s
    | some p =>
      if p.closed then (s.update i fun p => p.drop .closedBeforeDelivery datagram).lock none
      else s.lock (some (.sending i datagram))
  | some (.sending i datagram) => (s.update i fun p => p.push datagram).lock none

/-- The drop of session `i` takes its next step. The removal from the table
waits for the lock, and finds no table when the listener is gone; the entry
goes only if it is the session's own. -/
def dropStep (s : UdpPeers o Addr) (i : ℕ) : UdpPeers o Addr :=
  match s.sessions[i]? with
  | none => s
  | some p =>
    match p.owner with
    | .dropping (.unregister :: rest) =>
      if s.dispatching.isSome then s
      else if s.alive ∧ s.table.lookup p.address = some i then
        { s with table := s.table.erase p.address }.update i fun p => p.dropSender.proceed rest
      else s.update i fun p => p.proceed rest
    | .dropping (.release :: rest) =>
      { s with free := s.free + 1 }.update i fun p => p.proceed rest
    | .dropping (d :: rest) => s.update i fun p => p.dropLocal d rest
    | _ => s

/-- The drop of the listener closes the sessions of its table and empties it. -/
def dropListener (s : UdpPeers o Addr) : UdpPeers o Addr :=
  if s.alive = false ∨ s.dispatching.isSome then s
  else
    { s with
      alive := false
      table := ∅
      sessions := s.sessions.mapIdx fun i p =>
        if s.table.entries.any (fun e => e.2 = i) then { p.dropSender with closed := true } else p }

inductive Act (Addr : Type*)
  | dispatch (bytes : Datagram) (address : Addr)
  | push
  | split (i : ℕ)
  | poll (i : ℕ)
  | next (i : ℕ)
  | decode (i : ℕ) (limit : ℕ) (decodes : Bool)
  | close (i : ℕ)
  | dropOwner (i : ℕ)
  | dropStep (i : ℕ)
  /-- A write half holds nothing of the session but its counters. -/
  | dropWrite (i : ℕ)
  | dropListener

def step (s : UdpPeers o Addr) : Act Addr → UdpPeers o Addr
  | .dispatch bytes address => s.dispatch bytes address
  | .push => s.push
  | .split i => s.update i Session.split
  | .poll i => s.update i Session.poll
  | .next i => s.update i Session.next
  | .decode i limit decodes => s.update i fun p => p.decode limit decodes
  | .close i => s.update i Session.close
  | .dropOwner i => s.update i Session.dropOwner
  | .dropStep i => s.dropStep i
  | .dropWrite _ => s
  | .dropListener => s.dropListener

end UdpPeers
end Slinet
