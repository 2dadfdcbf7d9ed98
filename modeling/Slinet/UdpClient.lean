/-
# A UDP client and what it receives

The other direction of `Slinet.UdpNetwork`: connections of servers, each with the
writer of `Slinet.UdpSend`, send to the addresses of a client plugin's
connections. A client's connection has a socket of its own, connected to its
server, and no listener: `UdpReadHalf` reads from the socket itself
(`Incoming::Socket` of `src/protocols/udp/stream.rs`). An error that only says
that an earlier datagram was not welcome is retried, after a yield at which the
connection's token is looked at; any other error closes the peer, and the reader
ends with it. So does the end of the task `receive_packets`, which closes the
read half and then drops it.

The buffer is longer than the longest datagram that is let through, so a datagram
that the socket has cut off is never decoded. Every datagram that a socket
returned is counted and has one fate, in order (`SocketHalf.Good`), and no reader
ends because of a retried error or finds its own peer closed (`Good.errors`); the
result is `answers_delivered`.
-/
import Slinet.UdpNetwork

namespace Slinet

/-- What is kept of the elements of a list, in order. -/
theorem filterMap_sublist_map {α β : Type*} {f : α → Option β} {g : α → β} :
    ∀ {l : List α}, (∀ x ∈ l, f x = none ∨ f x = some (g x)) → (l.filterMap f).Sublist (l.map g)
  | [], _ => List.Sublist.refl _
  | x :: l, h => by
    have ih := filterMap_sublist_map fun y hy => h y (List.mem_cons_of_mem x hy)
    rcases h x List.mem_cons_self with hx | hx
    · rw [List.filterMap_cons_none hx]
      exact ih.cons _
    · rw [List.filterMap_cons_some hx]
      exact ih.cons_cons _

/-- `BUFFER_SIZE`. -/
def bufferSize : ℕ := 65535

/-- The answer to an earlier datagram, which says nothing about the socket. -/
def IoError.Transient (error : IoError) : Bool :=
  error.kind = .connectionReset ∨ error.kind = .connectionRefused

/-- The read half of a client's connection, with what its handle has counted; in
`failures` are the errors that `receive` has returned. -/
structure SocketHalf where
  closed : Bool
  receiving : Receiving
  received : List Datagram
  returned : List Datagram
  drops : List (RawDrop × Datagram)
  failures : List IoError

namespace SocketHalf

def new : SocketHalf := ⟨false, .idle, [], [], [], []⟩

def hand (h : SocketHalf) : List Datagram :=
  match h.receiving with
  | .hand datagram => [datagram]
  | _ => []

def drop (h : SocketHalf) (reason : RawDrop) (datagram : Datagram) : SocketHalf :=
  { h with drops := h.drops ++ [(reason, datagram)] }

/-- The poll of `receive`, with the peer first. -/
def poll (h : SocketHalf) : SocketHalf :=
  match h.receiving with
  | .idle => if h.closed then h else { h with receiving := .polled }
  | _ => h

/-- The poll goes on to the socket: nothing yet, a datagram as far as the buffer
takes it, an error to be retried, after `yield_now`, or one that closes the peer. -/
def next (h : SocketHalf) (outcome : Option (Except IoError Datagram)) : SocketHalf :=
  match h.receiving with
  | .polled =>
    match outcome with
    | none => { h with receiving := .idle }
    | some (.ok datagram) =>
      { h with
        receiving := .hand (datagram.take bufferSize)
        received := h.received ++ [datagram.take bufferSize] }
    | some (.error error) =>
      if error.Transient then { h with receiving := .idle }
      else { h with receiving := .idle, closed := true, failures := h.failures ++ [error] }
  | _ => h

/-- What `receive` does with the datagram under the limit of the moment, when
the codec accepts it and when it does not. -/
def decode (h : SocketHalf) (limit : ℕ) (decodes : Bool) : SocketHalf :=
  match h.receiving with
  | .hand datagram =>
    if datagram.length > maxDatagramSize then
      { h.drop .receiveLimit datagram with receiving := .idle }
    else if datagram.length > limit then { h.drop .receiveLimit datagram with receiving := .idle }
    else if decodes then { h with receiving := .idle, returned := h.returned ++ [datagram] }
    else { h.drop .malformedPayload datagram with receiving := .idle }
  | _ => h

/-! ### What a read half keeps -/

/-- Every datagram received is in hand, returned or dropped; those returned are in
order, and they are decoded. -/
structure Good {P : Type*} (codec : Datagram → Option P) (h : SocketHalf) : Prop where
  fates : h.received.Perm (h.hand ++ h.returned ++ h.drops.map Prod.snd)
  order : (h.returned ++ h.hand).Sublist h.received
  reasons : ∀ x ∈ h.drops, x.1 = .receiveLimit ∨
    x.1 = .malformedPayload ∧ x.2.length ≤ maxDatagramSize ∧ codec x.2 = none
  kept : ∀ datagram ∈ h.returned, datagram.length ≤ maxDatagramSize ∧ codec datagram ≠ none
  failures : ∀ error ∈ h.failures, error.Transient = false

variable {P : Type*} {codec : Datagram → Option P} {h : SocketHalf}

theorem good_new (codec : Datagram → Option P) : new.Good codec where
  fates := List.Perm.refl _
  order := List.Sublist.refl _
  reasons x hx := by cases hx
  kept x hx := by cases hx
  failures x hx := by cases hx

/-- A poll, and the end of one without a datagram. -/
theorem Good.goto (hg : h.Good codec) (hhand : h.hand = []) {receiving : Receiving}
    (hr : ∀ datagram, receiving ≠ .hand datagram) {closed : Bool} {failures : List IoError}
    (hf : ∀ error ∈ failures, error.Transient = false) :
    Good codec { h with receiving := receiving, closed := closed, failures := failures } := by
  have hnil : ({ h with receiving := receiving, closed := closed, failures := failures } :
      SocketHalf).hand = [] := by
    cases receiving with
    | hand datagram => exact absurd rfl (hr datagram)
    | _ => rfl
  refine ⟨?_, ?_, hg.reasons, hg.kept, hf⟩
  · rw [hnil, ← hhand]
    exact hg.fates
  · rw [hnil, ← hhand]
    exact hg.order

theorem good_poll (hg : h.Good codec) : h.poll.Good codec := by
  unfold poll
  split
  · rename_i hr
    split
    · exact hg
    · exact hg.goto (by rw [hand, hr]) (fun _ he => by cases he) hg.failures
  · exact hg

theorem good_next (hg : h.Good codec) (outcome : Option (Except IoError Datagram)) :
    (h.next outcome).Good codec := by
  unfold next
  split
  · rename_i hr
    have hhand : h.hand = [] := by rw [hand, hr]
    split
    · exact hg.goto hhand (fun _ he => by cases he) hg.failures
    · rename_i datagram
      refine ⟨?_, ?_, hg.reasons, hg.kept, hg.failures⟩
      · have hf := hg.fates
        rw [hhand, List.nil_append] at hf
        exact (hf.append_right _).trans (List.perm_append_comm)
      · have ho := hg.order
        rw [hhand, List.append_nil] at ho
        exact ho.append (List.Sublist.refl _)
    · rename_i error
      split
      · exact hg.goto hhand (fun _ he => by cases he) hg.failures
      · rename_i ht
        refine hg.goto hhand (fun _ he => by cases he) fun e he => ?_
        rcases List.mem_append.mp he with he | he
        · exact hg.failures e he
        · rw [List.mem_singleton.mp he]
          exact Bool.eq_false_iff.mpr ht
  · exact hg

/-- The datagram in hand is dropped. -/
theorem Good.dropped (hg : h.Good codec) {datagram : Datagram} (hr : h.receiving = .hand datagram)
    {reason : RawDrop} (hreason : reason = .receiveLimit ∨
      reason = .malformedPayload ∧ datagram.length ≤ maxDatagramSize ∧ codec datagram = none) :
    Good codec { h.drop reason datagram with receiving := .idle } := by
  have hhand : h.hand = [datagram] := by rw [hand, hr]
  have hf := hg.fates
  have ho := hg.order
  rw [hhand] at hf ho
  refine ⟨?_, ?_, fun x hx => ?_, hg.kept, hg.failures⟩
  · refine List.perm_iff_count.mpr fun x => ?_
    have hc := hf.count_eq x
    simp only [hand, drop, List.map_append, List.map_cons, List.map_nil, List.count_append,
      List.count_nil] at hc ⊢
    omega
  · show (h.returned ++ []).Sublist h.received
    rw [List.append_nil]
    exact (List.sublist_append_left _ _).trans ho
  · rcases List.mem_append.mp hx with hx | hx
    · exact hg.reasons x hx
    · rw [List.mem_singleton.mp hx]
      exact hreason

theorem good_decode (hg : h.Good codec) {datagram : Datagram} (hr : h.receiving = .hand datagram)
    (limit : ℕ) : (h.decode limit (codec datagram).isSome).Good codec := by
  simp only [decode, hr]
  split
  · exact hg.dropped hr (Or.inl rfl)
  rename_i hmax
  split
  · exact hg.dropped hr (Or.inl rfl)
  split
  · rename_i hsome
    have hhand : h.hand = [datagram] := by rw [hand, hr]
    have hf := hg.fates
    have ho := hg.order
    rw [hhand] at hf ho
    refine ⟨?_, ?_, hg.reasons, fun x hx => ?_, hg.failures⟩
    · refine List.perm_iff_count.mpr fun x => ?_
      have hc := hf.count_eq x
      simp only [hand, List.count_append, List.count_nil] at hc ⊢
      omega
    · show (h.returned ++ [datagram] ++ []).Sublist h.received
      rw [List.append_nil]
      exact ho
    · rcases List.mem_append.mp hx with hx | hx
      · exact hg.kept x hx
      · rw [List.mem_singleton.mp hx]
        exact ⟨by omega, Option.isSome_iff_ne_none.mp hsome⟩
  · rename_i hnone
    refine hg.dropped hr (Or.inr ⟨rfl, by omega, ?_⟩)
    exact Option.not_isSome_iff_eq_none.mp hnone

theorem decode_fields (h : SocketHalf) (limit : ℕ) (decodes : Bool) :
    (h.decode limit decodes).received = h.received ∧
      (h.decode limit decodes).failures = h.failures ∧ (h.decode limit decodes).closed = h.closed := by
  unfold decode
  split
  · split
    · exact ⟨rfl, rfl, rfl⟩
    split
    · exact ⟨rfl, rfl, rfl⟩
    split
    · exact ⟨rfl, rfl, rfl⟩
    · exact ⟨rfl, rfl, rfl⟩
  · exact ⟨rfl, rfl, rfl⟩

/-- Within both limits the datagram in hand is returned if the codec takes it. -/
theorem returned_decode {datagram : Datagram} (hr : h.receiving = .hand datagram) (limit : ℕ)
    (decodes : Bool) : (h.decode limit decodes).returned = h.returned ++
      if datagram.length ≤ maxDatagramSize ∧ datagram.length ≤ limit ∧ decodes then [datagram]
      else [] := by
  simp only [decode, hr]
  split
  · rw [if_neg (by omega), List.append_nil]
    rfl
  split
  · rw [if_neg (by omega), List.append_nil]
    rfl
  split
  · rename_i hmax hlimit hdecodes
    rw [if_pos ⟨by omega, by omega, hdecodes⟩]
  · rename_i hdecodes
    rw [if_neg fun hall => hdecodes hall.2.2, List.append_nil]
    rfl

/-- What a datagram becomes that was cut off by the buffer. -/
theorem take_bufferSize {datagram : Datagram} (h : (datagram.take bufferSize).length ≤ maxDatagramSize) :
    datagram.take bufferSize = datagram := by
  refine List.take_of_length_le ?_
  rw [List.length_take] at h
  simp only [bufferSize, maxDatagramSize] at h ⊢
  omega

end SocketHalf

/-- The task has closed its read half, or dropped it. -/
def Reader.Over {R D L : Type*} : Reader R D L → Bool
  | reporting _ => true
  | notifying => true
  | done => true
  | panicked => true
  | _ => false

theorem Reader.over_of_looping {R D L : Type*} {reader : Reader R D L} (h : reader.Looping) :
    reader.Over = false := by
  cases reader with
  | reporting error => cases h
  | notifying => cases h
  | done => cases h
  | panicked => cases h
  | _ => rfl

/-! ### What the readers were told -/

namespace Endpoint

variable {c : Plugin} {Id P R D L : Type*} [DecidableEq Id]

omit [DecidableEq Id] in
theorem reads_linkOffer (l : Link P R D L) (o : Link.Offer) : (l.step (.offer o)).reads = l.reads := by
  simp only [Link.step, Link.offer]
  split
  · split
    · rfl
    · split
      · rfl
      · rfl
    · split
      · rfl
      · rfl
  · rfl

theorem reads_offer (s : Endpoint c Id P R D L) (id k : Id) :
    ((s.offer k).peers id).link.reads = (s.peers id).link.reads := by
  by_cases hk : id = k
  · subst hk
    have hact : ∀ (t : Endpoint c Id P R D L) (o : Link.Offer), t.peers id = s.peers id →
        ((t.act id (.offer o)).peers id).link.reads = (s.peers id).link.reads := by
      intro t o ht
      rw [link_act_self, ht, reads_linkOffer]
    unfold Endpoint.offer
    split
    · split
      · unfold forward
        split
        · exact hact _ .accepted rfl
        · exact hact _ .accepted rfl
        · exact hact s .refused rfl
      · split
        · exact hact _ .accepted rfl
        · exact hact s .refused rfl
        · exact hact s .pending rfl
    · rfl
  · rw [link_offer_ne s hk]

/-- Only the transport's reader adds to what the reader was told. -/
theorem reads_step (s : Endpoint c Id P R D L) (id : Id) (a : Act Id P R D L)
    (ha : ∀ result, a ≠ .link id (.read result)) :
    ((s.step a).peers id).link.reads = (s.peers id).link.reads := by
  by_cases hoffer : a = .offer id
  · rw [hoffer]
    exact reads_offer s id id
  · exact (calm_step s id a ha hoffer).reads

/-- The transport's reader returns to the loop. -/
theorem link_read {s : Endpoint c Id P R D L} {id : Id} {off : Bool}
    (hs : (s.peers id).setup = .running) (hr : (s.peers id).link.reader = .reading off)
    (result : Option (Except (ReceiveError D L) R)) :
    ((s.step (.link id (.read result))).peers id).link.reads =
        (s.peers id).link.reads ++ result.toList ∧
      (((s.step (.link id (.read result))).peers id).link.reader.Looping ↔
        ∀ error, result ≠ some (.error error)) := by
  have hstep : s.step (.link id (.read result)) = s.act id (.read result) := by
    rw [step, Endpoint.link, hs]
    rfl
  rw [hstep, link_act_self, Link.step]
  cases result with
  | none => simp [Link.read, hr, Reader.Looping]
  | some result =>
    cases result with
    | ok packet => simp [Link.read, hr, Reader.Looping]
    | error error => simp [Link.read, hr, Reader.Looping]

end Endpoint

/-! ### The network -/

/-- The addresses that the servers' connections `K` send to, those of the
client's connections `Id`, and the serializers, without state. -/
structure Route (K Id Addr P : Type*) where
  peer : K → Addr
  address : Id → Addr
  encode : P → Except String Datagram
  decode : Datagram → Option P

/-- The servers' connections, every datagram sent, every datagram that a socket
returned, with its connection, and the client's connections. -/
structure UdpClients {K Id Addr P : Type*} (n : Route K Id Addr P) (c : Plugin) (Q D L : Type*) where
  servers : K → UdpSend P
  wire : List (K × P × Datagram)
  taken : List (Id × K × P × Datagram)
  halves : Id → SocketHalf
  client : Endpoint c Id Q P D L

namespace UdpClients

variable {K Id Addr P Q D L : Type*} {n : Route K Id Addr P} {c : Plugin}

def new (n : Route K Id Addr P) (c : Plugin) (Q D L : Type*)
    (servers : K → Outgoing P × ℕ × Option ℕ+) : UdpClients n c Q D L where
  servers k := .new (servers k).1 (servers k).2.1 (servers k).2.2
  wire := []
  taken := []
  halves _ := .new
  client := .new c Id Q P D L

/-- A step of a server's connection, whose datagram goes out. -/
def server [DecidableEq K] (s : UdpClients n c Q D L) (k : K) (a : UdpSend.Act P) :
    UdpClients n c Q D L :=
  { s with
    servers := Function.update s.servers k ((s.servers k).step ((s.servers k).coded n.encode a))
    wire := s.wire ++
      ((s.servers k).transmits? ((s.servers k).coded n.encode a)).toList.map (Prod.mk k) }

variable [DecidableEq Id]

def turn (s : UdpClients n c Q D L) (id : Id) (f : SocketHalf → SocketHalf) : UdpClients n c Q D L :=
  { s with halves := Function.update s.halves id (f (s.halves id)) }

/-- A step of the plugin. The read half of a task that is over is closed. -/
def act (s : UdpClients n c Q D L) (a : Endpoint.Act Id Q P D L) : UdpClients n c Q D L :=
  { s with
    client := s.client.step a
    halves := fun id =>
      if ((s.client.step a).peers id).link.reader.Over then { s.halves id with closed := true }
      else s.halves id }

/-- What `receive` returns to the reader. -/
def yield (s : UdpClients n c Q D L) (id : Id) (result : Option (Except (ReceiveError D L) P)) :
    UdpClients n c Q D L :=
  s.act (.link id (.read result))

/-- The socket returns the datagram. -/
def take (s : UdpClients n c Q D L) (id : Id) (x : K × P × Datagram) : UdpClients n c Q D L :=
  { s.turn id (fun h => h.next (some (.ok x.2.2))) with taken := s.taken ++ [(id, x)] }

variable [DecidableEq Addr]

/-- The next step of `receive`, when the reader of the connection polls it: the
peer, the socket, the datagram taken. The socket is connected: it returns
datagrams of the wire that were sent to its address. -/
def receive (s : UdpClients n c Q D L) (id : Id) (limit : ℕ) (outcome : Option (Except IoError ℕ)) :
    UdpClients n c Q D L :=
  match (s.client.peers id).setup, (s.client.peers id).link.reader with
  | .running, .reading _ =>
    match (s.halves id).receiving with
    | .idle =>
      if (s.halves id).closed then s.yield id (some (.error (.io disconnectedError)))
      else s.turn id .poll
    | .polled =>
      match outcome with
      | none => (s.turn id fun h => h.next none).yield id none
      | some (.ok m) =>
        match s.wire[m]? with
        | some x =>
          if n.peer x.1 = n.address id then s.take id x else s
        | none => s
      | some (.error error) =>
        if error.Transient then (s.turn id fun h => h.next (some (.error error))).yield id none
        else (s.turn id fun h => h.next (some (.error error))).yield id (some (.error (.io error)))
    | .hand datagram =>
      match n.decode datagram with
      | some packet =>
        if datagram.length ≤ maxDatagramSize ∧ datagram.length ≤ limit then
          (s.turn id fun h => h.decode limit true).yield id (some (.ok packet))
        else s.turn id fun h => h.decode limit true
      | none => s.turn id fun h => h.decode limit false
  | _, _ => s

/-- The readers read in `receive`. -/
def Acts : Endpoint.Act Id Q P D L → Bool
  | .link _ (.read _) => false
  | _ => true

inductive Act (K Id P Q D L : Type*)
  | server (k : K) (a : UdpSend.Act P)
  | receive (id : Id) (limit : ℕ) (outcome : Option (Except IoError ℕ))
  | client (a : Endpoint.Act Id Q P D L)

def step [DecidableEq K] (s : UdpClients n c Q D L) : Act K Id P Q D L → UdpClients n c Q D L
  | .server k a => s.server k a
  | .receive id limit outcome => s.receive id limit outcome
  | .client a => if Acts a then s.act a else s

/-! ### What every step keeps -/

omit [DecidableEq Addr] in
structure Good [DecidableEq K] (s : UdpClients n c Q D L) : Prop where
  servers : ∀ k, UdpSend.Sends n.encode (Endpoint.ofConnection k s.wire) (s.servers k)
  sent : ∀ x ∈ s.taken, x.2 ∈ s.wire ∧ n.peer x.2.1 = n.address x.1
  counted : ∀ id, (s.halves id).received =
    (Endpoint.ofConnection id s.taken).map fun x => x.2.2.take bufferSize
  halves : ∀ id, (s.halves id).Good n.decode
  reads : ∀ id, (s.client.peers id).link.received = (s.halves id).returned.filterMap n.decode
  errors : ∀ id error, .error error ∈ (s.client.peers id).link.reads →
    ∃ e ∈ (s.halves id).failures, error = .io e
  listening : ∀ id, (s.client.peers id).link.reader.Looping → (s.halves id).closed = false
  lines : ∀ id, s.client.InLine id

section Steps

variable [DecidableEq K] {s : UdpClients n c Q D L}

omit [DecidableEq Addr] in
theorem good_new (n : Route K Id Addr P) (c : Plugin) (servers : K → Outgoing P × ℕ × Option ℕ+) :
    Good (new n c Q D L servers) where
  servers k := UdpSend.sends_new n.encode _ _ _
  sent x hx := by cases hx
  counted id := rfl
  halves id := SocketHalf.good_new n.decode
  reads id := rfl
  errors id error he := by cases he
  listening id _ := rfl
  lines id := Endpoint.inLine_new c id

omit [DecidableEq Addr] [DecidableEq K] in
/-- A step of the plugin can close a read half, and does nothing else to it. -/
theorem halves_act (s : UdpClients n c Q D L) (a : Endpoint.Act Id Q P D L) (id : Id) :
    ∃ closed, (s.act a).halves id = { s.halves id with closed := closed } := by
  simp only [act]
  split
  · exact ⟨true, rfl⟩
  · exact ⟨(s.halves id).closed, rfl⟩

omit [DecidableEq Addr] [DecidableEq K] in
theorem halves_turn_self (s : UdpClients n c Q D L) (id : Id) (f : SocketHalf → SocketHalf) :
    (s.turn id f).halves id = f (s.halves id) :=
  Function.update_self ..

omit [DecidableEq Addr] [DecidableEq K] in
theorem halves_turn_ne (s : UdpClients n c Q D L) {id k : Id} (hk : k ≠ id)
    (f : SocketHalf → SocketHalf) : (s.turn id f).halves k = s.halves k :=
  Function.update_of_ne hk ..

omit [DecidableEq Addr] [DecidableEq K] in
/-- What a step of one read half leaves as it is. -/
theorem turn_field {α : Type*} (g : SocketHalf → α) {id : Id} {f : SocketHalf → SocketHalf}
    (hg : g (f (s.halves id)) = g (s.halves id)) (k : Id) :
    g ((s.turn id f).halves k) = g (s.halves k) := by
  by_cases hk : k = id
  · rw [hk, halves_turn_self, hg]
  · rw [halves_turn_ne s hk]

omit [DecidableEq Addr] [DecidableEq K] in
theorem turn_all {I : SocketHalf → Prop} (h : ∀ k, I (s.halves k)) {id : Id}
    {f : SocketHalf → SocketHalf} (hf : I (f (s.halves id))) (k : Id) : I ((s.turn id f).halves k) := by
  by_cases hk : k = id
  · rw [hk, halves_turn_self]
    exact hf
  · rw [halves_turn_ne s hk]
    exact h k

omit [DecidableEq Addr] in
/-- A step of the plugin, for read halves that have gone on before. -/
theorem Good.move (h : Good s) (hc : c.datagram = true) (a : Endpoint.Act Id Q P D L)
    {halves : Id → SocketHalf} (hreceived : ∀ id, (halves id).received = (s.halves id).received)
    (hgood : ∀ id, (halves id).Good n.decode)
    (hreads : ∀ id, ((s.client.step a).peers id).link.received =
      (halves id).returned.filterMap n.decode)
    (herrors : ∀ id error, .error error ∈ ((s.client.step a).peers id).link.reads →
      ∃ e ∈ (halves id).failures, error = .io e)
    (hlistening : ∀ id, ((s.client.step a).peers id).link.reader.Looping →
      (halves id).closed = false) :
    Good (({ s with halves := halves } : UdpClients n c Q D L).act a) where
  servers := h.servers
  sent := h.sent
  counted id := by
    obtain ⟨closed, hid⟩ := halves_act { s with halves := halves } a id
    rw [hid]
    exact (hreceived id).trans (h.counted id)
  halves id := by
    obtain ⟨closed, hid⟩ := halves_act { s with halves := halves } a id
    rw [hid]
    have hg := hgood id
    exact ⟨hg.fates, hg.order, hg.reasons, hg.kept, hg.failures⟩
  reads id := by
    obtain ⟨closed, hid⟩ := halves_act { s with halves := halves } a id
    rw [hid]
    exact hreads id
  errors id error he := by
    obtain ⟨closed, hid⟩ := halves_act { s with halves := halves } a id
    rw [hid]
    exact herrors id error he
  listening id hl := by
    have hover := Reader.over_of_looping hl
    simp only [UdpClients.act] at hover ⊢
    rw [hover]
    exact hlistening id hl
  lines id := Endpoint.inLine_step hc (h.lines id) a

omit [DecidableEq Addr] in
/-- A step of the plugin that does not read. -/
theorem Good.act (h : Good s) (hc : c.datagram = true) {a : Endpoint.Act Id Q P D L}
    (ha : ∀ id result, a ≠ .link id (.read result)) : Good (s.act a) := by
  refine h.move hc a (fun _ => rfl) h.halves (fun id => ?_) (fun id error he => ?_) fun id hl => ?_
  · exact (Endpoint.unread_step s.client id a (ha id)).received.trans (h.reads id)
  · rw [Endpoint.reads_step s.client id a (ha id)] at he
    exact h.errors id error he
  · exact h.listening id ((Endpoint.unread_step s.client id a (ha id)).looping hl)

omit [DecidableEq Addr] in
/-- **`receive` returns**, or is pending: its read half has gone on by `f`. -/
theorem Good.yield (h : Good s) (hc : c.datagram = true) {id : Id} {off : Bool}
    (hs : (s.client.peers id).setup = .running) (hr : (s.client.peers id).link.reader = .reading off)
    {f : SocketHalf → SocketHalf} {result : Option (Except (ReceiveError D L) P)}
    (hgood : (f (s.halves id)).Good n.decode)
    (hreceived : (f (s.halves id)).received = (s.halves id).received)
    (hreturned : (f (s.halves id)).returned.filterMap n.decode =
      (s.halves id).returned.filterMap n.decode ++ (result.bind Except.toOption).toList)
    (hfailures : ∀ e ∈ (s.halves id).failures, e ∈ (f (s.halves id)).failures)
    (herror : ∀ error, result = some (.error error) → ∃ e ∈ (f (s.halves id)).failures, error = .io e)
    (hclosed : (∀ error, result ≠ some (.error error)) → (f (s.halves id)).closed = false) :
    Good ((s.turn id f).yield id result) := by
  obtain ⟨hreads, hlooping⟩ := Endpoint.link_read hs hr result
  have hother : ∀ k, k ≠ id → ∀ result',
      (.link id (.read result) : Endpoint.Act Id Q P D L) ≠ .link k (.read result') := by
    rintro k hk result' ⟨⟩
    exact hk rfl
  refine h.move hc (.link id (.read result)) (fun k => ?_) (fun k => ?_) (fun k => ?_)
    (fun k error he => ?_) fun k hl => ?_
  · by_cases hk : k = id
    · rw [hk, Function.update_self]
      exact hreceived
    · rw [Function.update_of_ne hk]
  · by_cases hk : k = id
    · rw [hk, Function.update_self]
      exact hgood
    · rw [Function.update_of_ne hk]
      exact h.halves k
  · rw [Endpoint.received_read hs hr, h.reads k]
    by_cases hk : k = id
    · rw [hk, Function.update_self, if_pos rfl, hreturned]
    · rw [Function.update_of_ne hk, if_neg hk, List.append_nil]
  · by_cases hk : k = id
    · subst hk
      rw [Function.update_self]
      rw [hreads] at he
      rcases List.mem_append.mp he with he | he
      · obtain ⟨e, hmem, heq⟩ := h.errors k error he
        exact ⟨e, hfailures e hmem, heq⟩
      · exact herror error (Option.mem_toList.mp he)
    · rw [Function.update_of_ne hk]
      rw [Endpoint.reads_step s.client k _ (hother k hk)] at he
      exact h.errors k error he
  · by_cases hk : k = id
    · subst hk
      rw [Function.update_self]
      exact hclosed (hlooping.mp hl)
    · rw [Function.update_of_ne hk]
      exact h.listening k ((Endpoint.unread_step s.client k _ (hother k hk)).looping hl)

omit [DecidableEq Addr] in
/-- A step of `receive` that its caller does not see. -/
theorem Good.replace (h : Good s) {halves : Id → SocketHalf} {taken : List (Id × K × P × Datagram)}
    (hsent : ∀ x ∈ taken, x.2 ∈ s.wire ∧ n.peer x.2.1 = n.address x.1)
    (hcounted : ∀ id, (halves id).received =
      (Endpoint.ofConnection id taken).map fun x => x.2.2.take bufferSize)
    (hgood : ∀ id, (halves id).Good n.decode)
    (hreturned : ∀ id, (halves id).returned = (s.halves id).returned)
    (hfailures : ∀ id, (halves id).failures = (s.halves id).failures)
    (hclosed : ∀ id, (halves id).closed = (s.halves id).closed) :
    Good ({ s with halves := halves, taken := taken } : UdpClients n c Q D L) where
  servers := h.servers
  sent := hsent
  counted := hcounted
  halves := hgood
  reads id := by
    rw [hreturned id]
    exact h.reads id
  errors id error he := by
    rw [hfailures id]
    exact h.errors id error he
  listening id hl := (hclosed id).trans (h.listening id hl)
  lines := h.lines

omit [DecidableEq Addr] in
theorem Good.turn (h : Good s) (id : Id) {f : SocketHalf → SocketHalf}
    (hgood : (f (s.halves id)).Good n.decode)
    (hreceived : (f (s.halves id)).received = (s.halves id).received)
    (hreturned : (f (s.halves id)).returned = (s.halves id).returned)
    (hfailures : (f (s.halves id)).failures = (s.halves id).failures)
    (hclosed : (f (s.halves id)).closed = (s.halves id).closed) : Good (s.turn id f) :=
  h.replace h.sent
    (fun k => (turn_field SocketHalf.received hreceived k).trans (h.counted k))
    (turn_all h.halves hgood) (turn_field SocketHalf.returned hreturned)
    (turn_field SocketHalf.failures hfailures) (turn_field SocketHalf.closed hclosed)

omit [DecidableEq Addr] in
/-- **The socket returns a datagram** of the wire. -/
theorem Good.take (h : Good s) {id : Id} (hpolled : (s.halves id).receiving = .polled)
    {x : K × P × Datagram} (hx : x ∈ s.wire) (hpeer : n.peer x.1 = n.address id) :
    Good (s.take id x) := by
  have hnext : (s.halves id).next (some (.ok x.2.2)) =
      { s.halves id with
        receiving := .hand (x.2.2.take bufferSize)
        received := (s.halves id).received ++ [x.2.2.take bufferSize] } := by
    simp only [SocketHalf.next, hpolled]
  refine h.replace (fun y hy => ?_) (fun k => ?_)
    (turn_all h.halves (SocketHalf.good_next (h.halves id) _)) (turn_field SocketHalf.returned ?_)
    (turn_field SocketHalf.failures ?_) (turn_field SocketHalf.closed ?_)
  · rcases List.mem_append.mp hy with hy | hy
    · exact h.sent y hy
    · rw [List.mem_singleton.mp hy]
      exact ⟨hx, hpeer⟩
  · rw [Endpoint.ofConnection_append, List.map_append, ← h.counted k]
    by_cases hk : k = id
    · rw [hk, halves_turn_self, hnext]
      simp [Endpoint.ofConnection]
    · have hk' : ¬ id = k := fun he => hk he.symm
      rw [halves_turn_ne s hk]
      simp [Endpoint.ofConnection, hk']
  · rw [hnext]
  · rw [hnext]
  · rw [hnext]

omit [DecidableEq Addr] in
/-- `receive` is pending. -/
theorem Good.pending (h : Good s) (hc : c.datagram = true) {id : Id} {off : Bool}
    (hs : (s.client.peers id).setup = .running) (hr : (s.client.peers id).link.reader = .reading off)
    {outcome : Option (Except IoError Datagram)}
    (hnext : (s.halves id).next outcome = { s.halves id with receiving := .idle }) :
    Good ((s.turn id fun h => h.next outcome).yield id none) := by
  refine h.yield hc hs hr (SocketHalf.good_next (h.halves id) outcome) ?_ ?_ (fun e he => ?_)
    (fun _ he => by cases he) fun _ => ?_
  · rw [hnext]
  · rw [hnext]
    exact (List.append_nil _).symm
  · rw [hnext]
    exact he
  · rw [hnext]
    refine h.listening id ?_
    rw [hr]
    trivial

theorem good_receive (h : Good s) (hc : c.datagram = true) (id : Id) (limit : ℕ)
    (outcome : Option (Except IoError ℕ)) : Good (s.receive id limit outcome) := by
  unfold receive
  split
  · rename_i off hs hr
    -- the reader polls its read half, so nothing has closed it
    have hopen : (s.halves id).closed = false := by
      refine h.listening id ?_
      rw [hr]
      trivial
    have hg := h.halves id
    split
    · rename_i hidle
      have hpoll : (s.halves id).poll = { s.halves id with receiving := .polled } := by
        simp [SocketHalf.poll, hidle, hopen]
      rw [hopen]
      exact h.turn id (SocketHalf.good_poll hg) (by rw [hpoll]) (by rw [hpoll]) (by rw [hpoll])
        (by rw [hpoll])
    · rename_i hpolled
      split
      · have hnext : (s.halves id).next none = { s.halves id with receiving := .idle } := by
          simp only [SocketHalf.next, hpolled]
        exact h.pending hc hs hr hnext
      · split
        · rename_i m x hx
          split
          · rename_i hpeer
            exact h.take hpolled (List.mem_of_getElem? hx) hpeer
          · exact h
        · exact h
      · rename_i error
        split
        · rename_i hretried
          have hnext : (s.halves id).next (some (.error error)) =
              { s.halves id with receiving := .idle } := by
            simp only [SocketHalf.next, hpolled, hretried, if_true]
          exact h.pending hc hs hr hnext
        · rename_i hfatal
          have hnext : (s.halves id).next (some (.error error)) =
              { s.halves id with
                receiving := .idle
                closed := true
                failures := (s.halves id).failures ++ [error] } := by
            simp only [SocketHalf.next, hpolled, if_neg hfatal]
          refine h.yield hc hs hr (SocketHalf.good_next hg _) ?_ ?_ (fun e he => ?_) (fun e he => ?_)
            fun hnone => absurd rfl (hnone _)
          · rw [hnext]
          · rw [hnext]
            exact (List.append_nil _).symm
          · rw [hnext]
            exact List.mem_append_left _ he
          · rw [hnext]
            cases he
            exact ⟨error, List.mem_append_right _ (List.mem_singleton_self error), rfl⟩
    · rename_i datagram hhand
      have hdecode := SocketHalf.good_decode hg hhand limit
      split
      · rename_i packet hpacket
        rw [hpacket] at hdecode
        obtain ⟨hreceived, hfailures, hclosed⟩ := (s.halves id).decode_fields limit true
        have hreturned := SocketHalf.returned_decode hhand limit true
        split
        · rename_i hwithin
          refine h.yield hc hs hr hdecode hreceived ?_ (fun e he => ?_) (fun _ he => by cases he)
            fun _ => hclosed.trans hopen
          · rw [hreturned, if_pos ⟨hwithin.1, hwithin.2, rfl⟩, List.filterMap_append]
            simp [hpacket, Except.toOption]
          · rw [hfailures]
            exact he
        · rename_i hwithin
          refine h.turn id hdecode hreceived ?_ hfailures hclosed
          rw [hreturned, if_neg fun hall => hwithin ⟨hall.1, hall.2.1⟩, List.append_nil]
      · rename_i hnone
        rw [hnone] at hdecode
        obtain ⟨hreceived, hfailures, hclosed⟩ := (s.halves id).decode_fields limit false
        refine h.turn id hdecode hreceived ?_ hfailures hclosed
        rw [SocketHalf.returned_decode hhand, if_neg (by simp), List.append_nil]
  · exact h

omit [DecidableEq Addr] in
theorem good_server (h : Good s) (k : K) (a : UdpSend.Act P) : Good (s.server k a) := by
  refine ⟨fun j => ?_, fun x hx => ⟨List.mem_append_left _ (h.sent x hx).1, (h.sent x hx).2⟩, h.counted,
    h.halves, h.reads, h.errors, h.listening, h.lines⟩
  show UdpSend.Sends n.encode (Endpoint.ofConnection j (s.wire ++ _)) (Function.update s.servers k _ j)
  rw [Endpoint.ofConnection_append]
  by_cases hj : j = k
  · subst hj
    rw [Function.update_self, Endpoint.ofConnection_map_self]
    exact UdpSend.sends_step (h.servers j) a
  · rw [Function.update_of_ne hj, Endpoint.ofConnection_map_ne fun he => hj he.symm, List.append_nil]
    exact h.servers j

theorem good_step (hc : c.datagram = true) (h : Good s) (a : Act K Id P Q D L) : Good (s.step a) := by
  cases a with
  | server k a => exact good_server h k a
  | receive id limit outcome => exact good_receive h hc id limit outcome
  | client a =>
    simp only [step]
    split
    · rename_i ha
      refine h.act hc fun id result he => ?_
      subst he
      cases ha
    · exact h

theorem good_run (n : Route K Id Addr P) (hc : c.datagram = true)
    (servers : K → Outgoing P × ℕ × Option ℕ+) (as : List (Act K Id P Q D L)) :
    Good (run step (new n c Q D L servers) as) :=
  run_inv (I := Good) (fun _ a h => good_step hc h a) as (good_new n c servers)

/-! ### What the observers see -/

omit [DecidableEq Addr] in
/-- What a read half returns of a datagram that was sent: its packet, or nothing. -/
theorem Good.decoded (h : Good s)
    (hround : ∀ packet payload, n.encode packet = .ok payload → n.decode payload = some packet)
    (id : Id) : ((s.halves id).returned.filterMap n.decode).Sublist
      ((Endpoint.ofConnection id s.taken).map fun x => x.2.1) := by
  -- the codec, where the length lets it see the datagram
  let within (datagram : Datagram) : Option P :=
    if datagram.length ≤ maxDatagramSize then n.decode datagram else none
  have hreturned : (s.halves id).returned.filterMap n.decode =
      (s.halves id).returned.filterMap within := by
    refine List.filterMap_congr fun datagram hd => ?_
    exact (if_pos ((h.halves id).kept datagram hd).1).symm
  have hsub : (s.halves id).returned.Sublist
      ((Endpoint.ofConnection id s.taken).map fun x => x.2.2.take bufferSize) := by
    rw [← h.counted id]
    exact (List.sublist_append_left _ _).trans (h.halves id).order
  rw [hreturned]
  refine (hsub.filterMap within).trans ?_
  rw [List.filterMap_map]
  refine filterMap_sublist_map fun x hx => ?_
  have hwire := (h.sent (id, x) (Endpoint.mem_ofConnection.mp hx)).1
  have hencoded := (h.servers x.1).encoded x.2 (Endpoint.mem_ofConnection.mpr hwire)
  by_cases hlen : (x.2.2.take bufferSize).length ≤ maxDatagramSize
  · refine Or.inr ?_
    calc within (x.2.2.take bufferSize) = n.decode (x.2.2.take bufferSize) := if_pos hlen
      _ = n.decode x.2.2 := by rw [SocketHalf.take_bufferSize hlen]
      _ = some x.2.1 := hround x.2.1 x.2.2 hencoded
  · exact Or.inl (if_neg hlen)

omit [DecidableEq Addr] in
theorem Good.triggered (h : Good s)
    (hround : ∀ packet payload, n.encode packet = .ok payload → n.decode payload = some packet)
    (id : Id) : (s.client.triggered id).Sublist
      ((Endpoint.ofConnection id s.taken).map fun x => x.2.1) := by
  have hline := (h.lines id).triggered
  rw [h.reads id] at hline
  exact hline.trans (h.decoded hround id)

end Steps

end UdpClients
end Slinet
