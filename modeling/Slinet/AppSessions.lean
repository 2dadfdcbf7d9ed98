/-
# Application sessions over UDP: the server

The server of `examples/udp_application_sessions.rs`, with its `Sessions`
(`examples/udp_application_sessions/session.rs`). A peer's table has an entry for
each channel, with the generation and the identifier of the session that opened
it last; what arrives may be a repeated, late or forged packet, and the frames
expire sessions and peers at their own pace.

The packets that the server accepts on a channel of an address follow a grammar
(`Precedes`): the generations do not decrease, each begins with a `Hello` and has
one identifier, and after a `Close` it has nothing but `Close`. A peer is dropped
only without history, so this survives the expiry of peers (`accepted_in_order`),
and what is closed or expired stays so (`closed_for_good`).
-/
import Slinet.Run
import Slinet.Table

namespace Slinet
namespace App

inductive Body
  | hello
  | welcome
  | data (bytes : List UInt8)
  | ping
  | close
  deriving DecidableEq, Repr

/-- A packet; its generation, a `u64`, is only compared. -/
@[ext]
structure Packet where
  channel : UInt8
  generation : ℕ
  id : List UInt8
  body : Body
  deriving DecidableEq, Repr

/-- What the server answers to a packet that it accepts. -/
def Packet.reply (packet : Packet) : Packet :=
  match packet.body with
  | .hello => { packet with body := .welcome }
  | _ => packet

structure Entry where
  generation : ℕ
  id : List UInt8
  lastReceived : ℕ
  active : Bool
  deriving DecidableEq, Repr

def Entry.expire (entry : Entry) (now timeout : ℕ) : Entry :=
  if now - entry.lastReceived ≥ timeout then { entry with active := false } else entry

structure Sessions where
  entries : AList fun _ : UInt8 => Entry

namespace Sessions

def default : Sessions := ⟨∅⟩

def put (s : Sessions) (channel : UInt8) (entry : Entry) : Sessions :=
  ⟨s.entries.insert channel entry⟩

def handle (s : Sessions) (packet : Packet) (receivedAt : ℕ) : Sessions × Option Packet :=
  if packet.id = [] ∨ packet.id.length > 128 then (s, none)
  else if packet.body = .hello then
    match s.entries.lookup packet.channel with
    | some entry =>
      if packet.generation < entry.generation then (s, none)
      else if packet.generation = entry.generation then
        if entry.id ≠ packet.id ∨ entry.active = false then (s, none)
        else
          (s.put packet.channel { entry with lastReceived := max entry.lastReceived receivedAt },
            some { packet with body := .welcome })
      else
        (s.put packet.channel ⟨packet.generation, packet.id, receivedAt, true⟩,
          some { packet with body := .welcome })
    | none =>
      if s.entries.keys.length ≥ 8 then (s, none)
      else
        (s.put packet.channel ⟨packet.generation, packet.id, receivedAt, true⟩,
          some { packet with body := .welcome })
  else
    match s.entries.lookup packet.channel with
    | none => (s, none)
    | some entry =>
      if entry.generation ≠ packet.generation ∨ entry.id ≠ packet.id then (s, none)
      -- `Close` is acknowledged again, without a new life for the session
      else if entry.active = false then (s, if packet.body = .close then some packet else none)
      else
        match packet.body with
        | .data _ =>
          (s.put packet.channel { entry with lastReceived := max entry.lastReceived receivedAt },
            some packet)
        | .ping =>
          (s.put packet.channel { entry with lastReceived := max entry.lastReceived receivedAt },
            some packet)
        | .close => (s.put packet.channel { entry with active := false }, some packet)
        | .hello => (s, none)
        | .welcome => (s, none)

def expire (s : Sessions) (now timeout : ℕ) : Sessions :=
  ⟨s.entries.retain fun _ entry => some (Entry.expire entry now timeout)⟩

def hasHistory (s : Sessions) : Bool := !s.entries.entries.isEmpty

def active (s : Sessions) : ℕ := s.entries.entries.countP fun e => e.2.active

end Sessions

/-! ### The server's resource -/

def maxPeers : ℕ := 64

/-- `IDLE`, in nanoseconds. -/
def idle : ℕ := 500000000

structure Peer where
  connection : ℕ
  sessions : Sessions
  created : ℕ

/-- The resource `ServerSessions`, with the connections it has disconnected and the
packets it has accepted. -/
structure ServerSessions (Addr : Type*) where
  peers : AList fun _ : Addr => Peer
  disconnected : List ℕ
  accepted : List (Addr × Packet)

namespace ServerSessions

variable {Addr : Type*}

def default (Addr : Type*) : ServerSessions Addr := ⟨∅, [], []⟩

/-- The test of `expire_peers`, once the sessions have expired. -/
def Idle (peer : Peer) (now : ℕ) : Bool :=
  (peer.sessions.expire now idle).active = 0 ∧ idle ≤ now - peer.created

def expirePeers (s : ServerSessions Addr) (now : ℕ) : ServerSessions Addr :=
  { s with
    peers := s.peers.retain fun _ peer =>
      if Idle peer now ∧ (peer.sessions.expire now idle).hasHistory = false then none
      else some { peer with sessions := peer.sessions.expire now idle }
    disconnected := s.disconnected ++
      ((s.peers.entries.filter fun e => Idle e.2 now).map fun e => e.2.connection) }

variable [DecidableEq Addr]

/-- The observer of `NewConnectionEvent`. -/
def newPeer (s : ServerSessions Addr) (address : Addr) (connection now : ℕ) : ServerSessions Addr :=
  match s.peers.lookup address with
  | some peer =>
    { s with peers := s.peers.insert address { peer with connection := connection, created := now } }
  | none =>
    if s.peers.keys.length < maxPeers then
      { s with peers := s.peers.insert address ⟨connection, .default, now⟩ }
    else { s with disconnected := s.disconnected ++ [connection] }

/-- The observer of `PacketReceiveEvent`, and its reply. -/
def serverPacket (s : ServerSessions Addr) (address : Addr) (packet : Packet) (receivedAt : ℕ) :
    ServerSessions Addr × Option Packet :=
  match s.peers.lookup address with
  | none => (s, none)
  | some peer =>
    match peer.sessions.handle packet receivedAt with
    | (sessions, some reply) =>
      ({ s with
          peers := s.peers.insert address { peer with sessions := sessions }
          accepted := s.accepted ++ [(address, packet)] },
        some reply)
    | (sessions, none) =>
      ({ s with peers := s.peers.insert address { peer with sessions := sessions } }, none)

inductive Act (Addr : Type*)
  | newPeer (address : Addr) (connection now : ℕ)
  | serverPacket (address : Addr) (packet : Packet) (receivedAt : ℕ)
  | expirePeers (now : ℕ)

def step (s : ServerSessions Addr) : Act Addr → ServerSessions Addr
  | .newPeer address connection now => s.newPeer address connection now
  | .serverPacket address packet receivedAt => (s.serverPacket address packet receivedAt).1
  | .expirePeers now => s.expirePeers now

/-- The entry for a channel of an address. -/
def entryAt (s : ServerSessions Addr) (address : Addr) (channel : UInt8) : Option Entry :=
  (s.peers.lookup address).bind fun peer => peer.sessions.entries.lookup channel

/-- The packets accepted on a channel of an address. -/
def heard (s : ServerSessions Addr) (address : Addr) (channel : UInt8) : List Packet :=
  s.accepted.filterMap fun x => if x.1 = address ∧ x.2.channel = channel then some x.2 else none

end ServerSessions

/-! ### What an accepted packet does -/

/-- The packet opens a session in place of an older one, or belongs to the
channel's session, and is its `Close` or finds it active. -/
def Accepts (old : Option Entry) (packet : Packet) (entry : Entry) : Prop :=
  entry.generation = packet.generation ∧ entry.id = packet.id ∧ packet.body ≠ .welcome ∧
  ((packet.body = .hello ∧ ∀ e, old = some e → e.generation < packet.generation) ∨
    ∃ e, old = some e ∧ e.generation = packet.generation ∧ e.id = packet.id ∧
      (entry.active = true → e.active = true ∧ packet.body ≠ .close) ∧
      (e.active = true ∨ packet.body = .close))

namespace Sessions

/-- The entry is in the table for the channel, and nothing else has changed. -/
structure Stored (s s' : Sessions) (channel : UInt8) (entry : Entry) : Prop where
  lookup : s'.entries.lookup channel = some entry
  other : ∀ k, k ≠ channel → s'.entries.lookup k = s.entries.lookup k
  room : s.entries.keys.length ≤ 8 → s'.entries.keys.length ≤ 8

theorem stored_put (s : Sessions) {channel : UInt8} (entry : Entry)
    (h : channel ∈ s.entries ∨ s.entries.keys.length < 8) : Stored s (s.put channel entry) channel entry := by
  refine ⟨AList.lookup_insert s.entries, fun k hk => AList.lookup_insert_ne hk, fun hroom => ?_⟩
  by_cases hmem : channel ∈ s.entries
  · rw [put, AList.length_keys_insert hmem]
    exact hroom
  · rw [put, AList.length_keys_insert_of_notMem hmem]
    have hlt := h.resolve_left hmem
    omega

/-- **What `handle` does**: nothing, or it accepts the packet on its channel. -/
theorem handle_spec (s : Sessions) (packet : Packet) (receivedAt : ℕ) :
    s.handle packet receivedAt = (s, none) ∨
    ∃ s' entry, s.handle packet receivedAt = (s', some packet.reply) ∧
      Accepts (s.entries.lookup packet.channel) packet entry ∧ Stored s s' packet.channel entry := by
  unfold handle
  by_cases hid : packet.id = [] ∨ packet.id.length > 128
  · rw [if_pos hid]
    exact Or.inl rfl
  rw [if_neg hid]
  by_cases hhello : packet.body = .hello
  · have hreply : ({ packet with body := .welcome } : Packet) = packet.reply := by
      rw [Packet.reply, hhello]
    have hwelcome : packet.body ≠ .welcome := by simp [hhello]
    rw [if_pos hhello, hreply]
    cases hlookup : s.entries.lookup packet.channel with
    | some e =>
      have hmem : packet.channel ∈ s.entries := AList.lookup_isSome.mp (by rw [hlookup]; rfl)
      simp only
      by_cases hlt : packet.generation < e.generation
      · rw [if_pos hlt]
        exact Or.inl rfl
      rw [if_neg hlt]
      by_cases heq : packet.generation = e.generation
      · rw [if_pos heq]
        by_cases hbad : e.id ≠ packet.id ∨ e.active = false
        · rw [if_pos hbad]
          exact Or.inl rfl
        · rw [if_neg hbad]
          obtain ⟨hsame, hactive⟩ := not_or.mp hbad
          have hon : e.active = true := by simpa using hactive
          refine Or.inr ⟨_, { e with lastReceived := max e.lastReceived receivedAt }, rfl, ⟨heq.symm,
            not_not.mp hsame, hwelcome, Or.inr ⟨e, rfl, heq.symm, not_not.mp hsame,
              fun h => ⟨h, by simp [hhello]⟩, Or.inl hon⟩⟩, stored_put s _ (Or.inl hmem)⟩
      · rw [if_neg heq]
        refine Or.inr ⟨_, _, rfl, ⟨rfl, rfl, hwelcome, Or.inl ⟨hhello, ?_⟩⟩, stored_put s _ (Or.inl hmem)⟩
        rintro e' ⟨⟩
        omega
    | none =>
      simp only
      by_cases hfull : s.entries.keys.length ≥ 8
      · rw [if_pos hfull]
        exact Or.inl rfl
      · rw [if_neg hfull]
        refine Or.inr ⟨_, _, rfl, ⟨rfl, rfl, hwelcome, Or.inl ⟨hhello, ?_⟩⟩,
          stored_put s _ (Or.inr (by omega))⟩
        rintro e' ⟨⟩
  · have hreply : packet = packet.reply := by
      unfold Packet.reply
      split
      · rename_i hb
        exact absurd hb hhello
      · rfl
    rw [if_neg hhello]
    cases hlookup : s.entries.lookup packet.channel with
    | none => exact Or.inl rfl
    | some e =>
      have hmem : packet.channel ∈ s.entries := AList.lookup_isSome.mp (by rw [hlookup]; rfl)
      simp only
      by_cases hbad : e.generation ≠ packet.generation ∨ e.id ≠ packet.id
      · rw [if_pos hbad]
        exact Or.inl rfl
      rw [if_neg hbad]
      obtain ⟨hgen, hsame⟩ := not_or.mp hbad
      have hgen' := not_not.mp hgen
      have hsame' := not_not.mp hsame
      by_cases hactive : e.active = false
      · rw [if_pos hactive]
        by_cases hclose : packet.body = .close
        · -- acknowledged again, with the entry as it is
          rw [if_pos hclose]
          refine Or.inr ⟨s, e, by rw [← hreply], ⟨hgen', hsame', by simp [hclose], Or.inr ⟨e, rfl,
            hgen', hsame', fun h => ?_, Or.inr hclose⟩⟩, hlookup, fun _ _ => rfl, id⟩
          rw [hactive] at h
          cases h
        · rw [if_neg hclose]
          exact Or.inl rfl
      rw [if_neg hactive]
      have hon : e.active = true := by simpa using hactive
      have hkept : ∀ entry : Entry, entry.generation = e.generation → entry.id = e.id →
          (entry.active = true → packet.body ≠ .close) → packet.body ≠ .welcome →
          ∃ s' entry', (s.put packet.channel entry, some packet) = (s', some packet.reply) ∧
            Accepts (some e) packet entry' ∧ Stored s s' packet.channel entry' :=
        fun entry hg hi hc hw => ⟨_, entry, by rw [← hreply], ⟨hg.trans hgen', hi.trans hsame', hw,
          Or.inr ⟨e, rfl, hgen', hsame', fun h => ⟨hon, hc h⟩, Or.inl hon⟩⟩,
          stored_put s entry (Or.inl hmem)⟩
      split
      · rename_i hb
        exact Or.inr (hkept _ rfl rfl (fun _ => by simp [hb]) (by simp [hb]))
      · rename_i hb
        exact Or.inr (hkept _ rfl rfl (fun _ => by simp [hb]) (by simp [hb]))
      · rename_i hb
        exact Or.inr (hkept _ rfl rfl (fun h => by cases h) (by simp [hb]))
      · exact Or.inl rfl
      · exact Or.inl rfl

theorem length_handle {s : Sessions} (h : s.entries.keys.length ≤ 8) (packet : Packet)
    (receivedAt : ℕ) : (s.handle packet receivedAt).1.entries.keys.length ≤ 8 := by
  rcases s.handle_spec packet receivedAt with hnone | ⟨s', entry, he, -, hstored⟩
  · rw [hnone]
    exact h
  · rw [he]
    exact hstored.room h

/-- A session expires alone. -/
theorem lookup_expire (s : Sessions) (now timeout : ℕ) (channel : UInt8) :
    (s.expire now timeout).entries.lookup channel =
      (s.entries.lookup channel).map fun e => e.expire now timeout := by
  rw [expire, AList.lookup_retain, Option.map_eq_bind]
  rfl

theorem lookup_of_no_history {s : Sessions} (h : s.hasHistory = false) (channel : UInt8) :
    s.entries.lookup channel = none := by
  have hnil : s.entries.entries = [] := by simpa [hasHistory] using h
  rw [AList.lookup_eq_none, AList.mem_keys, AList.keys, hnil]
  exact List.not_mem_nil

/-- No channel is forgotten or added by an expiry. -/
theorem length_expire (s : Sessions) (now timeout : ℕ) :
    (s.expire now timeout).entries.keys.length ≤ s.entries.keys.length :=
  (AList.keys_retain _ s.entries).length_le

end Sessions

namespace ServerSessions

variable {Addr : Type*} [DecidableEq Addr] (s : ServerSessions Addr)

theorem entryAt_newPeer (address : Addr) (connection now : ℕ) (a : Addr) (channel : UInt8) :
    (s.newPeer address connection now).entryAt a channel = s.entryAt a channel := by
  unfold newPeer entryAt
  split
  · rename_i peer hpeer
    by_cases ha : a = address
    · subst ha
      rw [AList.lookup_insert, hpeer]
      rfl
    · rw [AList.lookup_insert_ne ha]
  · rename_i hpeer
    split
    · by_cases ha : a = address
      · subst ha
        rw [AList.lookup_insert, hpeer]
        rfl
      · rw [AList.lookup_insert_ne ha]
    · rfl

/-- A peer that is dropped has no entry. -/
theorem entryAt_expirePeers (now : ℕ) (a : Addr) (channel : UInt8) :
    (s.expirePeers now).entryAt a channel = (s.entryAt a channel).map fun e => e.expire now idle := by
  unfold expirePeers entryAt
  rw [AList.lookup_retain]
  cases s.peers.lookup a with
  | none => rfl
  | some peer =>
    have hexpire := peer.sessions.lookup_expire now idle channel
    rw [Option.bind_some, Option.bind_some]
    split
    · rename_i hidle
      rw [← hexpire, Sessions.lookup_of_no_history hidle.2]
      rfl
    · exact hexpire

/-- **A packet arrives**: nothing changes, or it is accepted on its channel, and
answered. -/
theorem entryAt_serverPacket (address : Addr) (packet : Packet) (receivedAt : ℕ) :
    ((s.serverPacket address packet receivedAt).2 = none ∧
      (s.serverPacket address packet receivedAt).1.accepted = s.accepted ∧
      ∀ a channel, (s.serverPacket address packet receivedAt).1.entryAt a channel = s.entryAt a channel) ∨
    ((s.serverPacket address packet receivedAt).2 = some packet.reply ∧
      (s.serverPacket address packet receivedAt).1.accepted = s.accepted ++ [(address, packet)] ∧
      (∃ entry, (s.serverPacket address packet receivedAt).1.entryAt address packet.channel = some entry ∧
        Accepts (s.entryAt address packet.channel) packet entry) ∧
      ∀ a channel, ¬ (a = address ∧ channel = packet.channel) →
        (s.serverPacket address packet receivedAt).1.entryAt a channel = s.entryAt a channel) := by
  unfold serverPacket
  cases hpeer : s.peers.lookup address with
  | none => exact Or.inl ⟨rfl, rfl, fun _ _ => rfl⟩
  | some peer =>
    have hold : ∀ channel, s.entryAt address channel = peer.sessions.entries.lookup channel := by
      intro channel
      rw [entryAt, hpeer, Option.bind_some]
    simp only
    rcases peer.sessions.handle_spec packet receivedAt with hnone |
      ⟨sessions, entry, he, haccepts, hstored⟩
    · rw [hnone]
      refine Or.inl ⟨rfl, rfl, fun a channel => ?_⟩
      by_cases ha : a = address
      · subst ha
        rw [hold, entryAt, AList.lookup_insert, Option.bind_some]
      · rw [entryAt, AList.lookup_insert_ne ha, entryAt]
    · rw [he]
      refine Or.inr ⟨rfl, rfl, ⟨entry, ?_, ?_⟩, fun a channel hother => ?_⟩
      · rw [entryAt, AList.lookup_insert, Option.bind_some]
        exact hstored.lookup
      · rw [hold]
        exact haccepts
      · by_cases ha : a = address
        · subst ha
          rw [hold, entryAt, AList.lookup_insert, Option.bind_some]
          exact hstored.other channel fun hc => hother ⟨rfl, hc⟩
        · rw [entryAt, AList.lookup_insert_ne ha, entryAt]

omit [DecidableEq Addr] in
theorem heard_append [DecidableEq Addr] {s s' : ServerSessions Addr} {address : Addr} {packet : Packet}
    (h : s'.accepted = s.accepted ++ [(address, packet)]) (a : Addr) (channel : UInt8) :
    s'.heard a channel = s.heard a channel ++
      if a = address ∧ channel = packet.channel then [packet] else [] := by
  rw [heard, h, List.filterMap_append, heard]
  by_cases hat : a = address ∧ channel = packet.channel
  · obtain ⟨rfl, rfl⟩ := hat
    simp
  · have hat' : ¬ (address = a ∧ packet.channel = channel) := fun h => hat ⟨h.1.symm, h.2.symm⟩
    simp [hat, hat']

/-- **A step on one channel**: the session may expire, or accept one packet. -/
theorem entryAt_step (act : Act Addr) (a : Addr) (channel : UInt8) :
    ((s.step act).heard a channel = s.heard a channel ∧
      ((s.step act).entryAt a channel = s.entryAt a channel ∨
        ∃ now, (s.step act).entryAt a channel = (s.entryAt a channel).map fun e => e.expire now idle)) ∨
    ∃ packet entry, packet.channel = channel ∧
      (s.step act).heard a channel = s.heard a channel ++ [packet] ∧
      (s.step act).entryAt a channel = some entry ∧ Accepts (s.entryAt a channel) packet entry := by
  cases act with
  | newPeer address connection now =>
    refine Or.inl ⟨?_, Or.inl (s.entryAt_newPeer address connection now a channel)⟩
    simp only [step, newPeer]
    split
    · rfl
    · split <;> rfl
  | serverPacket address packet receivedAt =>
    simp only [step]
    rcases s.entryAt_serverPacket address packet receivedAt with ⟨-, hacc, hentry⟩ |
      ⟨-, hacc, ⟨entry, hentry, haccepts⟩, hother⟩
    · exact Or.inl ⟨by rw [heard, hacc, heard], Or.inl (hentry a channel)⟩
    · by_cases hat : a = address ∧ channel = packet.channel
      · obtain ⟨rfl, rfl⟩ := hat
        refine Or.inr ⟨packet, entry, rfl, ?_, hentry, haccepts⟩
        rw [heard_append hacc, if_pos ⟨rfl, rfl⟩]
      · refine Or.inl ⟨?_, Or.inl (hother a channel hat)⟩
        rw [heard_append hacc, if_neg hat, List.append_nil]
  | expirePeers now => exact Or.inl ⟨rfl, Or.inr ⟨now, s.entryAt_expirePeers now a channel⟩⟩

end ServerSessions

/-! ### The grammar of a channel -/

/-- The order of two packets accepted on one channel. -/
def Precedes (p q : Packet) : Prop :=
  p.generation < q.generation ∨
    p.generation = q.generation ∧ p.id = q.id ∧ (p.body = .close → q.body = .close)

theorem Precedes.trans {p q r : Packet} (h : Precedes p q) (h' : Precedes q r) : Precedes p r := by
  rcases h with hlt | ⟨hg, hi, hc⟩
  · left
    rcases h' with hlt' | ⟨hg', -, -⟩
    · exact Nat.lt_trans hlt hlt'
    · exact hg' ▸ hlt
  · rcases h' with hlt' | ⟨hg', hi', hc'⟩
    · left
      rw [hg]
      exact hlt'
    · exact Or.inr ⟨hg.trans hg', hi.trans hi', fun hp => hc' (hc hp)⟩

/-- The packets accepted on a channel, and its entry. -/
structure Recorded (log : List Packet) (entry : Option Entry) : Prop where
  order : log.Pairwise Precedes
  opens : ∀ pre packet post, log = pre ++ packet :: post →
    (∀ q ∈ pre, q.generation < packet.generation) → packet.body = .hello
  requests : ∀ packet ∈ log, packet.body ≠ .welcome
  empty : entry = none → log = []
  last : ∀ e, entry = some e → ∃ rest packet, log = rest ++ [packet] ∧
    packet.generation = e.generation ∧ packet.id = e.id ∧ (packet.body = .close → e.active = false)

theorem recorded_nil : Recorded [] none :=
  ⟨.nil, fun pre packet post h => by simp at h, fun _ h => (by cases h), fun _ => rfl,
    fun _ h => (by cases h)⟩

theorem Entry.expire_fields (e : Entry) (now timeout : ℕ) :
    (e.expire now timeout).generation = e.generation ∧ (e.expire now timeout).id = e.id ∧
      ((e.expire now timeout).active = true → e.active = true) := by
  unfold Entry.expire
  split
  · exact ⟨rfl, rfl, fun h => by cases h⟩
  · exact ⟨rfl, rfl, fun h => h⟩

theorem Recorded.expire {log : List Packet} {entry : Option Entry} (h : Recorded log entry)
    (now timeout : ℕ) : Recorded log (entry.map fun e => e.expire now timeout) := by
  refine ⟨h.order, h.opens, h.requests, fun hnone => h.empty (Option.map_eq_none_iff.mp hnone),
    fun e' he' => ?_⟩
  obtain ⟨e, he, rfl⟩ := Option.map_eq_some_iff.mp he'
  obtain ⟨hg, hi, hactive⟩ := e.expire_fields now timeout
  obtain ⟨rest, packet, hlog, hgen, hid, hclose⟩ := h.last e he
  refine ⟨rest, packet, hlog, hgen.trans hg.symm, hid.trans hi.symm, fun hb => ?_⟩
  by_contra hon
  rw [hclose hb] at hactive
  cases hactive (by simpa using hon)

/-- **An accepted packet comes after all that were accepted.** -/
theorem Recorded.accept {log : List Packet} {old : Option Entry} (h : Recorded log old)
    {packet : Packet} {entry : Entry} (ha : Accepts old packet entry) :
    Recorded (log ++ [packet]) (some entry) := by
  obtain ⟨hgen, hid, hwelcome, hkind⟩ := ha
  -- the last packet comes before this one, and this one opens a generation or continues it
  have hlast : ∀ rest p, log = rest ++ [p] → Precedes p packet := by
    intro rest p hlog
    have hlastOf : ∀ e, old = some e → p.generation = e.generation ∧ p.id = e.id ∧
        (p.body = .close → e.active = false) := by
      intro e he
      obtain ⟨rest', p', hlog', hp⟩ := h.last e he
      rw [hlog] at hlog'
      obtain ⟨-, hsame⟩ := List.append_inj' hlog' rfl
      cases hsame
      exact hp
    rcases hkind with ⟨-, hnew⟩ | ⟨e, he, hg, hi, -, hon⟩
    · cases hold : old with
      | none => simp [h.empty hold] at hlog
      | some e =>
        left
        rw [(hlastOf e hold).1]
        exact hnew e hold
    · obtain ⟨hpg, hpi, hpc⟩ := hlastOf e he
      refine Or.inr ⟨hpg.trans hg, hpi.trans hi, fun hp => ?_⟩
      rcases hon with hon | hclose
      · rw [hpc hp] at hon
        cases hon
      · exact hclose
  have hall : ∀ p ∈ log, Precedes p packet := by
    intro p hp
    obtain ⟨pre, post, hsplit⟩ := List.append_of_mem hp
    rcases List.eq_nil_or_concat post with rfl | ⟨post', z, rfl⟩
    · exact hlast pre p hsplit
    · have hz : Precedes z packet := hlast (pre ++ p :: post') z (by simp [hsplit])
      have hpz : Precedes p z := by
        have horder := h.order
        rw [hsplit, List.pairwise_append] at horder
        exact (List.pairwise_cons.mp horder.2.1).1 z (by simp)
      exact hpz.trans hz
  refine ⟨?_, fun pre x post hsplit hpre => ?_, fun p hp => ?_, fun hnone => (by cases hnone),
    fun e he => ?_⟩
  · rw [List.pairwise_append]
    exact ⟨h.order, List.pairwise_singleton _ _, fun p hp q hq => by
      rw [List.mem_singleton.mp hq]
      exact hall p hp⟩
  · rcases List.eq_nil_or_concat post with rfl | ⟨post', z, rfl⟩
    · obtain ⟨hlog, hx⟩ := List.append_inj' hsplit rfl
      cases hx
      rcases hkind with ⟨hhello, -⟩ | ⟨e, he, hg, -⟩
      · exact hhello
      · obtain ⟨rest, p, hlog', hpg, -⟩ := h.last e he
        have hlt := hpre p (by rw [← hlog, hlog']; simp)
        omega
    · rw [List.concat_eq_append, ← List.cons_append, ← List.append_assoc] at hsplit
      obtain ⟨hlog, -⟩ := List.append_inj' hsplit rfl
      exact h.opens pre x post' hlog hpre
  · rcases List.mem_append.mp hp with hp | hp
    · exact h.requests p hp
    · rw [List.mem_singleton.mp hp]
      exact hwelcome
  · cases he
    refine ⟨log, packet, rfl, hgen.symm, hid.symm, fun hclose => ?_⟩
    by_contra hon
    have hactive : entry.active = true := by simpa using hon
    rcases hkind with ⟨hhello, -⟩ | ⟨e, -, -, -, hkeep, -⟩
    · rw [hhello] at hclose
      cases hclose
    · exact (hkeep hactive).2 hclose

namespace ServerSessions

variable {Addr : Type*} [DecidableEq Addr] {s : ServerSessions Addr}

/-- **What every step keeps.** -/
structure Good (s : ServerSessions Addr) : Prop where
  recorded : ∀ a channel, Recorded (s.heard a channel) (s.entryAt a channel)
  peers : s.peers.keys.length ≤ maxPeers
  channels : ∀ a peer, s.peers.lookup a = some peer → peer.sessions.entries.keys.length ≤ 8

theorem good_default (Addr : Type*) [DecidableEq Addr] : Good (default Addr) :=
  ⟨fun _ _ => recorded_nil, by simp [default], fun _ _ h => (by cases h)⟩

theorem peers_step (h : s.peers.keys.length ≤ maxPeers) (act : Act Addr) :
    (s.step act).peers.keys.length ≤ maxPeers := by
  cases act with
  | newPeer address connection now =>
    simp only [step, newPeer]
    split
    · rename_i peer hpeer
      rw [AList.length_keys_insert (AList.lookup_isSome.mp (by rw [hpeer]; rfl))]
      exact h
    · rename_i hpeer
      split
      · rename_i hroom
        rw [AList.length_keys_insert_of_notMem (AList.lookup_eq_none.mp hpeer)]
        exact hroom
      · exact h
  | serverPacket address packet receivedAt =>
    simp only [step, serverPacket]
    split
    · exact h
    · rename_i peer hpeer
      have hmem : address ∈ s.peers := AList.lookup_isSome.mp (by rw [hpeer]; rfl)
      split
      · rw [AList.length_keys_insert hmem]
        exact h
      · rw [AList.length_keys_insert hmem]
        exact h
  | expirePeers now => exact Nat.le_trans (AList.keys_retain _ s.peers).length_le h

theorem channels_step
    (h : ∀ a peer, s.peers.lookup a = some peer → peer.sessions.entries.keys.length ≤ 8)
    (act : Act Addr) : ∀ a peer, (s.step act).peers.lookup a = some peer →
      peer.sessions.entries.keys.length ≤ 8 := by
  -- the entry of one address is new, the others are as they were
  have hinsert : ∀ {address : Addr} {new : Peer}, new.sessions.entries.keys.length ≤ 8 →
      ∀ a peer, (s.peers.insert address new).lookup a = some peer →
        peer.sessions.entries.keys.length ≤ 8 := by
    intro address new hnew a peer hpeer
    by_cases ha : a = address
    · subst ha
      rw [AList.lookup_insert] at hpeer
      cases hpeer
      exact hnew
    · rw [AList.lookup_insert_ne ha] at hpeer
      exact h a peer hpeer
  cases act with
  | newPeer address connection now =>
    simp only [step, newPeer]
    split
    · rename_i old hold
      exact hinsert (h address old hold)
    · split
      · exact hinsert (by simp [Sessions.default])
      · exact h
  | serverPacket address packet receivedAt =>
    simp only [step, serverPacket]
    split
    · exact h
    · rename_i old hold
      have hlen := Sessions.length_handle (h address old hold) packet receivedAt
      split
      · rename_i sessions reply he
        rw [he] at hlen
        exact hinsert hlen
      · rename_i sessions he
        rw [he] at hlen
        exact hinsert hlen
  | expirePeers now =>
    intro a peer hpeer
    simp only [step, expirePeers] at hpeer
    rw [AList.lookup_retain] at hpeer
    obtain ⟨old, hold, hpeer⟩ := Option.bind_eq_some_iff.mp hpeer
    split at hpeer
    · cases hpeer
    · cases hpeer
      exact Nat.le_trans (old.sessions.length_expire now idle) (h a old hold)

theorem good_step (h : Good s) (act : Act Addr) : Good (s.step act) := by
  refine ⟨fun a channel => ?_, peers_step h.peers act, channels_step h.channels act⟩
  have hr := h.recorded a channel
  rcases s.entryAt_step act a channel with ⟨hheard, he | ⟨now, he⟩⟩ |
    ⟨packet, entry, -, hheard, he, haccepts⟩
  · rw [hheard, he]
    exact hr
  · rw [hheard, he]
    exact hr.expire now idle
  · rw [hheard, he]
    exact hr.accept haccepts

theorem good_run (as : List (Act Addr)) : Good (run step (default Addr) as) :=
  run_inv (I := Good) (fun _ a h => good_step h a) as (good_default Addr)

/-- **What the server accepts.** After any packets from any addresses, at any
times, and any frames, there are at most 64 peers with 8 channels each, and on
every channel of every address: the packets accepted have generations that do
not decrease; a generation begins with a `Hello`, has one identifier, and after
a `Close` only `Close`; a `Welcome` is not accepted; and the entry is that of the
last packet, whatever expired in between, and not active if that was a `Close`. -/
theorem accepted_in_order (as : List (Act Addr)) :
    let s := run step (default Addr) as
    s.peers.keys.length ≤ maxPeers ∧
    (∀ a peer, s.peers.lookup a = some peer → peer.sessions.entries.keys.length ≤ 8) ∧
    ∀ a channel, (s.heard a channel).Pairwise Precedes ∧
      (∀ pre packet post, s.heard a channel = pre ++ packet :: post →
        (∀ q ∈ pre, q.generation < packet.generation) → packet.body = .hello) ∧
      (∀ packet ∈ s.heard a channel, packet.body ≠ .welcome) ∧
      (s.entryAt a channel = none → s.heard a channel = []) ∧
      ∀ e, s.entryAt a channel = some e → ∃ rest packet, s.heard a channel = rest ++ [packet] ∧
        packet.generation = e.generation ∧ packet.id = e.id ∧ (packet.body = .close → e.active = false) := by
  intro s
  have h : Good s := good_run as
  refine ⟨h.peers, h.channels, fun a channel => ?_⟩
  have hr := h.recorded a channel
  exact ⟨hr.order, hr.opens, hr.requests, hr.empty, hr.last⟩

/-! ### What is over stays over -/

/-- The session of the entry is over: what is accepted after it is the
acknowledgement of its `Close`, or of a later generation. -/
structure Over (e : Entry) (log : List Packet) (a : Addr) (channel : UInt8) (s : ServerSessions Addr) :
    Prop where
  heard : ∃ more, s.heard a channel = log ++ more ∧ ∀ q ∈ more, e.generation < q.generation ∨
    q.generation = e.generation ∧ q.id = e.id ∧ q.body = .close
  entry : ∃ e', s.entryAt a channel = some e' ∧ (e.generation < e'.generation ∨
    e'.generation = e.generation ∧ e'.id = e.id ∧ e'.active = false)

theorem over_step {e : Entry} {log : List Packet} {a : Addr} {channel : UInt8}
    (h : Over e log a channel s) (act : Act Addr) : Over e log a channel (s.step act) := by
  obtain ⟨⟨more, hmore, hall⟩, e', he', hover⟩ := h
  rcases s.entryAt_step act a channel with ⟨hheard, he | ⟨now, he⟩⟩ |
    ⟨packet, entry, -, hheard, he, hgen, hid, -, hkind⟩
  · exact ⟨⟨more, hheard.trans hmore, hall⟩, e', he.trans he', hover⟩
  · obtain ⟨hg, hi, hactive⟩ := e'.expire_fields now idle
    refine ⟨⟨more, hheard.trans hmore, hall⟩, e'.expire now idle, by rw [he, he', Option.map_some], ?_⟩
    rcases hover with hlt | ⟨hg', hi', hoff⟩
    · exact Or.inl (by omega)
    · refine Or.inr ⟨hg.trans hg', hi.trans hi', ?_⟩
      by_contra hon
      rw [hactive (by simpa using hon)] at hoff
      cases hoff
  · rw [he'] at hkind
    have hnew : e.generation < packet.generation ∨
        packet.generation = e.generation ∧ packet.id = e.id ∧ packet.body = .close ∧
          entry.active = false := by
      rcases hkind with ⟨-, hlater⟩ | ⟨old, hold, hg, hi, hkeep, hon⟩
      · have hlt := hlater e' rfl
        rcases hover with hlt' | ⟨hg', -, -⟩
        · exact Or.inl (by omega)
        · exact Or.inl (by omega)
      · cases hold
        rcases hover with hlt | ⟨hg', hi', hoff⟩
        · exact Or.inl (by omega)
        · have hclose : packet.body = .close := hon.resolve_left (by rw [hoff]; simp)
          refine Or.inr ⟨hg.symm.trans hg', hi.symm.trans hi', hclose, ?_⟩
          by_contra hactive
          exact (hkeep (by simpa using hactive)).2 hclose
    refine ⟨⟨more ++ [packet], by rw [hheard, hmore, List.append_assoc], fun q hq => ?_⟩, entry, he, ?_⟩
    · rcases List.mem_append.mp hq with hq | hq
      · exact hall q hq
      · rw [List.mem_singleton.mp hq]
        exact hnew.imp id fun hsame => ⟨hsame.1, hsame.2.1, hsame.2.2.1⟩
    · rw [hgen, hid]
      exact hnew.imp id fun hsame => ⟨hsame.1, hsame.2.1, hsame.2.2.2⟩

/-- **No second life.** Once a session is closed or has expired, whatever arrives
after that, and in whatever order: no packet of it or of an earlier generation is
accepted, but for its `Close`, which changes nothing, and the session is not
active again. -/
theorem closed_for_good (as bs : List (Act Addr)) (a : Addr) (channel : UInt8) (e : Entry)
    (he : (run step (default Addr) as).entryAt a channel = some e) (hoff : e.active = false) :
    let s := run step (default Addr) as
    let t := run step s bs
    (∃ more, t.heard a channel = s.heard a channel ++ more ∧
      ∀ q ∈ more, e.generation < q.generation ∨
        q.generation = e.generation ∧ q.id = e.id ∧ q.body = .close) ∧
    ∃ e', t.entryAt a channel = some e' ∧ (e.generation < e'.generation ∨
      e'.generation = e.generation ∧ e'.id = e.id ∧ e'.active = false) := by
  intro s t
  have hover : Over e (s.heard a channel) a channel t :=
    run_inv (I := fun t => Over e (s.heard a channel) a channel t) (fun _ act h => over_step h act) bs
      ⟨⟨[], (List.append_nil _).symm, fun _ h => (by cases h)⟩, e, he, Or.inr ⟨rfl, rfl, hoff⟩⟩
  exact ⟨hover.heard, hover.entry⟩

/-- A session is replaced and the new one expires; then packets of both come
late, and a third one opens. -/
theorem closed_for_good_late :
    let packet (generation : ℕ) (body : Body) : Packet := ⟨1, generation, [9], body⟩
    let as : List (Act ℕ) := [.newPeer 5 0 0, .serverPacket 5 (packet 1 .hello) 10,
      .serverPacket 5 (packet 2 .hello) 20, .expirePeers 600000000]
    let bs : List (Act ℕ) := [.serverPacket 5 (packet 2 .hello) 30, .serverPacket 5 (packet 1 .close) 40,
      .serverPacket 5 (packet 2 .close) 50, .serverPacket 5 (packet 2 .ping) 60,
      .serverPacket 5 (packet 3 .hello) 70]
    let s := run step (default ℕ) as
    let t := run step s bs
    s.heard 5 1 = [packet 1 .hello, packet 2 .hello] ∧
    t.heard 5 1 = s.heard 5 1 ++ [packet 2 .close, packet 3 .hello] ∧
    ∃ e', t.entryAt 5 1 = some e' ∧ (2 < e'.generation ∨
      e'.generation = 2 ∧ e'.id = [9] ∧ e'.active = false) := by
  intro packet as bs s t
  have he : s.entryAt 5 1 = some ⟨2, [9], 20, false⟩ := by decide +kernel
  exact ⟨by decide +kernel, by decide +kernel, (closed_for_good as bs 5 1 _ he rfl).2⟩

end ServerSessions
end App
end Slinet
