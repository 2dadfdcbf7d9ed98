/-
# Application sessions over UDP: the protocol

The client of `examples/udp_application_sessions.rs` beside its server
(`Slinet.AppSessions`), with everything that either has sent: any of it may
arrive at any time, again, late or never. Each request of the client opens a
session, replaces it, sends data and closes, and goes on only with the reply to
the packet it repeats; that is a script (`Slinet.StopAndWait`) on a channel of
its own.

So the two sides agree at every moment (`phases_agree`): what a request has
behind it was accepted, in its order; the server is at most one packet ahead; and
when the client is done, the server has the second session and has closed it.
-/
import Slinet.AppSessions
import Slinet.StopAndWait

namespace Slinet
namespace App

open StopAndWait

inductive Phase
  | initial
  | replacement
  | echo
  | closing
  | done
  deriving DecidableEq, Repr

/-- `RETRY`, in nanoseconds. -/
def retry : ℕ := 50000000

/-- The bytes of `application data`. -/
def applicationData : List UInt8 :=
  [97, 112, 112, 108, 105, 99, 97, 116, 105, 111, 110, 32, 100, 97, 116, 97]

structure Request where
  old : Packet
  current : Packet
  phase : Phase
  lastSent : Option ℕ
  deriving DecidableEq, Repr

namespace Request

/-- `Request::matches`. -/
def isFor (r : Request) (packet : Packet) : Bool :=
  let expected := if r.phase = .initial then r.old else r.current
  packet.channel = expected.channel ∧ packet.generation = expected.generation ∧
    packet.id = expected.id

def outgoing (r : Request) : Option Packet :=
  match r.phase with
  | .initial => some r.old
  | .replacement => some { r.current with body := .hello }
  | .echo => some { r.current with body := .data applicationData }
  | .closing => some { r.current with body := .close }
  | .done => none

/-- What `client_packet` does with the request that it has found. -/
def answer (r : Request) (packet : Packet) : Request :=
  match packet.body, r.phase with
  | .welcome, .initial => { r with phase := .replacement, lastSent := none }
  | .welcome, .replacement => { r with phase := .echo, lastSent := none }
  | .data data, .echo => if data = applicationData then { r with phase := .closing, lastSent := none } else r
  | .close, .closing => { r with phase := .done, lastSent := none }
  | _, _ => r

end Request

structure ClientSessions where
  connected : Bool
  requests : List Request
  attempts : ℕ

/-- `client_sessions`, with the random identifiers given; a channel is a `u8`. -/
def clientSessions (ids : List (List UInt8 × List UInt8)) : Option ClientSessions :=
  if ids.length ≤ 256 then
    some ⟨false, ids.mapIdx fun channel x => ⟨⟨UInt8.ofNat channel, 1, x.1, .hello⟩,
      ⟨UInt8.ofNat channel, 2, x.2, .hello⟩, .initial, none⟩, 0⟩
  else none

/-- The loop of `drive_client` over a queue with this room: a send that fails ends
it. -/
def driveRequests (now : ℕ) : List Request → ℕ → List Request × List Packet × Bool
  | [], _ => ([], [], true)
  | r :: rest, room =>
    if r.lastSent.any fun last => now - last < retry then
      let (rest', sent, ok) := driveRequests now rest room
      (r :: rest', sent, ok)
    else
      match r.outgoing with
      | none =>
        let (rest', sent, ok) := driveRequests now rest room
        (r :: rest', sent, ok)
      | some packet =>
        match room with
        | 0 => (r :: rest, [], false)
        | room + 1 =>
          let (rest', sent, ok) := driveRequests now rest room
          ({ r with lastSent := some now } :: rest', packet :: sent, ok)

namespace ClientSessions

def driveClient (s : ClientSessions) (now room : ℕ) : ClientSessions × List Packet :=
  if s.connected = false then (s, [])
  else
    match driveRequests now s.requests room with
    | (requests, sent, true) =>
      ({ s with requests := requests, attempts := s.attempts + sent.length }, sent)
    | (requests, sent, false) => ({ s with requests := requests }, sent)

def clientPacket (s : ClientSessions) (packet : Packet) : ClientSessions :=
  match s.requests.findIdx? fun r => r.isFor packet with
  | none => s
  | some k => { s with requests := s.requests.modify k fun r => r.answer packet }

end ClientSessions

/-- The two sides, and all packets that the client has sent and the server has
replied to it. -/
structure Demo (Addr : Type*) where
  client : ClientSessions
  server : ServerSessions Addr
  toServer : List Packet
  toClient : List Packet

namespace Demo

variable {Addr : Type*}

def start (Addr : Type*) (client : ClientSessions) : Demo Addr := ⟨client, .default Addr, [], []⟩

/-- The client's connection is ready, its system runs, a packet arrives on one
side, perhaps not for the first time; other addresses send what they like. -/
inductive Act (Addr : Type*)
  | ready
  | driveClient (now room : ℕ)
  | clientPacket (m : ℕ)
  | serverPacket (m receivedAt : ℕ)
  | foreign (address : Addr) (packet : Packet) (receivedAt : ℕ)
  | newPeer (address : Addr) (connection now : ℕ)
  | expirePeers (now : ℕ)

variable [DecidableEq Addr]

/-- A step, for a client at the address `home`. -/
def step (home : Addr) (s : Demo Addr) : Act Addr → Demo Addr
  | .ready => { s with client := { s.client with connected := true } }
  | .driveClient now room =>
    match s.client.driveClient now room with
    | (client, sent) => { s with client := client, toServer := s.toServer ++ sent }
  | .clientPacket m =>
    match s.toClient[m]? with
    | none => s
    | some packet => { s with client := s.client.clientPacket packet }
  | .serverPacket m receivedAt =>
    match s.toServer[m]? with
    | none => s
    | some packet =>
      match s.server.serverPacket home packet receivedAt with
      | (server, reply) => { s with server := server, toClient := s.toClient ++ reply.toList }
  | .foreign address packet receivedAt =>
    if address = home then s
    else { s with server := (s.server.serverPacket address packet receivedAt).1 }
  | .newPeer address connection now => { s with server := s.server.newPeer address connection now }
  | .expirePeers now => { s with server := s.server.expirePeers now }

end Demo

/-! ### The script of a request -/

namespace Request

/-- The packets that the request sends, one after the other. -/
def script (r : Request) : List Packet :=
  [r.old, { r.current with body := .hello }, { r.current with body := .data applicationData },
    { r.current with body := .close }]

/-- The packets that the request has behind it. -/
def place (r : Request) : ℕ :=
  match r.phase with
  | .initial => 0
  | .replacement => 1
  | .echo => 2
  | .closing => 3
  | .done => 4

theorem outgoing_eq (r : Request) : r.outgoing = r.script[r.place]? := by
  unfold outgoing place script
  cases r.phase <;> rfl

/-- As `client_sessions` makes them. -/
structure Proper (r : Request) : Prop where
  channel : r.current.channel = r.old.channel
  old : r.old.generation = 1 ∧ r.old.body = .hello
  current : r.current.generation = 2

theorem Proper.channel_of_mem {r : Request} (h : r.Proper) {m : Packet} (hm : m ∈ r.script) :
    m.channel = r.old.channel := by
  have hc := h.channel
  simp only [script, List.mem_cons, List.not_mem_nil, or_false] at hm
  rcases hm with rfl | rfl | rfl | rfl
  · rfl
  · exact hc
  · exact hc
  · exact hc

/-- No two packets of the script have the same reply. -/
theorem Proper.nodup {r : Request} (h : r.Proper) : (r.script.map Packet.reply).Nodup := by
  obtain ⟨hg, hb⟩ := h.old
  have hne : r.old.generation ≠ r.current.generation := by
    rw [hg, h.current]
    omega
  simp [script, Packet.reply, hb, hne]

/-- **The request goes on** only with the reply to its packet. -/
theorem answer_spec {r : Request} (h : r.Proper) {packet : Packet} (hmatch : r.isFor packet = true) :
    r.answer packet = r ∨
    (r.answer packet).old = r.old ∧ (r.answer packet).current = r.current ∧
      (r.answer packet).place = r.place + 1 ∧ ∃ m, r.script[r.place]? = some m ∧ packet = m.reply := by
  have hb := h.old.2
  simp only [isFor, decide_eq_true_eq] at hmatch
  unfold answer
  split
  · rename_i hbody hphase
    rw [if_pos hphase] at hmatch
    refine Or.inr ⟨rfl, rfl, by simp [place, hphase], r.old, by simp [place, hphase, script], ?_⟩
    rw [Packet.reply, hb]
    exact Packet.ext hmatch.1 hmatch.2.1 hmatch.2.2 hbody
  · rename_i hbody hphase
    rw [if_neg (by simp [hphase])] at hmatch
    refine Or.inr ⟨rfl, rfl, by simp [place, hphase], _, by simp [place, hphase, script]; rfl, ?_⟩
    exact Packet.ext hmatch.1 hmatch.2.1 hmatch.2.2 hbody
  · rename_i data hbody hphase
    split
    · rename_i hdata
      rw [if_neg (by simp [hphase])] at hmatch
      refine Or.inr ⟨rfl, rfl, by simp [place, hphase], _, by simp [place, hphase, script]; rfl, ?_⟩
      exact Packet.ext hmatch.1 hmatch.2.1 hmatch.2.2 (by rw [hbody, hdata]; rfl)
    · exact Or.inl rfl
  · rename_i hbody hphase
    rw [if_neg (by simp [hphase])] at hmatch
    refine Or.inr ⟨rfl, rfl, by simp [place, hphase], _, by simp [place, hphase, script]; rfl, ?_⟩
    exact Packet.ext hmatch.1 hmatch.2.1 hmatch.2.2 hbody
  · exact Or.inl rfl

/-- What of a request its packets are made of. -/
def core (r : Request) : Packet × Packet := (r.old, r.current)

theorem core_answer (r : Request) (packet : Packet) : (r.answer packet).core = r.core := by
  unfold answer
  split
  · rfl
  · rfl
  · split <;> rfl
  · rfl
  · rfl

theorem script_of_core {r r' : Request} (h : r'.core = r.core) : r'.script = r.script := by
  obtain ⟨ho, hc⟩ := Prod.mk.inj h
  rw [script, script, ho, hc]

end Request

/-- A send of `drive_client` is what its request sends next. -/
theorem driveRequests_spec (now : ℕ) : ∀ (l : List Request) (room : ℕ),
    (driveRequests now l room).1.map (fun r => (r.core, r.phase)) = l.map (fun r => (r.core, r.phase)) ∧
    ∀ m ∈ (driveRequests now l room).2.1, ∃ r ∈ l, r.outgoing = some m
  | [], _ => ⟨rfl, fun _ h => (by cases h)⟩
  | r :: rest, room => by
    have hlater : ∀ {sent : List Packet}, (∀ m ∈ sent, ∃ r ∈ rest, r.outgoing = some m) →
        ∀ m ∈ sent, ∃ r' ∈ r :: rest, r'.outgoing = some m := by
      intro sent h m hm
      obtain ⟨r', hr', ho⟩ := h m hm
      exact ⟨r', List.mem_cons_of_mem r hr', ho⟩
    have hskip : ∀ room, ((r :: (driveRequests now rest room).1).map fun r => (r.core, r.phase)) =
        ((r :: rest).map fun r => (r.core, r.phase)) := fun room => by
      rw [List.map_cons, (driveRequests_spec now rest room).1, List.map_cons]
    by_cases hlast : r.lastSent.any fun last => now - last < retry
    · rw [driveRequests, if_pos hlast]
      exact ⟨hskip room, hlater (driveRequests_spec now rest room).2⟩
    rw [driveRequests, if_neg hlast]
    cases ho : r.outgoing with
    | none => exact ⟨hskip room, hlater (driveRequests_spec now rest room).2⟩
    | some packet =>
      cases room with
      | zero => exact ⟨rfl, fun _ h => (by cases h)⟩
      | succ room =>
        refine ⟨hskip room, fun m hm => ?_⟩
        rcases List.mem_cons.mp hm with rfl | hm
        · exact ⟨r, List.mem_cons_self, ho⟩
        · exact hlater (driveRequests_spec now rest room).2 m hm

/-! ### What every step keeps -/

/-- The packets of one channel. -/
def on (channel : UInt8) (l : List Packet) : List Packet := l.filter fun m => m.channel = channel

theorem on_append (channel : UInt8) (l l' : List Packet) : on channel (l ++ l') = on channel l ++ on channel l' :=
  List.filter_append ..

theorem mem_on {channel : UInt8} {l : List Packet} {m : Packet} :
    m ∈ on channel l ↔ m ∈ l ∧ m.channel = channel := by
  simp [on]

namespace Demo

variable {Addr : Type*} [DecidableEq Addr]

/-- The requests are those of the start, each in step with the server. -/
structure Good (home : Addr) (requests : List Request) (s : Demo Addr) : Prop where
  server : s.server.Good
  core : s.client.requests.map Request.core = requests.map Request.core
  inStep : ∀ r ∈ s.client.requests, InStep r.script Packet.reply (on r.old.channel s.toServer)
    (s.server.heard home r.old.channel) (on r.old.channel s.toClient) r.place

/-- The requests of the start, each on its own channel. -/
structure Distinct (requests : List Request) : Prop where
  proper : ∀ r ∈ requests, r.Proper
  channels : (requests.map fun r => r.old.channel).Nodup

theorem distinct_clientSessions {ids : List (List UInt8 × List UInt8)} {client : ClientSessions}
    (h : clientSessions ids = some client) : Distinct client.requests := by
  unfold clientSessions at h
  split at h
  · rename_i hlen
    cases h
    refine ⟨fun r hr => ?_, ?_⟩
    · obtain ⟨k, hk, rfl⟩ := List.mem_mapIdx.mp hr
      exact ⟨rfl, ⟨rfl, rfl⟩, rfl⟩
    · rw [List.nodup_iff_injective_getElem]
      intro a b hab
      have hb := b.isLt
      have ha := a.isLt
      simp only [List.length_map, List.length_mapIdx] at ha hb
      simp only [List.getElem_map, List.getElem_mapIdx] at hab
      have hnat := congrArg UInt8.toNat hab
      simp only [UInt8.toNat_ofNat'] at hnat
      exact Fin.ext (by omega)
  · cases h

section Steps

variable {home : Addr} {requests : List Request} {s : Demo Addr}

theorem Good.distinct (h : Good home requests s) (hd : Distinct requests) :
    Distinct s.client.requests := by
  refine ⟨fun r hr => ?_, ?_⟩
  · have hmem : r.core ∈ requests.map Request.core := h.core ▸ List.mem_map_of_mem hr
    obtain ⟨r', hr', he⟩ := List.mem_map.mp hmem
    obtain ⟨ho, hc⟩ := Prod.mk.inj he
    have hp := hd.proper r' hr'
    exact ⟨by rw [← hc, ← ho]; exact hp.channel, by rw [← ho]; exact hp.old, by rw [← hc]; exact hp.current⟩
  · have hchannels := congrArg (List.map fun x : Packet × Packet => x.1.channel) h.core
    rw [List.map_map, List.map_map] at hchannels
    have hnodup := hd.channels
    rwa [show requests.map (fun r => r.old.channel) = s.client.requests.map fun r => r.old.channel from
      hchannels.symm] at hnodup

/-- The client has sent more. -/
theorem good_driveClient (hd : Distinct requests) (h : Good home requests s) (now room : ℕ) :
    Good home requests (s.step home (.driveClient now room)) := by
  obtain ⟨hkey, hsent⟩ := driveRequests_spec now s.client.requests room
  have hdistinct := h.distinct hd
  have hmove : ∀ {client : ClientSessions},
      client.requests = (driveRequests now s.client.requests room).1 → Good home requests
        { s with client := client, toServer := s.toServer ++ (driveRequests now s.client.requests room).2.1 } := by
    intro client hclient
    refine ⟨h.server, ?_, fun r' hr' => ?_⟩
    · show client.requests.map Request.core = _
      have hcore := congrArg (List.map Prod.fst) hkey
      rw [List.map_map, List.map_map] at hcore
      rw [hclient]
      exact hcore.trans h.core
    · have hmem : (r'.core, r'.phase) ∈ s.client.requests.map fun r => (r.core, r.phase) := by
        rw [← hkey, ← hclient]
        exact List.mem_map_of_mem hr'
      obtain ⟨r, hr, he⟩ := List.mem_map.mp hmem
      obtain ⟨hcore, hphase⟩ := Prod.mk.inj he
      have hplace : r'.place = r.place := by rw [Request.place, Request.place, hphase]
      have hold : r'.old = r.old := (congrArg Prod.fst hcore).symm
      rw [Request.script_of_core hcore.symm, hplace, hold]
      show InStep _ _ (on r.old.channel (s.toServer ++ _)) _ _ _
      rw [on_append]
      refine (h.inStep r hr).send fun m hm => ?_
      -- of all that is sent now, only this request's packet is on its channel
      obtain ⟨hm, hchannel⟩ := mem_on.mp hm
      obtain ⟨r₂, hr₂, ho⟩ := hsent m hm
      rw [Request.outgoing_eq] at ho
      have hchannel₂ := (hdistinct.proper r₂ hr₂).channel_of_mem (List.mem_of_getElem? ho)
      have hsame : r₂ = r :=
        List.inj_on_of_nodup_map hdistinct.channels hr₂ hr (hchannel₂.symm.trans hchannel)
      rw [← hsame]
      exact ho
  simp only [step, ClientSessions.driveClient]
  by_cases hconnected : s.client.connected = false
  · rw [if_pos hconnected]
    simp only [List.append_nil]
    exact h
  · rw [if_neg hconnected]
    generalize hdrive : driveRequests now s.client.requests room = drive at hmove
    obtain ⟨requests', sent, ok⟩ := drive
    cases ok with
    | true => exact hmove rfl
    | false => exact hmove rfl

/-- A packet reaches the client. -/
theorem good_clientPacket (hd : Distinct requests) (h : Good home requests s) (m : ℕ) :
    Good home requests (s.step home (.clientPacket m)) := by
  have hdistinct := h.distinct hd
  simp only [step]
  split
  · exact h
  rename_i packet hpacket
  simp only [ClientSessions.clientPacket]
  split
  · exact h
  rename_i k hk
  refine ⟨h.server, ?_, fun r' hr' => ?_⟩
  · rw [← h.core]
    refine List.ext_getElem? fun j => ?_
    simp only [List.getElem?_map, List.getElem?_modify]
    cases s.client.requests[j]? with
    | none => rfl
    | some r =>
      by_cases hkj : k = j
      · simp [hkj, Request.core_answer]
      · simp [hkj]
  · obtain ⟨j, hj⟩ := List.mem_iff_getElem?.mp hr'
    rw [List.getElem?_modify] at hj
    obtain ⟨r, hr, rfl⟩ := Option.map_eq_some_iff.mp hj
    have hmem : r ∈ s.client.requests := List.mem_of_getElem? hr
    by_cases hkj : k = j
    · rw [if_pos hkj]
      subst hkj
      have hmatch : r.isFor packet = true := by
        obtain ⟨hlt, hp, -⟩ := List.findIdx?_eq_some_iff_getElem.mp hk
        obtain ⟨_, rfl⟩ := List.getElem?_eq_some_iff.mp hr
        exact hp
      have hproper := hdistinct.proper r hmem
      rcases r.answer_spec hproper hmatch with he | ⟨hold, hcurrent, hplace, m', hm', hreply⟩
      · rw [he]
        exact h.inStep r hmem
      · rw [Request.script_of_core (r.core_answer packet), hold, hplace]
        refine (h.inStep r hmem).advance hproper.nodup hm' (mem_on.mpr ⟨?_, ?_⟩)
        · rw [← hreply]
          exact List.mem_of_getElem? hpacket
        · have hchannel : m'.reply.channel = m'.channel := by
            unfold Packet.reply
            split <;> rfl
          rw [hchannel]
          exact hproper.channel_of_mem (List.mem_of_getElem? hm')
    · rw [if_neg hkj]
      exact h.inStep r hmem

/-- A packet of the client reaches the server. -/
theorem good_serverPacket (h : Good home requests s) (m receivedAt : ℕ) :
    Good home requests (s.step home (.serverPacket m receivedAt)) := by
  simp only [step]
  split
  · exact h
  rename_i packet hpacket
  have hserver := ServerSessions.good_step h.server (.serverPacket home packet receivedAt)
  rcases s.server.entryAt_serverPacket home packet receivedAt with ⟨hnone, hacc, -⟩ | ⟨hreply, hacc, -, -⟩
  · refine ⟨hserver, h.core, fun r hr => ?_⟩
    have hheard : (s.server.serverPacket home packet receivedAt).1.heard home r.old.channel =
        s.server.heard home r.old.channel := by
      rw [ServerSessions.heard, hacc, ServerSessions.heard]
    rw [hheard, hnone, Option.toList_none, List.append_nil]
    exact h.inStep r hr
  · refine ⟨hserver, h.core, fun r hr => ?_⟩
    rw [ServerSessions.heard_append hacc, hreply, Option.toList_some, on_append]
    have hchannel : packet.reply.channel = packet.channel := by
      unfold Packet.reply
      split <;> rfl
    by_cases hon : r.old.channel = packet.channel
    · rw [if_pos ⟨rfl, hon⟩]
      have hsingle : on r.old.channel [packet.reply] = [packet.reply] := by simp [on, hchannel, hon]
      rw [hsingle]
      exact (h.inStep r hr).accept (mem_on.mpr ⟨List.mem_of_getElem? hpacket, hon.symm⟩)
    · rw [if_neg fun hboth => hon hboth.2, List.append_nil]
      have hnil : on r.old.channel [packet.reply] = [] := by simp [on, hchannel, Ne.symm hon]
      rw [hnil, List.append_nil]
      exact h.inStep r hr

/-- The server goes on without the client. -/
theorem Good.serve (h : Good home requests s) (act : ServerSessions.Act Addr)
    (hheard : ∀ channel, (s.server.step act).heard home channel = s.server.heard home channel) :
    Good home requests { s with server := s.server.step act } :=
  ⟨ServerSessions.good_step h.server act, h.core, fun r hr => by
    rw [hheard]
    exact h.inStep r hr⟩

theorem good_step (hd : Distinct requests) (h : Good home requests s) (act : Act Addr) :
    Good home requests (s.step home act) := by
  cases act with
  | ready => exact ⟨h.server, h.core, h.inStep⟩
  | driveClient now room => exact good_driveClient hd h now room
  | clientPacket m => exact good_clientPacket hd h m
  | serverPacket m receivedAt => exact good_serverPacket h m receivedAt
  | foreign address packet receivedAt =>
    simp only [step]
    split
    · exact h
    rename_i hhome
    refine h.serve (.serverPacket address packet receivedAt) fun channel => ?_
    rcases s.server.entryAt_serverPacket address packet receivedAt with ⟨-, hacc, -⟩ | ⟨-, hacc, -, -⟩
    · rw [ServerSessions.heard, ServerSessions.step, hacc, ServerSessions.heard]
    · rw [ServerSessions.step, ServerSessions.heard_append hacc, if_neg fun hboth => hhome hboth.1.symm,
        List.append_nil]
  | newPeer address connection now =>
    refine h.serve (.newPeer address connection now) fun channel => ?_
    simp only [ServerSessions.step, ServerSessions.newPeer]
    split
    · rfl
    · split <;> rfl
  | expirePeers now => exact h.serve (.expirePeers now) fun channel => rfl

theorem good_run (home : Addr) {client : ClientSessions} {ids : List (List UInt8 × List UInt8)}
    (h : clientSessions ids = some client) (as : List (Act Addr)) :
    Good home client.requests (run (step home) (start Addr client) as) := by
  refine run_inv (I := Good home client.requests)
    (fun _ a hs => good_step (distinct_clientSessions h) hs a) as
    ⟨ServerSessions.good_default Addr, rfl, fun r hr => ?_⟩
  have hplace : r.place = 0 := by
    unfold clientSessions at h
    split at h
    · cases h
      obtain ⟨k, hk, rfl⟩ := List.mem_mapIdx.mp hr
      rfl
    · cases h
  rw [hplace]
  exact inStep_nil r.script Packet.reply

/-- **The two sides agree**, whatever is lost, repeated, late or forged from
elsewhere, and whatever the server expires. Each request goes through its script:
the packets it has behind it were accepted in that order, the server has
accepted none beyond the one it sends now; and when it is done, the server's
entry for its channel is its second session, which is not active. -/
theorem phases_agree (home : Addr) (ids : List (List UInt8 × List UInt8)) (client : ClientSessions)
    (hclient : clientSessions ids = some client) (as : List (Act Addr)) :
    let s := run (step home) (start Addr client) as
    s.client.requests.map Request.core = client.requests.map Request.core ∧
    ∀ r ∈ s.client.requests,
      (r.script.take r.place).Sublist (s.server.heard home r.old.channel) ∧
      (∀ m ∈ s.server.heard home r.old.channel, m ∈ r.script.take (r.place + 1)) ∧
      (r.phase = .done → ∃ e, s.server.entryAt home r.old.channel = some e ∧
        e.generation = r.current.generation ∧ e.id = r.current.id ∧ e.active = false) := by
  intro s
  have h : Good home client.requests s := good_run home hclient as
  refine ⟨h.core, fun r hr => ?_⟩
  have hin := h.inStep r hr
  refine ⟨hin.done, fun m hm => hin.ahead hm, fun hdone => ?_⟩
  have hproper := (h.distinct (distinct_clientSessions hclient)).proper r hr
  have hrecorded := h.server.recorded home r.old.channel
  -- its `Close` was accepted, and nothing after that but the same again
  have hclose : { r.current with body := .close } ∈ s.server.heard home r.old.channel := by
    have hplace : r.place = 4 := by simp [Request.place, hdone]
    have hscript := hin.done
    rw [hplace] at hscript
    exact hscript.subset (by simp [Request.script])
  cases he : s.server.entryAt home r.old.channel with
  | none =>
    rw [hrecorded.empty he] at hclose
    cases hclose
  | some e =>
    obtain ⟨rest, q, hlog, hgen, hid, hoff⟩ := hrecorded.last e he
    have hq : q ∈ r.script := by
      have hmem : q ∈ s.server.heard home r.old.channel := by
        rw [hlog]
        simp
      exact List.mem_of_mem_take (hin.ahead hmem)
    have hle : q.generation ≤ 2 := by
      have ho := hproper.old.1
      have hc := hproper.current
      simp only [Request.script, List.mem_cons, List.not_mem_nil, or_false] at hq
      rcases hq with rfl | rfl | rfl | rfl
      · omega
      · exact le_of_eq hc
      · exact le_of_eq hc
      · exact le_of_eq hc
    have hsame : q.generation = r.current.generation ∧ q.id = r.current.id ∧ q.body = .close := by
      have horder := hrecorded.order
      rw [hlog] at hclose horder
      rcases List.mem_append.mp hclose with hbefore | hlast
      · rcases (List.pairwise_append.mp horder).2.2 _ hbefore q (by simp) with hlt | ⟨hg, hi, hb⟩
        · have hc := hproper.current
          simp only at hlt
          omega
        · exact ⟨hg.symm, hi.symm, hb rfl⟩
      · rw [← List.mem_singleton.mp hlast]
        exact ⟨rfl, rfl, rfl⟩
    exact ⟨e, rfl, hgen.symm.trans hsame.1, hid.symm.trans hsame.2.1, hoff hsame.2.2⟩

/-- One request, whose first packet and its reply arrive twice. -/
def repeated : List (Act ℕ) :=
  [.newPeer 0 0 0, .ready, .driveClient 0 1, .serverPacket 0 1, .serverPacket 0 2, .clientPacket 0,
    .driveClient 3 1, .serverPacket 1 4, .clientPacket 1, .clientPacket 2, .driveClient 5 1, .serverPacket 2 6,
    .serverPacket 0 7, .clientPacket 3, .driveClient 8 1, .serverPacket 3 9, .clientPacket 4, .expirePeers idle]

theorem phases_agree_repeated :
    let c : ClientSessions := ⟨false, [⟨⟨0, 1, [1], .hello⟩, ⟨0, 2, [2], .hello⟩, .initial, none⟩], 0⟩
    let s := run (step 0) (start ℕ c) repeated
    s.client.requests.map Request.phase = [.done] ∧
      ∃ e, s.server.entryAt 0 0 = some e ∧ e.generation = 2 ∧ e.active = false := by
  intro c s
  have hphase : s.client.requests.map Request.phase = [.done] := by decide +kernel
  obtain ⟨hcore, hall⟩ := phases_agree 0 [([1], [2])] c rfl repeated
  refine ⟨hphase, ?_⟩
  obtain ⟨r, hr, hdone⟩ : ∃ r ∈ s.client.requests, r.phase = .done :=
    List.mem_map.mp (hphase ▸ List.mem_singleton_self _)
  obtain ⟨e, he, hgen, -, hoff⟩ := (hall r hr).2.2 hdone
  have hmem : r.core ∈ c.requests.map Request.core := hcore ▸ List.mem_map_of_mem hr
  have hr : r.core = (⟨0, 1, [1], .hello⟩, ⟨0, 2, [2], .hello⟩) := List.mem_singleton.mp hmem
  obtain ⟨hold, hcurrent⟩ := Prod.mk.inj hr
  rw [hold] at he
  rw [hcurrent] at hgen
  exact ⟨e, he, hgen, hoff⟩

end Steps

end Demo
end App
end Slinet
