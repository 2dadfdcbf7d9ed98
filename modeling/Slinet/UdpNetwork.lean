/-
# UDP clients and their server

Any number of client connections, each with the writer of `Slinet.UdpSend` on a
socket of some address, the wire, and a server: the listener's machine
(`Slinet.UdpPeers`), whose sessions are the connections of the plugin's machine
(`Slinet.Endpoint`). The wire loses, repeats and reorders datagrams; it makes
none up. The connections of a session and of the plugin meet in
`UdpReadHalf::receive`, of which `UdpNetwork.receive` is one step at a time.

Every datagram that is delivered goes to one session at most, the one of its
address, and is written down with it. What the server's observers see of a
session are packets of the datagrams delivered to it, in that order, each at most
once; those datagrams were sent by the clients at the session's address, once
for each packet sent, in the order in which their queues accepted the packets.
So a wire that keeps the order gives the observers a subsequence of what the
client sent (`packets_delivered`).
-/
import Slinet.DatagramOrder
import Slinet.UdpRouting
import Slinet.UdpWire

namespace Slinet

/-! ### What the sessions return -/

namespace Session

variable {q : Lossy.Limits} {Addr : Type*}

theorem returned_push (p : Session q Addr) (datagram : Datagram) :
    (p.push datagram).returned = p.returned := by
  unfold Session.push
  split
  · rfl
  · rfl
  · rfl

theorem returned_poll (p : Session q Addr) : p.poll.returned = p.returned := by
  unfold Session.poll
  split
  · split
    · rfl
    · rfl
  · rfl

theorem returned_next (p : Session q Addr) : p.next.returned = p.returned := by
  unfold Session.next
  split
  · split
    · rfl
    · rfl
    · rfl
  · rfl

theorem returned_close (p : Session q Addr) : p.close.returned = p.returned := by
  unfold Session.close
  split
  · rfl
  · rfl

theorem returned_split (p : Session q Addr) : p.split.returned = p.returned := by
  unfold Session.split
  split
  · rfl
  · rfl

theorem returned_dropOwner (p : Session q Addr) : p.dropOwner.returned = p.returned := by
  unfold Session.dropOwner
  split
  · rfl
  · rfl
  · rfl

theorem returned_dropLocal (p : Session q Addr) (d : DropStep) (rest : List DropStep) :
    (p.dropLocal d rest).returned = p.returned := by
  cases d <;> rfl

/-- Within both limits the datagram in hand is returned if the codec takes it. -/
theorem returned_decode {p : Session q Addr} {datagram : Datagram}
    (ho : p.owner = .reading (.hand datagram)) (limit : ℕ) (decodes : Bool) :
    (p.decode limit decodes).returned = p.returned ++
      if datagram.length ≤ maxDatagramSize ∧ datagram.length ≤ limit ∧ decodes then [datagram]
      else [] := by
  simp only [Session.decode, ho]
  split
  · rw [if_neg (by omega), List.append_nil]
    rfl
  split
  · rw [if_neg (by omega), List.append_nil]
    rfl
  split
  · rename_i hmax hlimit hdecodes
    rw [if_pos ⟨by omega, by omega, hdecodes⟩]
  · rename_i hdecodes
    rw [if_neg fun h => hdecodes h.2.2, List.append_nil]
    rfl

end Session

namespace UdpPeers

variable {o : UdpOptions} {Addr : Type*}

def returnedAt (s : UdpPeers o Addr) (i : ℕ) : List Datagram :=
  match s.sessions[i]? with
  | some p => p.returned
  | none => []

theorem returnedAt_modify {s s' : UdpPeers o Addr} {i : ℕ}
    {f : Session o.limits Addr → Session o.limits Addr} (hs : s'.sessions = s.sessions.modify i f)
    (hf : ∀ p, (f p).returned = p.returned) (j : ℕ) : s'.returnedAt j = s.returnedAt j := by
  simp only [returnedAt, hs, List.getElem?_modify]
  cases s.sessions[j]? with
  | none => rfl
  | some p =>
    simp only [Option.map_eq_map, Option.map_some]
    split
    · rw [hf p]
    · rfl

theorem returnedAt_concat {s s' : UdpPeers o Addr} {old : List (Session o.limits Addr)}
    {p : Session o.limits Addr} (hp : p.returned = [])
    (hold : ∀ j, ({ s with sessions := old } : UdpPeers o Addr).returnedAt j = s.returnedAt j)
    (hs : s'.sessions = old ++ [p]) (j : ℕ) : s'.returnedAt j = s.returnedAt j := by
  rw [← hold j, returnedAt, returnedAt, hs]
  rcases Nat.lt_trichotomy j old.length with hlt | heq | hgt
  · rw [List.getElem?_append_left hlt]
  · rw [heq, List.getElem?_concat_length, List.getElem?_eq_none (le_refl _)]
    exact hp
  · have hnone : old[j]? = none := List.getElem?_eq_none (by omega)
    have hnone' : (old ++ [p])[j]? = none := List.getElem?_eq_none (by simp; omega)
    rw [hnone, hnone']

variable [DecidableEq Addr]

/-- Only `decode` returns a datagram. -/
theorem returnedAt_step (s : UdpPeers o Addr) {a : Act Addr}
    (ha : ∀ i limit decodes, a ≠ .decode i limit decodes) (j : ℕ) :
    (s.step a).returnedAt j = s.returnedAt j := by
  cases a with
  | dispatch bytes address =>
    simp only [step, dispatch]
    split
    · rfl
    split
    · rfl
    split
    · refine returnedAt_modify rfl (fun _ => ?_) j
      rfl
    split
    · rfl
    unfold accept
    split
    · rfl
    split
    · rfl
    dsimp only
    split
    · rename_i k _
      exact returnedAt_concat (p := .accepted address _ bytes _) rfl
        (returnedAt_modify (f := Session.dropSender) (i := k) rfl fun _ => rfl) rfl j
    · exact returnedAt_concat (p := .accepted address _ bytes _) rfl (fun _ => rfl) rfl j
  | push =>
    simp only [step, push]
    split
    · rfl
    · split
      · rfl
      split
      · refine returnedAt_modify rfl (fun _ => ?_) j
        rfl
      · rfl
    · exact returnedAt_modify rfl (fun p => p.returned_push _) j
  | split i => exact returnedAt_modify rfl Session.returned_split j
  | poll i => exact returnedAt_modify rfl Session.returned_poll j
  | next i => exact returnedAt_modify rfl Session.returned_next j
  | decode i limit decodes => exact absurd rfl (ha i limit decodes)
  | close i => exact returnedAt_modify rfl Session.returned_close j
  | dropOwner i => exact returnedAt_modify rfl Session.returned_dropOwner j
  | dropStep i =>
    simp only [step, dropStep]
    split
    · rfl
    split
    · split
      · rfl
      split
      · refine returnedAt_modify rfl (fun _ => ?_) j
        rfl
      · refine returnedAt_modify rfl (fun _ => ?_) j
        rfl
    · refine returnedAt_modify rfl (fun _ => ?_) j
      rfl
    · exact returnedAt_modify rfl (fun p => p.returned_dropLocal _ _) j
    · rfl
  | dropWrite i => rfl
  | dropListener =>
    simp only [step, dropListener]
    split
    · rfl
    simp only [returnedAt, List.getElem?_mapIdx]
    cases s.sessions[j]? with
    | none => rfl
    | some p =>
      simp only [Option.map_some]
      split
      · rfl
      · rfl

/-! ### Where a dispatch goes -/

/-- The session that counts the datagram as received. -/
def routed? (s : UdpPeers o Addr) (bytes : Datagram) (address : Addr) : Option ℕ :=
  if s.alive = false ∨ s.dispatching.isSome then none
  else if bytes.length > maxDatagramSize then none
  else
    match s.open? address with
    | some i => some i
    | none =>
      if (s.dispatch bytes address).sessions.length = s.sessions.length then none
      else some s.sessions.length

omit [DecidableEq Addr] in
theorem receivedAt_append {s s' : UdpPeers o Addr} {old : List (Session o.limits Addr)}
    {p : Session o.limits Addr} (hlen : old.length = s.sessions.length)
    (hold : ∀ j, ({ s with sessions := old } : UdpPeers o Addr).receivedAt j = s.receivedAt j)
    (hs : s'.sessions = old ++ [p]) (j : ℕ) :
    s'.receivedAt j = s.receivedAt j ++
      if some s.sessions.length = some j then p.received.map fun a => (a.address, a.bytes) else [] := by
  rw [← hold j, receivedAt, receivedAt, hs, ← hlen]
  rcases Nat.lt_trichotomy j old.length with hlt | heq | hgt
  · rw [List.getElem?_append_left hlt, if_neg (by simp; omega), List.append_nil]
  · rw [heq, List.getElem?_concat_length, List.getElem?_eq_none (le_refl _), if_pos rfl]
    rfl
  · have hnone : old[j]? = none := List.getElem?_eq_none (by omega)
    have hnone' : (old ++ [p])[j]? = none := List.getElem?_eq_none (by simp; omega)
    rw [hnone, hnone', if_neg (by simp; omega)]
    rfl

/-- **A dispatch reaches one session at most.** -/
theorem receivedAt_dispatch_routed (s : UdpPeers o Addr) (bytes : Datagram) (address : Addr) (j : ℕ) :
    (s.dispatch bytes address).receivedAt j = s.receivedAt j ++
      if s.routed? bytes address = some j then [(address, bytes)] else [] := by
  have hsame : s.receivedAt j = s.receivedAt j ++ if (none : Option ℕ) = some j
      then [(address, bytes)] else [] := by
    simp
  unfold routed?
  by_cases hbusy : s.alive = false ∨ s.dispatching.isSome
  · rw [if_pos hbusy, dispatch, if_pos hbusy]
    exact hsame
  rw [if_neg hbusy]
  by_cases hlong : bytes.length > maxDatagramSize
  · rw [if_pos hlong, dispatch, if_neg hbusy, if_pos hlong]
    exact hsame
  rw [if_neg hlong, dispatch, if_neg hbusy, if_neg hlong]
  cases hopen : s.open? address with
  | some i =>
    show (s.update i _).receivedAt j = _
    have hp : s.sessions[i]? ≠ none := by
      intro hnone
      simp only [open?] at hopen
      split at hopen
      · split at hopen
        · rename_i k _ p hp
          split at hopen
          · cases hopen
          · cases hopen
            rw [hnone] at hp
            cases hp
        · cases hopen
      · cases hopen
    simp only [receivedAt, getElem?_update]
    by_cases hij : i = j
    · subst hij
      cases hs : s.sessions[i]? with
      | none => exact absurd hs hp
      | some p => simp [Session.arrive]
    · cases hs : s.sessions[j]? with
      | none => simp [hij]
      | some p => simp [hij]
  | none =>
    simp only
    by_cases hsmall : o.receiveQueueCapacity = 0 ∨ bytes.length > o.receiveQueueBytes
    · rw [if_pos hsmall, if_pos rfl]
      exact hsame
    rw [if_neg hsmall]
    unfold accept
    by_cases hfree : s.free = 0
    · rw [if_pos hfree, if_pos rfl]
      exact hsame
    rw [if_neg hfree]
    split
    · rw [if_pos rfl]
      exact hsame
    · rename_i queue _
      dsimp only
      have hlen : ∀ old : List (Session o.limits Addr), old.length = s.sessions.length →
          ¬ (old ++ [Session.accepted address ((s.table.insert address s.sessions.length).lookup address)
            bytes queue]).length = s.sessions.length := by
        intro old hold
        simp [hold]
      split
      · rename_i k _
        rw [if_neg (hlen _ (List.length_modify _ _ k))]
        exact receivedAt_append (p := .accepted address _ bytes _) (List.length_modify _ _ k)
          (receivedAt_modify (f := Session.dropSender) rfl fun _ => rfl) rfl j
      · rw [if_neg (hlen _ rfl)]
        exact receivedAt_append (p := .accepted address _ bytes _) rfl (fun _ => rfl) rfl j

/-- Nothing else reaches a session. -/
theorem receivedAt_of_not_dispatched (s : UdpPeers o Addr) {a : Act Addr} (ha : a.dispatched? = none)
    (j : ℕ) : (s.step a).receivedAt j = s.receivedAt j := by
  obtain ⟨l, hl, hsub⟩ := receivedAt_step s a j
  rw [ha, Option.toList_none, List.sublist_nil] at hsub
  rw [hl, hsub, List.append_nil]

end UdpPeers

/-! ### The packets of one connection in a list -/

namespace Endpoint

variable {Id R : Type*} [DecidableEq Id]

theorem ofConnection_append (id : Id) (l l' : List (Id × R)) :
    ofConnection id (l ++ l') = ofConnection id l ++ ofConnection id l' :=
  List.filterMap_append

theorem ofConnection_map_self (id : Id) (l : List R) : ofConnection id (l.map (Prod.mk id)) = l := by
  simp [ofConnection, List.filterMap_map]

theorem ofConnection_map_ne {id k : Id} (hk : k ≠ id) (l : List R) :
    ofConnection id (l.map (Prod.mk k)) = [] := by
  simp [ofConnection, hk]

theorem mem_ofConnection {id : Id} {l : List (Id × R)} {x : R} :
    x ∈ ofConnection id l ↔ (id, x) ∈ l := by
  simp only [ofConnection, List.mem_filterMap]
  constructor
  · rintro ⟨y, hy, hx⟩
    split at hx
    · rename_i hid
      cases hx
      rwa [← hid]
    · cases hx
  · intro h
    exact ⟨(id, x), h, if_pos rfl⟩

theorem ofConnection_sublist (id : Id) (l : List (Id × R)) :
    (ofConnection id l).Sublist (l.map Prod.snd) := by
  induction l with
  | nil => exact List.Sublist.refl _
  | cons x l ih =>
    by_cases hx : x.1 = id
    · simp only [ofConnection, List.filterMap_cons, hx, if_true, List.map_cons]
      exact ih.cons_cons _
    · simp only [ofConnection, List.filterMap_cons, hx, if_false, List.map_cons]
      exact ih.cons _

variable {c : Plugin} {P D L : Type*} {s : Endpoint c Id P R D L}

/-- The transport's reader returns. -/
theorem received_read {id : Id} {off : Bool} (hs : (s.peers id).setup = .running)
    (hr : (s.peers id).link.reader = .reading off) (result : Option (Except (ReceiveError D L) R))
    (k : Id) : ((s.step (.link id (.read result))).peers k).link.received =
      (s.peers k).link.received ++ if k = id then (result.bind Except.toOption).toList else [] := by
  have hstep : s.step (.link id (.read result)) = s.act id (.read result) := by
    rw [step, Endpoint.link, hs]
    rfl
  rw [hstep]
  by_cases hk : k = id
  · subst hk
    rw [link_act_self, if_pos rfl, Link.step]
    cases result with
    | none => simp [Link.read, hr, Link.received]
    | some result =>
      cases result with
      | ok packet => simp [Link.read, hr, Link.received, Except.toOption]
      | error error => simp [Link.read, hr, Link.received, Except.toOption]
  · rw [if_neg hk, List.append_nil, Endpoint.act, peers_update_ne s hk]

end Endpoint

/-! ### The network -/

/-- The clients' sockets, and the serializers of the two sides, without state. -/
structure Site (K Addr P : Type*) where
  address : K → Addr
  encode : P → Except String Datagram
  decode : Datagram → Option P

/-- The clients, the server, every datagram sent, and every datagram delivered,
with the session that it went to. -/
structure UdpNetwork {K Addr P : Type*} (n : Site K Addr P) (c : Plugin) (o : UdpOptions)
    (Q D L : Type*) where
  clients : K → UdpSend P
  wire : List (K × P × Datagram)
  delivered : List (Option ℕ × K × P × Datagram)
  listener : UdpPeers o Addr
  server : Endpoint c ℕ Q P D L

namespace UdpNetwork

variable {K Addr P Q D L : Type*} {n : Site K Addr P} {c : Plugin} {o : UdpOptions}

def new (n : Site K Addr P) (c : Plugin) (o : UdpOptions) (Q D L : Type*)
    (clients : K → Outgoing P × ℕ × Option ℕ+) : UdpNetwork n c o Q D L where
  clients k := .new (clients k).1 (clients k).2.1 (clients k).2.2
  wire := []
  delivered := []
  listener := .new o Addr
  server := .new c ℕ Q P D L

def serve (s : UdpNetwork n c o Q D L) (a : Endpoint.Act ℕ Q P D L) : UdpNetwork n c o Q D L :=
  { s with server := s.server.step a }

/-- A step of a client, whose datagram goes out. -/
def client [DecidableEq K] (s : UdpNetwork n c o Q D L) (k : K) (a : UdpSend.Act P) :
    UdpNetwork n c o Q D L :=
  { s with
    clients := Function.update s.clients k ((s.clients k).step ((s.clients k).coded n.encode a))
    wire := s.wire ++
      ((s.clients k).transmits? ((s.clients k).coded n.encode a)).toList.map (Prod.mk k) }

variable [DecidableEq Addr]

def hear (s : UdpNetwork n c o Q D L) (a : UdpPeers.Act Addr) : UdpNetwork n c o Q D L :=
  { s with listener := s.listener.step a }

/-- A datagram of the wire arrives, perhaps not for the first time. -/
def deliver (s : UdpNetwork n c o Q D L) (m : ℕ) : UdpNetwork n c o Q D L :=
  match s.wire[m]? with
  | none => s
  | some x =>
    { s with delivered := s.delivered ++ [(s.listener.routed? x.2.2 (n.address x.1), x)] }.hear
      (.dispatch x.2.2 (n.address x.1))

/-- The next step of `receive`, when the reader of the connection polls it: the
peer, the raw queue, the datagram taken. -/
def receive (s : UdpNetwork n c o Q D L) (i : ℕ) (limit : ℕ) : UdpNetwork n c o Q D L :=
  match (s.server.peers i).setup, (s.server.peers i).link.reader, s.listener.sessions[i]? with
  | .running, .reading _, some p =>
    match p.owner with
    | .reading .idle =>
      if p.closed then s.serve (.link i (.read (some (.error (.io disconnectedError)))))
      else s.hear (.poll i)
    | .reading .polled =>
      match p.queue.tryRecv with
      | (.ok _, _) => s.hear (.next i)
      | (.error .disconnected, _) =>
        (s.hear (.next i)).serve (.link i (.read (some (.error (.io disconnectedError)))))
      | (.error .empty, _) => (s.hear (.next i)).serve (.link i (.read none))
    | .reading (.hand datagram) =>
      match n.decode datagram with
      | some packet =>
        if datagram.length ≤ maxDatagramSize ∧ datagram.length ≤ limit then
          (s.hear (.decode i limit true)).serve (.link i (.read (some (.ok packet))))
        else s.hear (.decode i limit true)
      | none => s.hear (.decode i limit false)
    | _ => s
  | _, _, _ => s

/-- The steps of the listener and its sessions that are not taken elsewhere. -/
def Listens : UdpPeers.Act Addr → Bool
  | .dispatch _ _ => false
  | .poll _ => false
  | .next _ => false
  | .decode _ _ _ => false
  | _ => true

/-- The steps of the server: connections are made for sessions, and their
readers read in `receive`. -/
def Serves (s : UdpNetwork n c o Q D L) : Endpoint.Act ℕ Q P D L → Bool
  | .create i => i < s.listener.sessions.length
  | .link _ (.read _) => false
  | _ => true

inductive Act (K Addr P Q D L : Type*)
  | client (k : K) (a : UdpSend.Act P)
  | deliver (m : ℕ)
  | receive (i : ℕ) (limit : ℕ)
  | listener (a : UdpPeers.Act Addr)
  | server (a : Endpoint.Act ℕ Q P D L)

def step [DecidableEq K] (s : UdpNetwork n c o Q D L) : Act K Addr P Q D L → UdpNetwork n c o Q D L
  | .client k a => s.client k a
  | .deliver m => s.deliver m
  | .receive i limit => s.receive i limit
  | .listener a => if Listens a then s.hear a else s
  | .server a => if s.Serves a then s.serve a else s

/-! ### What every step keeps -/

structure Good [DecidableEq K] (s : UdpNetwork n c o Q D L) : Prop where
  clients : ∀ k, UdpSend.Sends n.encode (Endpoint.ofConnection k s.wire) (s.clients k)
  sent : ∀ x ∈ s.delivered, x.2 ∈ s.wire
  table : s.listener.Good
  routes : s.listener.Routes
  arrived : ∀ i, s.listener.receivedAt i =
    (Endpoint.ofConnection (some i) s.delivered).map fun x => (n.address x.1, x.2.2)
  reads : ∀ i, (s.server.peers i).link.received = (s.listener.returnedAt i).filterMap n.decode
  lines : ∀ i, s.server.InLine i

section Steps

variable [DecidableEq K] {s : UdpNetwork n c o Q D L}

theorem good_new (n : Site K Addr P) (c : Plugin) (o : UdpOptions)
    (clients : K → Outgoing P × ℕ × Option ℕ+) : Good (new n c o Q D L clients) where
  clients k := UdpSend.sends_new n.encode _ _ _
  sent x hx := by cases hx
  table := UdpPeers.good_new o Addr
  routes := UdpPeers.routes_new o Addr
  arrived i := rfl
  reads i := rfl
  lines i := Endpoint.inLine_new c i

/-- A step of the listener that brings nothing, and one of the server. -/
theorem Good.move (h : Good s) {a : UdpPeers.Act Addr}
    (ha : a.dispatched? = none) {server : Endpoint c ℕ Q P D L}
    (hreads : ∀ i, (server.peers i).link.received =
      ((s.listener.step a).returnedAt i).filterMap n.decode)
    (hlines : ∀ i, server.InLine i) :
    ({ s.hear a with server := server } : UdpNetwork n c o Q D L).Good where
  clients := h.clients
  sent := h.sent
  table := UdpPeers.good_step h.table a
  routes := UdpPeers.routes_step h.table h.routes a
  arrived i := (UdpPeers.receivedAt_of_not_dispatched s.listener ha i).trans (h.arrived i)
  reads := hreads
  lines := hlines

/-- A step of the listener alone. -/
theorem Good.hear (h : Good s) {a : UdpPeers.Act Addr}
    (ha : a.dispatched? = none) (hdecode : ∀ i limit decodes, a ≠ .decode i limit decodes) :
    Good (s.hear a) :=
  h.move ha (fun i => by rw [UdpPeers.returnedAt_step s.listener hdecode, h.reads i]) h.lines

/-- A step of the server that does not read. -/
theorem Good.serve (h : Good s) (hc : c.datagram = true) {a : Endpoint.Act ℕ Q P D L}
    (ha : ∀ i result, a ≠ .link i (.read result)) : Good (s.serve a) where
  clients := h.clients
  sent := h.sent
  table := h.table
  routes := h.routes
  arrived := h.arrived
  reads i := (Endpoint.unread_step s.server i a (ha i)).received.trans (h.reads i)
  lines i := Endpoint.inLine_step hc (h.lines i) a

/-- The call of `receive` returns no packet, or waits. -/
theorem Good.read (h : Good s) (hc : c.datagram = true) {i : ℕ} {off : Bool}
    (hs : (s.server.peers i).setup = .running) (hr : (s.server.peers i).link.reader = .reading off)
    {result : Option (Except (ReceiveError D L) P)} (hresult : result.bind Except.toOption = none) :
    Good (s.serve (.link i (.read result))) where
  clients := h.clients
  sent := h.sent
  table := h.table
  routes := h.routes
  arrived := h.arrived
  reads j := by
    show ((s.server.step _).peers j).link.received = _
    rw [Endpoint.received_read hs hr, hresult, Option.toList_none, ite_self, List.append_nil]
    exact h.reads j
  lines j := Endpoint.inLine_step hc (h.lines j) (.link i (.read result))

theorem good_receive (h : Good s) (hc : c.datagram = true) (i limit : ℕ) :
    Good (s.receive i limit) := by
  unfold receive
  split
  · rename_i off p hs hr hp
    have hlimits : ∀ {datagram : Datagram} (decodes : Bool), p.owner = .reading (.hand datagram) →
        ∀ j, (s.listener.step (.decode i limit decodes)).returnedAt j = s.listener.returnedAt j ++
          if j = i ∧ datagram.length ≤ maxDatagramSize ∧ datagram.length ≤ limit ∧ decodes
          then [datagram] else [] := by
      intro datagram decodes ho j
      simp only [UdpPeers.step, UdpPeers.returnedAt, UdpPeers.getElem?_update]
      by_cases hj : i = j
      · subst hj
        simp [hp, Session.returned_decode ho]
      · have hj' : ¬ j = i := fun he => hj he.symm
        cases hsj : s.listener.sessions[j]? with
        | none => simp [hj']
        | some p' => simp [hj, hj']
    split
    · split
      · exact h.read hc hs hr rfl
      · exact h.hear rfl fun _ _ _ ha => by cases ha
    · have hnext : Good (s.hear (.next i)) := h.hear rfl fun _ _ _ ha => by cases ha
      split
      · exact hnext
      · exact hnext.read hc hs hr rfl
      · exact hnext.read hc hs hr rfl
    · rename_i datagram ho
      split
      · rename_i packet hdecode
        split
        · -- the datagram's packet is returned
          rename_i hwithin
          refine h.move (a := .decode i limit true) rfl (fun j => ?_) fun j =>
            Endpoint.inLine_step hc (h.lines j) (.link i (.read (some (.ok packet))))
          show ((s.server.step _).peers j).link.received = _
          rw [hlimits true ho j, Endpoint.received_read hs hr, h.reads j, List.filterMap_append]
          by_cases hj : j = i
          · simp [hj, hwithin, hdecode, Except.toOption]
          · simp [hj]
        · rename_i hwithin
          refine h.move (a := .decode i limit true) rfl (fun j => ?_) h.lines
          rw [hlimits true ho j, h.reads j, if_neg fun hall => hwithin ⟨hall.2.1, hall.2.2.1⟩,
            List.append_nil]
      · refine h.move (a := .decode i limit false) rfl (fun j => ?_) h.lines
        rw [hlimits false ho j, h.reads j, if_neg (by simp), List.append_nil]
    · exact h
  · exact h

/-- **A datagram is delivered** to the session that the listener finds for it. -/
theorem good_deliver (h : Good s) (m : ℕ) : Good (s.deliver m) := by
  unfold deliver
  split
  · exact h
  rename_i x hx
  refine ⟨h.clients, fun y hy => ?_, UdpPeers.good_step h.table (.dispatch _ _),
    UdpPeers.routes_step h.table h.routes (.dispatch _ _), fun i => ?_, fun i => ?_, h.lines⟩
  · rcases List.mem_append.mp hy with hy | hy
    · exact h.sent y hy
    · rw [List.mem_singleton.mp hy]
      exact List.mem_of_getElem? hx
  · show (s.listener.dispatch _ _).receivedAt i = _
    rw [UdpPeers.receivedAt_dispatch_routed, h.arrived i]
    show _ = (Endpoint.ofConnection (some i) (s.delivered ++ [_])).map _
    rw [Endpoint.ofConnection_append, List.map_append]
    by_cases hi : s.listener.routed? x.2.2 (n.address x.1) = some i
    · simp [Endpoint.ofConnection, hi]
    · simp [Endpoint.ofConnection, hi]
  · show _ = ((s.listener.step _).returnedAt i).filterMap n.decode
    rw [UdpPeers.returnedAt_step s.listener fun _ _ _ ha => by cases ha]
    exact h.reads i

theorem good_client (h : Good s) (k : K) (a : UdpSend.Act P) : Good (s.client k a) := by
  refine ⟨fun j => ?_, fun x hx => List.mem_append_left _ (h.sent x hx), h.table, h.routes, h.arrived,
    h.reads, h.lines⟩
  show UdpSend.Sends n.encode (Endpoint.ofConnection j (s.wire ++ _)) (Function.update s.clients k _ j)
  rw [Endpoint.ofConnection_append]
  by_cases hj : j = k
  · subst hj
    rw [Function.update_self, Endpoint.ofConnection_map_self]
    exact UdpSend.sends_step (h.clients j) a
  · rw [Function.update_of_ne hj, Endpoint.ofConnection_map_ne fun he => hj he.symm, List.append_nil]
    exact h.clients j

theorem good_step (hc : c.datagram = true) (h : Good s) (a : Act K Addr P Q D L) : Good (s.step a) := by
  cases a with
  | client k a => exact good_client h k a
  | deliver m => exact good_deliver h m
  | receive i limit => exact good_receive h hc i limit
  | listener a =>
    simp only [step]
    split
    · rename_i ha
      refine h.hear ?_ fun i limit decodes he => ?_
      · cases a <;> first | rfl | cases ha
      · subst he
        cases ha
    · exact h
  | server a =>
    simp only [step]
    split
    · rename_i ha
      refine h.serve hc fun i result he => ?_
      subst he
      cases ha
    · exact h

theorem good_run (n : Site K Addr P) (hc : c.datagram = true) (o : UdpOptions)
    (clients : K → Outgoing P × ℕ × Option ℕ+) (as : List (Act K Addr P Q D L)) :
    Good (run step (new n c o Q D L clients) as) :=
  run_inv (I := Good) (fun _ a h => good_step hc h a) as (good_new n c o clients)

/-! ### What the observers see -/

/-- A session's datagrams come from its address. -/
theorem Good.origin (h : Good s) {i : ℕ} {x : K × P × Datagram} (hx : (some i, x) ∈ s.delivered) :
    ∃ p, s.listener.sessions[i]? = some p ∧ p.address = n.address x.1 := by
  have hmem : (n.address x.1, x.2.2) ∈ s.listener.receivedAt i := by
    rw [h.arrived i]
    exact List.mem_map.mpr ⟨x, Endpoint.mem_ofConnection.mpr hx, rfl⟩
  unfold UdpPeers.receivedAt at hmem
  split at hmem
  · rename_i p hp
    obtain ⟨a, ha, he⟩ := List.mem_map.mp hmem
    exact ⟨p, hp, (h.routes i p hp).origin a ha |>.1.symm.trans (congrArg Prod.fst he)⟩
  · cases hmem

/-- What the codec makes of datagrams that clients sent are their packets. -/
theorem Good.decoded (h : Good s)
    (hround : ∀ packet payload, n.encode packet = .ok payload → n.decode payload = some packet)
    {l : List (K × P × Datagram)} (hl : ∀ x ∈ l, x ∈ s.wire) :
    (l.map fun x => x.2.2).filterMap n.decode = l.map fun x => x.2.1 := by
  rw [List.filterMap_map, ← List.filterMap_eq_map]
  refine List.filterMap_congr fun x hx => ?_
  have hmem : x.2 ∈ Endpoint.ofConnection x.1 s.wire := Endpoint.mem_ofConnection.mpr (hl x hx)
  exact hround x.2.1 x.2.2 ((h.clients x.1).encoded x.2 hmem)

/-- The packets triggered for a session are packets of its datagrams, in order. -/
theorem Good.triggered (h : Good s)
    (hround : ∀ packet payload, n.encode packet = .ok payload → n.decode payload = some packet)
    (i : ℕ) : (s.server.triggered i).Sublist
      ((Endpoint.ofConnection (some i) s.delivered).map fun x => x.2.1) := by
  have hreturned : (s.listener.returnedAt i).Sublist
      ((Endpoint.ofConnection (some i) s.delivered).map fun x => x.2.2) := by
    have hbytes : (s.listener.receivedAt i).map Prod.snd =
        (Endpoint.ofConnection (some i) s.delivered).map fun x => x.2.2 := by
      rw [h.arrived i, List.map_map]
      rfl
    rw [← hbytes, UdpPeers.returnedAt]
    split
    · rename_i p hp
      rw [UdpPeers.receivedAt, hp]
      dsimp only
      rw [List.map_map]
      refine List.Sublist.trans ?_ (h.routes i p hp).order
      simp only [Session.line, List.append_assoc]
      exact List.sublist_append_left _ _
    · exact List.nil_sublist _
  have hsent : ∀ x ∈ Endpoint.ofConnection (some i) s.delivered, x ∈ s.wire :=
    fun x hx => h.sent _ (Endpoint.mem_ofConnection.mp hx)
  have hline := (h.lines i).triggered
  rw [h.reads i] at hline
  exact hline.trans ((h.decoded hround hsent) ▸ hreturned.filterMap n.decode)

/-- **The packets that a server receives.** For serializers without state that
undo each other, any number of clients on any addresses, a wire that may lose,
repeat and reorder, and any steps of the tasks, the listener, the drops and the
frames: each client's datagrams are those of packets that its queue accepted,
each once and in their order; what is delivered was sent; what goes to a session
was sent from the session's address; and the packets triggered for a session are
those of datagrams delivered to it, each once and in that order. If the wire
keeps the order and repeats nothing, they are a subsequence of what the client
at that address passed to its queue. -/
theorem packets_delivered (n : Site K Addr P) (c : Plugin) (hc : c.datagram = true) (o : UdpOptions)
    (hround : ∀ packet payload, n.encode packet = .ok payload → n.decode payload = some packet)
    (clients : K → Outgoing P × ℕ × Option ℕ+) (as : List (Act K Addr P Q D L)) :
    let s := run step (new n c o Q D L clients) as
    (∀ k, ((Endpoint.ofConnection k s.wire).map Prod.fst).Sublist (s.clients k).conn.accepted) ∧
    (∀ x ∈ s.delivered, x.2 ∈ s.wire) ∧
    (∀ i x, (some i, x) ∈ s.delivered →
      ∃ p, s.listener.sessions[i]? = some p ∧ p.address = n.address x.1) ∧
    (∀ i, (s.server.triggered i).Sublist
      ((Endpoint.ofConnection (some i) s.delivered).map fun x => x.2.1)) ∧
    ((s.delivered.map Prod.snd).Sublist s.wire → ∀ k, (∀ k', n.address k' = n.address k → k' = k) →
      ∀ i p, s.listener.sessions[i]? = some p → p.address = n.address k →
        (s.server.triggered i).Sublist (s.clients k).conn.accepted) := by
  intro s
  have h : Good s := good_run n hc o clients as
  refine ⟨fun k => (h.clients k).accepted, h.sent, fun i x => h.origin, h.triggered hround,
    fun horder k hk i p hp ha => ?_⟩
  -- the session's datagrams are all of the one client at its address
  have hall : ∀ x ∈ Endpoint.ofConnection (some i) s.delivered, x.1 = k := by
    intro x hx
    obtain ⟨p', hp', ha'⟩ := h.origin (Endpoint.mem_ofConnection.mp hx)
    rw [hp] at hp'
    cases hp'
    exact hk x.1 (ha'.symm.trans ha)
  have hof : (Endpoint.ofConnection (some i) s.delivered).map (fun x => x.2) =
      Endpoint.ofConnection k (Endpoint.ofConnection (some i) s.delivered) := by
    rw [Endpoint.ofConnection, ← List.filterMap_eq_map]
    refine List.filterMap_congr fun x hx => ?_
    rw [if_pos (hall x hx)]
    rfl
  have hwire : ((Endpoint.ofConnection (some i) s.delivered).map fun x => x.2).Sublist
      (Endpoint.ofConnection k s.wire) := by
    rw [hof]
    exact ((Endpoint.ofConnection_sublist (some i) s.delivered).trans horder).filterMap _
  refine (h.triggered hround i).trans (List.Sublist.trans ?_ (h.clients k).accepted)
  have hmap := hwire.map Prod.fst
  rwa [List.map_map] at hmap

end Steps

/-- A client sends two packets; the second arrives first and makes the session,
the first arrives twice. -/
def twoSent : List (Act ℕ ℕ UInt8 ℕ ℕ ℕ) :=
  let write (packet : UInt8) : List (UdpSend.Act UInt8) := [.conn (.send packet), .conn (.proceed 0),
    .conn (.proceed 0), .conn .poll, .conn .advance, .conn .advance, .serialized (.ok []), .advance,
    .advance, .advance, .socketReady (some (.ok 1)), .advance, .conn .advance]
  let setup : List (Endpoint.Act ℕ ℕ UInt8 ℕ ℕ) := [.create 0, .publish 0, .hand 0 true,
    .split 0 (.ok ()), .link 0 .poll, .link 0 .advance, .link 0 .advance]
  let receive : List (Act ℕ ℕ UInt8 ℕ ℕ ℕ) := List.replicate 3 (.receive 0 8)
  let forward : List (Endpoint.Act ℕ ℕ UInt8 ℕ ℕ) :=
    [.link 0 .advance, .offer 0, .link 0 .advance, .link 0 .advance]
  let take : List (Act ℕ ℕ UInt8 ℕ ℕ ℕ) := receive ++ forward.map .server
  let again : List (Act ℕ ℕ UInt8 ℕ ℕ ℕ) := [.deliver 0, .listener .push, .listener .push]
  let frame : List (Endpoint.Act ℕ ℕ UInt8 ℕ ℕ) :=
    [.beginFrame 8, .advance, .advance, .advance, .beginPackets 8] ++ List.replicate 14 .advance
  [(write 7).map (.client 5), (write 8).map (.client 5), [.deliver 1, .listener (.split 0)],
    setup.map .server, take, again, again, take, take, frame.map .server].flatten

theorem packets_delivered_twice :
    let n : Site ℕ ℕ UInt8 := ⟨id, fun packet => .ok [packet], List.head?⟩
    let c : Plugin := ⟨.server, true, .bits64, 4, .dropNewest, 4, .dropNewest⟩
    let s := run step (new n c ⟨2, 4, 64, .dropNewest⟩ ℕ ℕ ℕ
      fun _ => (.channel .bits64 4 .dropNewest true, 64, none)) twoSent
    s.wire = [(5, 7, [7]), (5, 8, [8])] ∧
    s.delivered = [(some 0, 5, 8, [8]), (some 0, 5, 7, [7]), (some 0, 5, 7, [7])] ∧
    s.server.received = [(0, 8), (0, 7), (0, 7)] ∧
    (s.server.triggered 0).Sublist ((Endpoint.ofConnection (some 0) s.delivered).map fun x => x.2.1) := by
  intro n c s
  have hround : ∀ packet payload, n.encode packet = .ok payload → n.decode payload = some packet := by
    rintro packet payload ⟨⟩
    rfl
  obtain ⟨-, -, -, htriggered, -⟩ := packets_delivered n c rfl _ hround _ twoSent
  exact ⟨by decide +kernel, by decide +kernel, by decide +kernel, htriggered 0⟩

end UdpNetwork
end Slinet
