/-
# Where the datagrams go

A datagram endpoint's readers put what they decode into one queue
(`PacketForwarder::forward` of `src/connection/queue/mod.rs`), from which
`receive_datagram_packets` (`src/client.rs`, `src/server.rs`) takes what its
budget allows; the commands it leaves behind trigger the packets. A connection
can be cancelled at any point of this way, and the packet that a full queue
evicts is seldom one of the connection that fills it.

`Forwards` is an endpoint's run with the packets forwarded. They are, each in
one place, those queued, those taken by the frame or held by its commands, those
triggered and those dropped (`Accounted`), and a drop stands on the handle of
the connection that had forwarded the packet (`datagram_accounting`).
-/
import Slinet.Delivery
import Slinet.Ledger

namespace Slinet

variable {Id P R D L : Type*}

/-- The packet triggered, with its connection. -/
def Event.received? : Event Id R D L → Option (Id × R)
  | packet id value _ => some (id, value)
  | _ => none

namespace Endpoint

variable {c : Plugin}

/-- The packets triggered so far, of all connections. -/
def received (s : Endpoint c Id P R D L) : List (Id × R) := s.events.filterMap Event.received?

/-- Why a datagram is dropped on the receiving side. -/
def Receiving (reason : QueueDropReason) : Prop :=
  reason = .receiveQueueFull ∨ reason = .receiveQueueEvicted ∨ reason = .closedBeforeDelivery

/-- **What every step keeps** of the packets forwarded. The lifecycle queue of a
datagram endpoint carries no packet. -/
structure Accounted (forwarded : List (Id × R)) (s : Endpoint c Id P R D L) : Prop where
  places : forwarded.Perm
    (s.datagrams.values ++ s.frame.datagrams ++ s.received ++ s.drops.map Prod.snd)
  reasons : ∀ x ∈ s.drops, Receiving x.1
  receiving : s.datagrams.state.receiverOpen = true
  lifecycle : ∀ message ∈ s.frame.commands ++ s.incoming.items,
    ∀ id packet, message ≠ .streamPacket id packet

theorem accounted_new (c : Plugin) (Id P R D L : Type*) :
    Accounted [] (new c Id P R D L) :=
  ⟨List.Perm.refl _, fun _ h => (by cases h), rfl, fun _ h => (by cases h)⟩

section Steps

variable {forwarded : List (Id × R)} {s s' : Endpoint c Id P R D L}

/-- Packets come in, move on, are triggered and are dropped. -/
theorem Accounted.move (h : Accounted forwarded s) (added triggered : List (Id × R))
    (dropped : List (QueueDropReason × Id × R)) (hrec : s'.received = s.received ++ triggered)
    (hdrops : s'.drops = s.drops ++ dropped) (hreasons : ∀ x ∈ dropped, Receiving x.1)
    (hopen : s'.datagrams.state.receiverOpen = true)
    (hlife : ∀ message ∈ s'.frame.commands ++ s'.incoming.items,
      ∀ id packet, message ≠ .streamPacket id packet)
    (hplaces : (s.datagrams.values ++ s.frame.datagrams ++ added).Perm
      (s'.datagrams.values ++ s'.frame.datagrams ++ triggered ++ dropped.map Prod.snd)) :
    Accounted (forwarded ++ added) s' := by
  refine ⟨perm_of_count fun x => ?_, fun x hx => ?_, hopen, hlife⟩
  · have hp := h.places.count_eq x
    have hm := hplaces.count_eq x
    simp only [hrec, hdrops, List.map_append, List.count_append] at hp hm ⊢
    omega
  · rw [hdrops] at hx
    rcases List.mem_append.mp hx with hx | hx
    · exact h.reasons x hx
    · exact hreasons x hx

/-- The frame and the lifecycle queue move, and no datagram does. -/
theorem Accounted.keep (h : Accounted forwarded s) (hq : s'.datagrams = s.datagrams)
    (hheld : s'.frame.datagrams = s.frame.datagrams) (hrec : s'.received = s.received)
    (hdrops : s'.drops = s.drops)
    (hlife : ∀ message ∈ s'.frame.commands ++ s'.incoming.items,
      ∀ id packet, message ≠ .streamPacket id packet) : Accounted forwarded s' := by
  refine ⟨?_, ?_, ?_, hlife⟩
  · rw [hq, hheld, hrec, hdrops]
    exact h.places
  · rw [hdrops]
    exact h.reasons
  · rw [hq]
    exact h.receiving

/-- A message that is no packet is sent. -/
theorem Accounted.push (h : Accounted forwarded s) {message : Message Id R D L}
    (hm : ∀ id packet, message ≠ .streamPacket id packet) :
    Accounted forwarded { s with
      incoming := { s.incoming with items := s.incoming.items ++ [message] } } := by
  refine h.keep rfl rfl rfl rfl fun other hother => ?_
  simp only [← List.append_assoc] at hother
  rcases List.mem_append.mp hother with hother | hother
  · exact h.lifecycle other hother
  · rw [List.mem_singleton.mp hother]
    exact hm

variable [DecidableEq Id]

theorem Accounted.update (h : Accounted forwarded s) (id : Id) (f : Peer P R D L → Peer P R D L) :
    Accounted forwarded (s.update id f) :=
  h.keep rfl rfl rfl rfl h.lifecycle

/-- **A packet is forwarded**: it is queued, and what it evicts is dropped, or it
is dropped itself. -/
theorem accounted_forward (h : Accounted forwarded s) (id : Id) (packet : R) :
    Accounted (forwarded ++ [(id, packet)]) (s.forward id packet) := by
  unfold forward
  rcases s.datagrams.trySend_spec (id, packet) 1 with
    ⟨evicted, queue, he, -, ho, -, hv, -⟩ | ⟨-, hclosed⟩ | ⟨he, -⟩
  · rw [he]
    refine Accounted.update ?_ id _
    refine h.move [(id, packet)] [] (evicted.map (Prod.mk .receiveQueueEvicted)) (by simp [received])
      rfl (fun x hx => ?_) ho h.lifecycle (perm_of_count fun x => ?_)
    · obtain ⟨y, -, rfl⟩ := List.mem_map.mp hx
      exact Or.inr (Or.inl rfl)
    · have hc := congrArg (List.count x) hv
      simp only [List.count_append, List.map_map, Function.comp_def, List.map_id',
        List.count_nil] at hc ⊢
      omega
  · rw [h.receiving] at hclosed
    cases hclosed
  · rw [he]
    refine Accounted.update ?_ id _
    refine h.move [(id, packet)] [] [(.receiveQueueFull, id, packet)] (by simp [received, drop]) rfl ?_
      h.receiving h.lifecycle (by simp [drop])
    intro x hx
    rw [List.mem_singleton.mp hx]
    exact Or.inl rfl

theorem accounted_offer (hc : c.datagram = true) (h : Accounted forwarded s) (id : Id) :
    (∃ packet, (s.peers id).setup = .running ∧ (s.peers id).link.reader = .offering packet ∧
      Accounted (forwarded ++ [(id, packet)]) (s.offer id)) ∨
    (∀ packet, ¬ ((s.peers id).setup = .running ∧ (s.peers id).link.reader = .offering packet)) ∧
      s.offer id = s := by
  unfold offer
  split
  · rename_i packet hs hr
    rw [if_pos hc]
    exact Or.inl ⟨packet, hs, hr, accounted_forward h id packet⟩
  · rename_i hno
    exact Or.inr ⟨fun packet hp => hno packet hp.1 hp.2, rfl⟩

/-- A lifecycle command triggers no packet. -/
theorem execute_fields (s : Endpoint c Id P R D L) {message : Message Id R D L}
    (hm : ∀ id packet, message ≠ .streamPacket id packet) :
    (s.execute message).received = s.received ∧ (s.execute message).datagrams = s.datagrams ∧
      (s.execute message).drops = s.drops ∧ (s.execute message).incoming = s.incoming := by
  cases message with
  | established id =>
    refine ⟨?_, rfl, rfl, rfl⟩
    simp [received, execute, establish, trigger, Endpoint.update, Event.received?]
  | streamPacket id packet => exact absurd rfl (hm id packet)
  | closed id error =>
    cases id with
    | none =>
      refine ⟨?_, rfl, rfl, rfl⟩
      simp [received, execute, trigger, Event.received?]
    | some id =>
      refine ⟨?_, rfl, rfl, rfl⟩
      simp [received, execute, remove, trigger, Event.received?]

theorem accounted_execute (h : Accounted forwarded s) {message : Message Id R D L}
    {commands : List (Message Id R D L)} (hframe : s.frame = .applying (message :: commands)) :
    Accounted forwarded ((s.execute message).goto (.applying commands)) := by
  have hlife := h.lifecycle
  rw [hframe] at hlife
  obtain ⟨hrec, hq, hdrops, hin⟩ := s.execute_fields (hlife message List.mem_cons_self)
  refine h.keep hq (by rw [hframe]; rfl) hrec hdrops fun other ho => ?_
  rw [show ((s.execute message).goto (.applying commands)).incoming = s.incoming from hin] at ho
  exact hlife other (List.mem_cons_of_mem _ ho)

omit [DecidableEq Id] in
/-- The frame goes on, with the same lifecycle commands; its packets are kept,
triggered or dropped. -/
theorem Accounted.goto (h : Accounted forwarded s) {frame : Frame Id R D L}
    (hcommands : frame.commands = s.frame.commands) (hheld : frame.datagrams.Perm s.frame.datagrams) :
    Accounted forwarded (s.goto frame) := by
  rw [← List.append_nil forwarded]
  exact h.move [] [] [] (by simp [received, Endpoint.goto]) (by simp [Endpoint.goto])
    (fun _ hx => (by cases hx)) h.receiving (by rw [Endpoint.goto, hcommands]; exact h.lifecycle)
    (by simpa [Endpoint.goto] using hheld.symm.append_left _)

omit [DecidableEq Id] in
/-- The frame drops the packet `x`, whose connection is cancelled. -/
theorem Accounted.cancel (h : Accounted forwarded s) {frame : Frame Id R D L} {x : Id × R}
    (hcommands : frame.commands = s.frame.commands)
    (hheld : (x :: frame.datagrams).Perm s.frame.datagrams) :
    Accounted forwarded ((s.drop .closedBeforeDelivery x).goto frame) := by
  rw [← List.append_nil forwarded]
  refine h.move [] [] [(.closedBeforeDelivery, x)] (by simp [received, Endpoint.goto, drop]) rfl
    (fun y hy => ?_) h.receiving (by rw [Endpoint.goto, hcommands]; exact h.lifecycle)
    (perm_of_count fun y => ?_)
  · rw [List.mem_singleton.mp hy]
    exact Or.inr (Or.inr rfl)
  · have hc := hheld.count_eq y
    simp only [Endpoint.goto, drop, List.count_append, List.map_cons, List.map_nil,
      List.count_nil] at hc ⊢
    rw [← List.singleton_append, List.count_append] at hc
    omega

omit [DecidableEq Id] in
/-- The frame takes the oldest packet from the queue. -/
theorem Accounted.take (h : Accounted forwarded s) {budget : ℕ} {x : Id × R}
    {commands : List (Id × R)} {queue : Lossy.Queue c.limits (Id × R)}
    (hframe : s.frame = .packets (budget + 1) none commands) (hv : x :: queue.values = s.datagrams.values)
    (hopen : queue.state.receiverOpen = true) :
    Accounted forwarded ({ s with datagrams := queue }.goto (.packets budget (some x) commands)) := by
  have hlife := h.lifecycle
  rw [hframe] at hlife
  rw [← List.append_nil forwarded]
  refine h.move [] [] [] (by simp [received, Endpoint.goto]) (by simp [Endpoint.goto])
    (fun _ hx => (by cases hx)) hopen hlife (perm_of_count fun y => ?_)
  rw [← hv, hframe]
  simp only [Endpoint.goto, Frame.datagrams, Option.toList_none, Option.toList_some, List.count_append,
    List.count_cons, List.count_nil, List.map_nil]
  omega

omit [DecidableEq Id] in
/-- The command whose connection is not cancelled triggers its packet. -/
theorem Accounted.deliver (h : Accounted forwarded s) {x : Id × R} {commands : List (Id × R)}
    (hframe : s.frame = .delivering true (x :: commands)) :
    Accounted forwarded ((s.trigger (.packet x.1 x.2 s.registry)).goto (.delivering false commands)) := by
  have hlife := h.lifecycle
  rw [hframe] at hlife
  rw [← List.append_nil forwarded]
  refine h.move [] [x] [] (by simp [received, Endpoint.goto, trigger, Event.received?])
    (by simp [Endpoint.goto, trigger]) (fun _ hx => (by cases hx)) h.receiving hlife
    (perm_of_count fun y => ?_)
  rw [hframe]
  simp only [Endpoint.goto, trigger, Frame.datagrams, List.count_append, List.count_cons, List.count_nil,
    List.map_nil]
  omega

theorem accounted_advance (hc : c.datagram = true) (h : Accounted forwarded s) :
    Accounted forwarded s.advance := by
  unfold advance
  split
  · exact h
  · rename_i hframe
    exact h.goto (by rw [hframe]; rfl) (by rw [hframe]; rfl)
  · rename_i budget commands hframe
    rw [Mpsc.tryRecv]
    have hlife := h.lifecycle
    rw [hframe] at hlife
    cases hitems : s.incoming.items with
    | nil => exact h.goto (by rw [hframe]; rfl) (by rw [hframe]; rfl)
    | cons message rest =>
      refine h.keep rfl (by rw [hframe]; rfl) rfl rfl fun other ho => hlife other ?_
      simpa [Endpoint.goto, Frame.commands, hitems] using ho
  · rename_i hframe
    exact accounted_execute h hframe
  · rw [if_pos hc]
    exact h
  · rename_i hframe
    split
    · exact h.cancel (by rw [hframe]; rfl) (by rw [hframe]; rfl)
    · refine h.goto (by rw [hframe]; rfl) ?_
      rw [hframe]
      exact List.perm_append_singleton _ _
  · rename_i hframe
    exact h.goto (by rw [hframe]; rfl) (by rw [hframe]; rfl)
  · rename_i hframe
    rcases s.datagrams.tryRecvIf_spec s.ready with ⟨x, queue, he, -, ho, -, hv⟩ | ⟨e, he, -⟩
    · rw [he]
      exact h.take hframe hv (ho.trans h.receiving)
    · rw [he]
      exact h.goto (by rw [hframe]; rfl) (by rw [hframe]; rfl)
  · rename_i hframe
    split
    · exact h.cancel (by rw [hframe]; rfl) (by rw [hframe]; rfl)
    · exact h.goto (by rw [hframe]; rfl) (by rw [hframe]; rfl)
  · rename_i hframe
    exact h.deliver hframe
  · rename_i hframe
    exact h.goto (by rw [hframe]; rfl) (by rw [hframe]; rfl)

/-- Every step that neither forwards a packet nor drops the world. -/
theorem accounted_step (hc : c.datagram = true) (h : Accounted forwarded s) {a : Act Id P R D L}
    (hoffer : ∀ id, a ≠ .offer id) (hworld : a ≠ .dropWorld) : Accounted forwarded (s.step a) := by
  have hsetup : ∀ id, a.setup? = some id → Accounted forwarded (s.step a) := fun id ha =>
    setup_rule (I := Accounted forwarded) (fun _ _ hs => hs.update id _) (fun _ hs => hs.update id _)
      (fun _ _ hm hs => hs.push hm) h ha
  cases a with
  | create id => exact hsetup id rfl
  | publish id => exact hsetup id rfl
  | hand id arrives => exact hsetup id rfl
  | split id result => exact hsetup id rfl
  | abandon id => exact hsetup id rfl
  | stopSetup id => exact hsetup id rfl
  | link id a =>
    simp only [step, link]
    split
    · exact h.update id _
    · exact h
  | offer id => exact absurd rfl (hoffer id)
  | report id =>
    simp only [step, report]
    split
    · exact sendIncoming_rule (I := Accounted forwarded) h (fun _ => (h.push (by simp)).update id _)
        (h.update id _)
    · exact h
  | refuse error =>
    simp only [step, refuse]
    split
    · exact sendIncoming_rule (I := Accounted forwarded) h (fun _ => h.push (by simp)) h
    · exact h
  | reject error =>
    simp only [step, reject]
    split
    · exact h.keep rfl rfl (by simp [received, trigger, Event.received?]) rfl h.lifecycle
    · exact h
  | beginFrame budget =>
    simp only [step, beginFrame]
    split
    · rename_i hframe
      split
      · exact h.goto (by rw [hframe]; rfl) (by rw [hframe]; rfl)
      · exact h
    · exact h
  | beginPackets budget =>
    simp only [step, beginPackets, if_pos hc]
    split
    · rename_i hframe
      exact h.goto (by rw [hframe]; rfl) (by rw [hframe]; rfl)
    · exact h
  | advance => exact accounted_advance hc h
  | dropWorld => exact absurd rfl hworld

end Steps

/-! ### Whole runs -/

/-- An endpoint's run with the packets that its readers have forwarded, with
their connections. -/
structure Forwards (c : Plugin) (Id P R D L : Type*) where
  endpoint : Endpoint c Id P R D L
  forwarded : List (Id × R)

namespace Forwards

variable [DecidableEq Id]

def new (c : Plugin) (Id P R D L : Type*) : Forwards c Id P R D L := ⟨.new c Id P R D L, []⟩

/-- The packet that a step passes to `forward`. -/
def forwards? (s : Endpoint c Id P R D L) : Act Id P R D L → Option (Id × R)
  | .offer id =>
    match (s.peers id).setup, (s.peers id).link.reader with
    | .running, .offering packet => some (id, packet)
    | _, _ => none
  | _ => none

def step (h : Forwards c Id P R D L) (a : Act Id P R D L) : Forwards c Id P R D L where
  endpoint := h.endpoint.step a
  forwarded := h.forwarded ++ (forwards? h.endpoint a).toList

theorem accounted_step (hc : c.datagram = true) {h : Forwards c Id P R D L}
    (hg : Accounted h.forwarded h.endpoint) {a : Act Id P R D L} (ha : a ≠ .dropWorld) :
    Accounted (h.step a).forwarded (h.step a).endpoint := by
  by_cases hoffer : ∃ id, a = .offer id
  · obtain ⟨id, rfl⟩ := hoffer
    rcases accounted_offer hc hg id with ⟨packet, hs, hr, hnew⟩ | ⟨hno, hsame⟩
    · simpa [step, forwards?, hs, hr, Endpoint.step] using hnew
    · have hnone : forwards? h.endpoint (.offer id) = none := by
        simp only [forwards?]
        split
        · rename_i packet hs hr
          exact absurd ⟨hs, hr⟩ (hno packet)
        · rfl
      simpa [step, hnone, Endpoint.step, hsame] using hg
  · have hnone : forwards? h.endpoint a = none := by
      cases a with
      | offer id => exact absurd ⟨id, rfl⟩ hoffer
      | _ => rfl
    have hnew := Endpoint.accounted_step hc hg (fun id he => hoffer ⟨id, he⟩) ha
    simpa [step, hnone] using hnew

theorem accounted_run (hc : c.datagram = true) (as : List (Act Id P R D L))
    (hworld : ∀ a ∈ as, a ≠ .dropWorld) :
    Accounted (run step (new c Id P R D L) as).forwarded (run step (new c Id P R D L) as).endpoint :=
  run_inv_of_meets (I := fun h : Forwards c Id P R D L => Accounted h.forwarded h.endpoint)
    (fun _ _ ha hg => accounted_step hc hg ha) as (meets_of_forall as _ hworld)
    (accounted_new c Id P R D L)

theorem endpoint_run : ∀ (as : List (Act Id P R D L)) (h : Forwards c Id P R D L),
    (run step h as).endpoint = run Endpoint.step h.endpoint as
  | [], _ => rfl
  | a :: as, h => endpoint_run as (h.step a)

end Forwards

/-- The packets of one connection. -/
def ofConnection [DecidableEq Id] (id : Id) (l : List (Id × R)) : List R :=
  l.filterMap fun x => if x.1 = id then some x.2 else none

/-- The drops recorded on the handle of one connection. -/
def charged [DecidableEq Id] (s : Endpoint c Id P R D L) (id : Id) : List (QueueDropReason × R) :=
  s.drops.filterMap fun x => if x.2.1 = id then some (x.1, x.2.2) else none

theorem ofConnection_received [DecidableEq Id] (s : Endpoint c Id P R D L) (id : Id) :
    ofConnection id s.received = s.triggered id := by
  rw [ofConnection, received, List.filterMap_filterMap, triggered]
  refine List.filterMap_congr fun event _ => ?_
  cases event <;> simp [Event.received?, Event.packet?]

theorem ofConnection_drops [DecidableEq Id] (s : Endpoint c Id P R D L) (id : Id) :
    ofConnection id (s.drops.map Prod.snd) = (s.charged id).map Prod.snd := by
  rw [ofConnection, charged, List.filterMap_map, List.map_filterMap]
  refine List.filterMap_congr fun x _ => ?_
  by_cases hx : x.2.1 = id
  · simp [hx]
  · simp [hx]

/-- **Datagram accounting.** While the world is there, after any steps of any
connections, handles and frames, the packets forwarded are those queued, those
that the frame has taken or its commands hold, those triggered and those dropped,
each as often as it was forwarded; a drop has one of three reasons. The same is
true of each connection alone: what it has forwarded is not charged to another
one, and what the others have forwarded is not charged to it. -/
theorem datagram_accounting [DecidableEq Id] (c : Plugin) (hc : c.datagram = true)
    (as : List (Act Id P R D L)) (hworld : ∀ a ∈ as, a ≠ .dropWorld) :
    let h := run Forwards.step (Forwards.new c Id P R D L) as
    let s := h.endpoint
    s = run step (new c Id P R D L) as ∧
    h.forwarded.Perm
      (s.datagrams.values ++ s.frame.datagrams ++ s.received ++ s.drops.map Prod.snd) ∧
    (∀ x ∈ s.drops, x.1 = .receiveQueueFull ∨ x.1 = .receiveQueueEvicted ∨
      x.1 = .closedBeforeDelivery) ∧
    ∀ id, (ofConnection id h.forwarded).Perm
      (ofConnection id s.datagrams.values ++ ofConnection id s.frame.datagrams ++ s.triggered id ++
        (s.charged id).map Prod.snd) := by
  intro h s
  have hg : Accounted h.forwarded s := Forwards.accounted_run hc as hworld
  refine ⟨Forwards.endpoint_run as _, hg.places, hg.reasons, fun id => ?_⟩
  have hp := hg.places.filterMap fun x => if x.1 = id then some x.2 else none
  simp only [List.filterMap_append] at hp
  rw [← ofConnection_received, ← ofConnection_drops]
  exact hp

/-- The newest of two connections evicts the packet of the other, whose handle
has the record. -/
theorem datagram_accounting_eviction :
    let c : Plugin := ⟨.client, true, .bits64, 1, .dropNewest, 1, .dropOldest⟩
    let up (id : ℕ) : List (Act ℕ ℕ ℕ ℕ ℕ) := [.create id, .publish id, .hand id true,
      .split id (.ok ()), .link id .poll, .link id .advance, .link id .advance]
    let receive (id packet : ℕ) : List (Act ℕ ℕ ℕ ℕ ℕ) :=
      [.link id (.read (some (.ok packet))), .link id .advance, .offer id]
    let as := up 0 ++ [.beginFrame 8, .advance, .advance, .advance, .beginPackets 0, .advance,
      .advance] ++ up 1 ++ receive 0 7 ++ receive 1 9
    let h := run Forwards.step (Forwards.new c ℕ ℕ ℕ ℕ ℕ) as
    h.forwarded = [(0, 7), (1, 9)] ∧ h.endpoint.charged 1 = [] ∧
      (ofConnection 0 h.forwarded).Perm
        (ofConnection 0 h.endpoint.datagrams.values ++ ofConnection 0 h.endpoint.frame.datagrams ++
          h.endpoint.triggered 0 ++ (h.endpoint.charged 0).map Prod.snd) ∧
      h.endpoint.charged 0 = [(.receiveQueueEvicted, 7)] := by
  intro c up receive as h
  have hc := datagram_accounting c rfl as (by simp [as, up, receive])
  exact ⟨by decide +kernel, by decide +kernel, hc.2.2.2 0, by decide +kernel⟩

end Endpoint
end Slinet
