/-
# What a frame does for those who wait

The lifecycle messages and the datagram packets of an endpoint wait in two queues
for a frame (`incoming_system` and `receive_datagram_packets` of `src/client.rs`
and `src/server.rs`), which takes from each what its budget allows. A packet at
the head of its queue whose connection is not yet published keeps all the others
waiting, of whatever connection.

While the frame runs, the tasks go on: they send, evict, cancel. Still a frame
ends after a number of its own steps that its budgets bound (`rest_of_frame`); it
executes the messages it has found, up to its budget, in their order; and it
leaves none of the first packets behind, up to its other budget, if their
connections are published, cancelled or among those messages: each is triggered
or dropped with a reason (`frame_serves`). As `Established` is sent before the
reader starts, every packet in the queue is of that kind for a frame that
executes all messages (`waiting_announced`), so none waits for good.
-/
import Slinet.ClientRegistry
import Slinet.DatagramOrder

namespace Slinet

variable {Id P R D L : Type*}

/-- The message behind an event. -/
def Event.message : Event Id R D L → Message Id R D L
  | established id => .established id
  | packet id value _ => .streamPacket id value
  | disconnected id error => .closed id error

/-- The frame is past its lifecycle commands. -/
def Frame.late : Frame Id R D L → Bool
  | lifecycle _ _ => false
  | applying _ => false
  | _ => true

/-- The steps that a frame has before it, at most. -/
def Frame.steps : Frame Id R D L → ℕ
  | rest => 0
  | lifecycle budget commands => 2 * budget + commands.length + 2
  | applying commands => commands.length + 1
  | packets budget taken commands => 4 * budget + 3 * taken.toList.length + 2 * commands.length + 3
  | delivering passed commands => 2 * commands.length + 2 - passed.toNat

theorem Frame.rest_of_steps {frame : Frame Id R D L} (h : frame.steps = 0) : frame = .rest := by
  cases frame with
  | rest => rfl
  | delivering passed commands =>
    have hpassed : passed.toNat ≤ 1 := Bool.toNat_le passed
    simp only [steps] at h
    omega
  | _ => simp [steps] at h

theorem Event.kind?_message [DecidableEq Id] (event : Event Id R D L) (id : Id) :
    event.message.kind? id = event.kind? id := by
  cases event with
  | established k => rfl
  | packet k value registry => rfl
  | disconnected k error => cases k <;> rfl

/-- A packet that `try_recv_if` does not take is not ready. -/
theorem Lossy.Queue.ready_of_error {T : Type*} {q : Lossy.Limits} {s : Lossy.Queue q T} {ready : T → Bool}
    {e : TryRecvError} {s' : Lossy.Queue q T} (h : s.tryRecvIf ready = (.error e, s')) {x : T}
    {rest : List T} (hx : s.values = x :: rest) : ready x = false := by
  have hitems : s.state.items.map Prod.fst = x :: rest := hx
  have herror := congrArg Prod.fst h
  simp only [tryRecvIf, Lossy.tryRecvIf] at herror
  obtain ⟨item, items, hcons, rfl, -⟩ := List.map_eq_cons_iff.mp hitems
  rw [hcons] at herror
  by_contra hready
  have hitem : ready item.1 = true := by simpa using hready
  simp only at herror
  rw [if_pos hitem] at herror
  cases herror

namespace Endpoint

variable {c : Plugin}

/-- The datagram packets that are behind the queue. -/
def behind (s : Endpoint c Id P R D L) : List (Id × R) :=
  s.received ++ s.drops.map Prod.snd ++ s.frame.datagrams

/-- The packet's connection is published or cancelled, or its `Established` is
among the first `b` messages. -/
def Due (s : Endpoint c Id P R D L) (b : ℕ) (x : Id × R) : Prop :=
  s.ready x = true ∨ .established x.1 ∈ s.incoming.items.take b

/-- From `s` to `s'` the packets `left` have left the queue, and none is lost. -/
structure Leaves (left : List (Id × R)) (s s' : Endpoint c Id P R D L) : Prop where
  alive : s'.worldOpen = s.worldOpen ∧ s'.incoming.receiverOpen = s.incoming.receiverOpen
  events : s.events <+: s'.events
  drops : s.drops <+: s'.drops
  published : ∀ id, (s.peers id).published = true → (s'.peers id).published = true
  cancelled : ∀ id, s.cancelled id = true → s'.cancelled id = true
  queue : ∃ new, s.datagrams.values ++ new = left ++ s'.datagrams.values
  behind : (s.behind ++ left).Subperm s'.behind

section Steps

variable {left left' : List (Id × R)} {s e e' : Endpoint c Id P R D L}

theorem leaves_refl (s : Endpoint c Id P R D L) : Leaves [] s s :=
  ⟨⟨rfl, rfl⟩, List.prefix_rfl, List.prefix_rfl, fun _ h => h, fun _ h => h, ⟨[], List.append_nil _⟩, by
    rw [List.append_nil]⟩

theorem Leaves.trans (h : Leaves left s e) (h' : Leaves left' e e') : Leaves (left ++ left') s e' := by
  obtain ⟨new, hnew⟩ := h.queue
  obtain ⟨new', hnew'⟩ := h'.queue
  refine ⟨⟨h'.alive.1.trans h.alive.1, h'.alive.2.trans h.alive.2⟩, h.events.trans h'.events,
    h.drops.trans h'.drops, fun id hp => h'.published id (h.published id hp),
    fun id ht => h'.cancelled id (h.cancelled id ht), ⟨new ++ new', ?_⟩, ?_⟩
  · rw [← List.append_assoc, hnew, List.append_assoc, hnew', List.append_assoc]
  · rw [← List.append_assoc]
    exact ((List.subperm_append_right left').mpr h.behind).trans h'.behind

theorem Leaves.ready (h : Leaves left s e) {x : Id × R} (hx : s.ready x = true) : e.ready x = true := by
  simp only [Endpoint.ready, Bool.or_eq_true] at hx ⊢
  exact hx.imp (h.published x.1) (h.cancelled x.1)

/-- Packets are triggered and dropped, those of the frame and those that leave. -/
theorem behind_le (triggered : List (Id × R)) (dropped : List (QueueDropReason × Id × R))
    (hrec : e.received = s.received ++ triggered) (hdrops : e.drops = s.drops ++ dropped)
    (h : (s.frame.datagrams ++ left).Subperm (triggered ++ dropped.map Prod.snd ++ e.frame.datagrams)) :
    (s.behind ++ left).Subperm e.behind := by
  refine subperm_of_count fun x => ?_
  have hx := h.count_le x
  simp only [Endpoint.behind, hrec, hdrops, List.map_append, List.count_append] at hx ⊢
  omega

/-- The frame, the lifecycle queue and the events move, and no datagram does. -/
theorem leaves_keep
    (halive : e.worldOpen = s.worldOpen ∧ e.incoming.receiverOpen = s.incoming.receiverOpen)
    (hev : s.events <+: e.events) (hdrops : e.drops = s.drops) (hpeers : e.peers = s.peers)
    (hq : e.datagrams = s.datagrams) (hbehind : s.behind.Subperm e.behind) : Leaves [] s e := by
  refine ⟨halive, hev, by rw [hdrops], fun id hp => ?_, fun id ht => ?_, ⟨[], ?_⟩, ?_⟩
  · rw [hpeers]
    exact hp
  · rw [cancelled, hpeers]
    exact ht
  · rw [hq, List.append_nil, List.nil_append]
  · rw [List.append_nil]
    exact hbehind

/-- The frame goes on, with the packets that it has. -/
theorem leaves_goto (s : Endpoint c Id P R D L) (frame : Frame Id R D L)
    (h : frame.datagrams.Perm s.frame.datagrams) : Leaves [] s (s.goto frame) := by
  refine leaves_keep ⟨rfl, rfl⟩ List.prefix_rfl rfl rfl rfl ?_
  have hbehind : (s.behind ++ []).Subperm (s.goto frame).behind :=
    behind_le [] [] (List.append_nil _).symm (List.append_nil _).symm
      (by simpa [Endpoint.goto] using h.symm.subperm)
  rwa [List.append_nil] at hbehind

/-- The frame drops a packet that it has. -/
theorem leaves_drop (s : Endpoint c Id P R D L) (reason : QueueDropReason) (x : Id × R)
    (frame : Frame Id R D L) (h : (x :: frame.datagrams).Perm s.frame.datagrams) :
    Leaves [] s ((s.drop reason x).goto frame) := by
  refine ⟨⟨rfl, rfl⟩, List.prefix_rfl, List.prefix_append _ _, fun _ hp => hp, fun _ ht => ht, ⟨[], List.append_nil _⟩, ?_⟩
  refine behind_le [] [(reason, x)] (List.append_nil _).symm rfl ?_
  rw [List.append_nil]
  exact h.symm.subperm

/-! ### The stages of a frame -/

/-- The commands `done` have been executed since `s`. -/
structure Told (done : List (Message Id R D L)) (s e : Endpoint c Id P R D L) : Prop where
  events : ∃ more, e.events = s.events ++ more ∧ done.Sublist (more.map Event.message)
  published : ∀ id, .established id ∈ done → (e.peers id).published = true

variable {done done' : List (Message Id R D L)} {b k n n' : ℕ}

theorem Told.mono (h : Told done s e) (hl : Leaves left e e') : Told done s e' := by
  obtain ⟨more, hmore, hsub⟩ := h.events
  obtain ⟨later, hlater⟩ := hl.events
  refine ⟨⟨more ++ later, ?_, ?_⟩, fun id hid => hl.published id (h.published id hid)⟩
  · rw [← hlater, hmore, List.append_assoc]
  · rw [List.map_append]
    exact hsub.trans (List.sublist_append_left _ _)

theorem Told.sublist (h : Told done s e) (hs : done'.Sublist done) : Told done' s e := by
  obtain ⟨more, hmore, hsub⟩ := h.events
  exact ⟨⟨more, hmore, hs.trans hsub⟩, fun id hid => h.published id (hs.subset hid)⟩

theorem told_nil (h : s.events <+: e.events) : Told [] s e := by
  obtain ⟨more, hmore⟩ := h
  exact ⟨⟨more, hmore.symm, List.nil_sublist _⟩, fun _ hid => (by cases hid)⟩

/-- Where the frame is with the first `b` messages of `s` and its first `k`
packets, when `n` have left the queue. -/
def Stage (s : Endpoint c Id P R D L) (b k n : ℕ) (e : Endpoint c Id P R D L) : Prop :=
  match e.frame with
  | .lifecycle budget commands =>
    commands.length + budget = b ∧ s.incoming.items <+: commands ++ e.incoming.items
  | .applying commands => ∃ done, s.incoming.items.take b <+: done ++ commands ∧ Told done s e
  | .packets budget _ _ => Told (s.incoming.items.take b) s e ∧ k ≤ n + budget
  | _ => Told (s.incoming.items.take b) s e ∧ (c.datagram = true → k ≤ n)

/-- The tasks do not change the stage. -/
theorem Stage.mono (h : Stage s b k n e) (hl : Leaves left e e') (hframe : e'.frame = e.frame)
    (hitems : e.incoming.items <+: e'.incoming.items) (hn : n ≤ n') : Stage s b k n' e' := by
  unfold Stage at h ⊢
  rw [hframe]
  split at h
  · exact ⟨h.1, h.2.trans ((List.prefix_append_right_inj _).mpr hitems)⟩
  · obtain ⟨done, hdone, htold⟩ := h
    exact ⟨done, hdone, htold.mono hl⟩
  · exact ⟨h.1.mono hl, by omega⟩
  · exact ⟨h.1.mono hl, fun hc => Nat.le_trans (h.2 hc) hn⟩

/-- The first packets of `s` that are still queued are ready. -/
theorem ready_of_waiting (hk : k ≤ s.datagrams.values.length)
    (hdue : ∀ x ∈ s.datagrams.values.take k, s.Due b x)
    (hl : Leaves left s e) (htold : Told (s.incoming.items.take b) s e) (hlt : left.length < k) :
    ∃ x rest, e.datagrams.values = x :: rest ∧ e.ready x = true := by
  obtain ⟨new, hnew⟩ := hl.queue
  have hget : (left ++ e.datagrams.values)[left.length]? = s.datagrams.values[left.length]? := by
    rw [← hnew, List.getElem?_append_left (by omega)]
  rw [List.getElem?_append_right (Nat.le_refl _), Nat.sub_self] at hget
  cases hvalues : e.datagrams.values with
  | nil =>
    rw [hvalues] at hget
    have hnone := hget.symm
    rw [List.getElem?_nil, List.getElem?_eq_none_iff] at hnone
    omega
  | cons x rest =>
    refine ⟨x, rest, rfl, ?_⟩
    rw [hvalues, List.getElem?_cons_zero] at hget
    have hmem : x ∈ s.datagrams.values.take k := by
      refine List.mem_of_getElem? (i := left.length) ?_
      rw [List.getElem?_take_of_lt hlt]
      exact hget.symm
    rcases hdue x hmem with hx | hx
    · exact hl.ready hx
    · simp [Endpoint.ready, htold.published x.1 hx]

/-! ### Steps -/

variable [DecidableEq Id]

/-- A step of one connection, which stays published and cancelled. -/
theorem leaves_update (s : Endpoint c Id P R D L) (id : Id) {f : Peer P R D L → Peer P R D L}
    (hp : (s.peers id).published = true → (f (s.peers id)).published = true)
    (ht : (s.peers id).link.conn.token = true → (f (s.peers id)).link.conn.token = true) :
    Leaves [] s (s.update id f) := by
  refine ⟨⟨rfl, rfl⟩, List.prefix_rfl, List.prefix_rfl, fun k hk => ?_, fun k hk => ?_, ⟨[], List.append_nil _⟩, ?_⟩
  · by_cases hid : k = id
    · subst hid
      rw [peers_update_self]
      exact hp hk
    · rw [peers_update_ne s hid]
      exact hk
  · by_cases hid : k = id
    · subst hid
      rw [cancelled, peers_update_self]
      exact ht hk
    · rw [cancelled, peers_update_ne s hid]
      exact hk
  · rw [List.append_nil]
    rfl

theorem leaves_act (s : Endpoint c Id P R D L) (id : Id) (a : Link.Act P R D L) :
    Leaves [] s (s.act id a) :=
  leaves_update s id (fun hp => hp) fun ht => Link.token_step _ a ht

theorem Leaves.act (h : Leaves left s e) (id : Id) (a : Link.Act P R D L) : Leaves left s (e.act id a) := by
  have hact := h.trans (leaves_act e id a)
  rwa [List.append_nil] at hact

/-- A packet is forwarded: what it evicts leaves the queue. -/
theorem leaves_forward (s : Endpoint c Id P R D L) (id : Id) (packet : R) :
    ∃ left, Leaves left s (s.forward id packet) := by
  unfold forward
  rcases s.datagrams.trySend_spec (id, packet) 1 with
    ⟨evicted, queue, he, -, -, -, hv, -⟩ | ⟨he, -⟩ | ⟨he, -⟩
  · rw [he]
    refine ⟨evicted, Leaves.act ?_ id _⟩
    refine ⟨⟨rfl, rfl⟩, List.prefix_rfl, List.prefix_append _ _, fun _ h => h, fun _ h => h,
      ⟨[(id, packet)], hv.symm⟩, ?_⟩
    refine behind_le [] (evicted.map (Prod.mk .receiveQueueEvicted)) (List.append_nil _).symm rfl ?_
    have hsnd : (evicted.map (Prod.mk QueueDropReason.receiveQueueEvicted)).map Prod.snd = evicted := by
      simp [Function.comp_def]
    rw [hsnd, List.nil_append]
    exact List.perm_append_comm.subperm
  · rw [he]
    exact ⟨[], leaves_act s id _⟩
  · rw [he]
    refine ⟨[], Leaves.act ?_ id _⟩
    refine ⟨⟨rfl, rfl⟩, List.prefix_rfl, List.prefix_append _ _, fun _ h => h, fun _ h => h, ⟨[], List.append_nil _⟩, ?_⟩
    refine behind_le [] [(.receiveQueueFull, id, packet)] (List.append_nil _).symm rfl ?_
    rw [List.append_nil]
    exact (List.sublist_append_right _ _).subperm

/-- **A step of the tasks** may fill the queue, and evict from it. -/
theorem leaves_step (s : Endpoint c Id P R D L) {a : Act Id P R D L}
    (h : a ≠ .advance ∧ (∀ n, a ≠ .beginFrame n) ∧ (∀ n, a ≠ .beginPackets n) ∧ a ≠ .dropWorld) :
    ∃ left, Leaves left s (s.step a) := by
  have hsent : ∀ e : Endpoint c Id P R D L, ∀ message, Leaves [] e
      { e with incoming := { e.incoming with items := e.incoming.items ++ [message] } } := fun e message =>
    leaves_keep ⟨rfl, rfl⟩ List.prefix_rfl rfl rfl rfl (List.Subperm.refl _)
  have hsetup : ∀ id, a.setup? = some id → ∃ left, Leaves left s (s.step a) := fun id ha =>
    ⟨[], setup_rule (I := Leaves [] s)
      (fun _ _ hs => hs.trans (leaves_update _ id (fun hp => hp) fun ht => ht))
      (fun _ hs => hs.act id _) (fun _ _ _ hs => hs.trans (hsent _ _)) (leaves_refl s) ha⟩
  cases a with
  | create id => exact hsetup id rfl
  | publish id => exact hsetup id rfl
  | hand id arrives => exact hsetup id rfl
  | split id result => exact hsetup id rfl
  | abandon id => exact hsetup id rfl
  | stopSetup id => exact hsetup id rfl
  | link id a =>
    simp only [step, link]
    split_ifs
    · exact ⟨[], leaves_act s id a⟩
    · exact ⟨[], leaves_refl s⟩
  | offer id =>
    simp only [step, offer]
    split
    · rename_i packet _ _
      split_ifs
      · exact leaves_forward s id packet
      · rcases s.incoming.trySend_cases (.streamPacket id packet) with ⟨he, -⟩ | ⟨he, -⟩ | ⟨he, -⟩
        · rw [he]
          exact ⟨[], (hsent s _).act id _⟩
        · rw [he]
          exact ⟨[], leaves_act s id _⟩
        · rw [he]
          exact ⟨[], leaves_act s id _⟩
    · exact ⟨[], leaves_refl s⟩
  | report id =>
    simp only [step, report]
    split
    · exact ⟨[], sendIncoming_rule (I := Leaves [] s) (leaves_refl s) (fun _ => (hsent s _).act id _)
        (leaves_act s id _)⟩
    · exact ⟨[], leaves_refl s⟩
  | refuse error =>
    simp only [step, refuse]
    split
    · exact ⟨[], sendIncoming_rule (I := Leaves [] s) (leaves_refl s) (fun _ => hsent s _) (leaves_refl s)⟩
    · exact ⟨[], leaves_refl s⟩
  | reject error =>
    simp only [step, reject]
    split
    · refine ⟨[], leaves_keep ⟨rfl, rfl⟩ (List.prefix_append _ _) rfl rfl rfl ?_⟩
      have hrec : (s.trigger (.disconnected none (.noConnection error))).received = s.received := by
        simp [received, trigger, Event.received?]
      rw [Endpoint.behind, Endpoint.behind, hrec]
      exact List.Subperm.refl _
    · exact ⟨[], leaves_refl s⟩
  | beginFrame n => exact absurd rfl (h.2.1 n)
  | beginPackets n => exact absurd rfl (h.2.2.1 n)
  | advance => exact absurd rfl h.1
  | dropWorld => exact absurd rfl h.2.2.2

/-- A command triggers its event, and may publish its connection. -/
theorem leaves_execute (s : Endpoint c Id P R D L) (message : Message Id R D L)
    (commands' : List (Message Id R D L)) {commands : List (Message Id R D L)}
    (hframe : s.frame = .applying commands) :
    Leaves [] s ((s.execute message).goto (.applying commands')) ∧
      ∃ event, (s.execute message).events = s.events ++ [event] ∧ event.message = message := by
  have hbehind : ∀ e : Endpoint c Id P R D L, s.events <+: e.events → e.drops = s.drops →
      (s.behind ++ []).Subperm (e.goto (.applying commands')).behind := by
    intro e hev hdrops
    refine subperm_of_count fun x => ?_
    have hrec : s.received.count x ≤ (e.goto (.applying commands')).received.count x :=
      (hev.filterMap Event.received?).sublist.count_le x
    simp only [Endpoint.behind, hframe, Endpoint.goto, hdrops, Frame.datagrams, List.count_append,
      List.count_nil] at hrec ⊢
    omega
  cases message with
  | established id =>
    have hev : (s.execute (.established id)).events = s.events ++ [.established id] := rfl
    refine ⟨⟨⟨rfl, rfl⟩, ⟨_, hev.symm⟩, List.prefix_rfl, fun k hk => ?_, fun k hk => ?_, ⟨[], List.append_nil _⟩,
      hbehind _ ⟨_, hev.symm⟩ rfl⟩, _, hev, rfl⟩
    · show ((s.establish id).peers k).published = true
      rw [peers_establish]
      split
      · rfl
      · exact hk
    · show ((s.establish id).peers k).link.conn.token = true
      rw [peers_establish]
      split
      · rename_i hid
        rw [← hid]
        exact hk
      · exact hk
  | streamPacket id packet =>
    have hev : (s.execute (.streamPacket id packet)).events = s.events ++ [.packet id packet s.registry] := rfl
    exact ⟨⟨⟨rfl, rfl⟩, ⟨_, hev.symm⟩, List.prefix_rfl, fun _ h => h, fun _ h => h, ⟨[], List.append_nil _⟩,
      hbehind _ ⟨_, hev.symm⟩ rfl⟩, _, hev, rfl⟩
  | closed id error =>
    cases id with
    | none =>
      have hev : (s.execute (.closed none error)).events = s.events ++ [.disconnected none error] := rfl
      exact ⟨⟨⟨rfl, rfl⟩, ⟨_, hev.symm⟩, List.prefix_rfl, fun _ h => h, fun _ h => h, ⟨[], List.append_nil _⟩,
        hbehind _ ⟨_, hev.symm⟩ rfl⟩, _, hev, rfl⟩
    | some id =>
      have hev : (s.execute (.closed (some id) error)).events =
        s.events ++ [.disconnected (some id) error] := rfl
      exact ⟨⟨⟨rfl, rfl⟩, ⟨_, hev.symm⟩, List.prefix_rfl, fun _ h => h, fun _ h => h, ⟨[], List.append_nil _⟩,
        hbehind _ ⟨_, hev.symm⟩ rfl⟩, _, hev, rfl⟩

theorem incoming_execute (s : Endpoint c Id P R D L) (message : Message Id R D L) :
    (s.execute message).incoming = s.incoming := by
  cases message with
  | established id => rfl
  | streamPacket id packet => rfl
  | closed id error => cases id <;> rfl

/-- **The frame's own step**, from stage to stage. -/
theorem stage_advance (hk : k ≤ s.datagrams.values.length)
    (hdue : ∀ x ∈ s.datagrams.values.take k, s.Due b x)
    (hl : Leaves left s e) (h : Stage s b k left.length e) :
    ∃ left', Leaves left' e e.advance ∧ Stage s b k (left.length + left'.length) e.advance := by
  unfold advance
  split
  · exact ⟨[], leaves_refl e, h⟩
  · rename_i commands hframe
    simp only [Stage, hframe] at h
    have hgoto := leaves_goto e (.applying commands) (by rw [hframe]; rfl)
    refine ⟨[], hgoto, [], ?_, told_nil (hl.events.trans hgoto.events)⟩
    -- the budget is spent: the commands are the first `b` messages
    have htake : (commands ++ e.incoming.items).take b = commands := by
      rw [List.take_append_of_le_length (by omega), List.take_of_length_le (by omega)]
    have hprefix := h.2.take b
    rwa [htake] at hprefix
  · rename_i budget commands hframe
    simp only [Stage, hframe] at h
    rw [Mpsc.tryRecv]
    cases hitems : e.incoming.items with
    | nil =>
      have hgoto := leaves_goto e (.applying commands) (by rw [hframe]; rfl)
      refine ⟨[], hgoto, [], ?_, told_nil (hl.events.trans hgoto.events)⟩
      rw [hitems, List.append_nil] at h
      exact (List.take_prefix _ _).trans h.2
    | cons message rest =>
      refine ⟨[], leaves_keep ⟨rfl, rfl⟩ List.prefix_rfl rfl rfl rfl ?_, ?_, ?_⟩
      · rw [Endpoint.behind, Endpoint.behind, hframe]
        exact List.Subperm.refl _
      · rw [List.length_append, List.length_singleton]
        omega
      · rw [hitems] at h
        simpa [Endpoint.goto] using h.2
  · rename_i message commands hframe
    simp only [Stage, hframe] at h
    obtain ⟨done, hdone, htold⟩ := h
    obtain ⟨hleaves, event, hevent, hmessage⟩ := e.leaves_execute message commands hframe
    obtain ⟨more, hmore, hsub⟩ := htold.events
    refine ⟨[], hleaves, done ++ [message], ?_, ⟨more ++ [event], ?_, ?_⟩, fun id hid => ?_⟩
    · rw [List.append_assoc]
      exact hdone
    · show (e.execute message).events = s.events ++ (more ++ [event])
      rw [hevent, hmore, List.append_assoc]
    · rw [List.map_append, List.map_singleton, hmessage]
      exact hsub.append (List.Sublist.refl _)
    · rcases List.mem_append.mp hid with hid | hid
      · exact hleaves.published id (htold.published id hid)
      · rw [← List.mem_singleton.mp hid]
        show ((e.establish id).peers id).published = true
        rw [peers_establish, if_pos rfl]
  · rename_i hframe
    simp only [Stage, hframe] at h
    split_ifs with hc
    · exact ⟨[], leaves_refl e, by simp only [Stage, hframe]; exact h⟩
    · obtain ⟨done, hdone, htold⟩ := h
      have hgoto := leaves_goto e .rest (by rw [hframe]; rfl)
      rw [List.append_nil] at hdone
      exact ⟨[], hgoto, (htold.sublist hdone.sublist).mono hgoto, fun hd => absurd hd hc⟩
  · rename_i budget x commands hframe
    simp only [Stage, hframe] at h
    split_ifs
    · have hdrop := leaves_drop e .closedBeforeDelivery x (.packets budget none commands) (by rw [hframe]; rfl)
      exact ⟨[], hdrop, h.1.mono hdrop, h.2⟩
    · have hgoto := leaves_goto e (.packets budget none (commands ++ [x])) (by
        rw [hframe]
        exact List.perm_append_singleton _ _)
      exact ⟨[], hgoto, h.1.mono hgoto, h.2⟩
  · rename_i commands hframe
    simp only [Stage, hframe] at h
    have hgoto := leaves_goto e (.delivering false commands) (by rw [hframe]; rfl)
    exact ⟨[], hgoto, h.1.mono hgoto, fun _ => h.2⟩
  · rename_i budget commands hframe
    simp only [Stage, hframe] at h
    rcases e.datagrams.tryRecvIf_spec e.ready with ⟨x, queue, he, -, -, -, hv⟩ | ⟨error, he, -⟩
    · rw [he]
      have htake : Leaves [x] e ({ e with datagrams := queue }.goto (.packets budget (some x) commands)) := by
        refine ⟨⟨rfl, rfl⟩, List.prefix_rfl, List.prefix_rfl, fun _ hp => hp, fun _ ht => ht, ⟨[], ?_⟩, ?_⟩
        · rw [List.append_nil]
          exact hv.symm
        · refine behind_le [] [] (List.append_nil _).symm (List.append_nil _).symm ?_
          rw [hframe]
          exact (List.perm_append_singleton x commands).subperm
      exact ⟨[x], htake, h.1.mono htake, by simp only [List.length_singleton]; omega⟩
    · rw [he]
      have hgoto := leaves_goto e (.delivering false commands) (by rw [hframe]; rfl)
      refine ⟨[], hgoto, h.1.mono hgoto, fun _ => ?_⟩
      -- nothing ready is left at the head, so the first `k` are gone
      by_contra hwait
      obtain ⟨x, rest, hx, hxready⟩ := ready_of_waiting hk hdue hl h.1 (by simpa using hwait)
      rw [Lossy.Queue.ready_of_error he hx] at hxready
      cases hxready
  · rename_i x commands hframe
    simp only [Stage, hframe] at h
    split_ifs
    · have hdrop := leaves_drop e .closedBeforeDelivery x (.delivering false commands) (by rw [hframe]; rfl)
      exact ⟨[], hdrop, h.1.mono hdrop, h.2⟩
    · have hgoto := leaves_goto e (.delivering true (x :: commands)) (by rw [hframe]; rfl)
      exact ⟨[], hgoto, h.1.mono hgoto, h.2⟩
  · rename_i x commands hframe
    simp only [Stage, hframe] at h
    have htrigger : Leaves [] e
        ((e.trigger (.packet x.1 x.2 e.registry)).goto (.delivering false commands)) := by
      refine ⟨⟨rfl, rfl⟩, List.prefix_append _ _, List.prefix_rfl, fun _ hp => hp, fun _ ht => ht, ⟨[], List.append_nil _⟩, ?_⟩
      refine behind_le [x] [] ?_ (List.append_nil _).symm ?_
      · simp [received, Endpoint.goto, trigger, Event.received?]
      · rw [hframe, List.append_nil]
        exact List.Subperm.refl _
    exact ⟨[], htrigger, h.1.mono htrigger, h.2⟩
  · rename_i hframe
    simp only [Stage, hframe] at h
    have hgoto := leaves_goto e .rest (by rw [hframe]; rfl)
    exact ⟨[], hgoto, h.1.mono hgoto, h.2⟩

/-! ### Whose packets wait -/

theorem alive_advance (s : Endpoint c Id P R D L) : s.advance.worldOpen = s.worldOpen ∧
    s.advance.incoming.receiverOpen = s.incoming.receiverOpen := by
  unfold advance
  split
  · exact ⟨rfl, rfl⟩
  · exact ⟨rfl, rfl⟩
  · rw [Mpsc.tryRecv]
    cases s.incoming.items with
    | nil => exact ⟨rfl, rfl⟩
    | cons message rest => exact ⟨rfl, rfl⟩
  · rename_i message commands hframe
    exact (s.leaves_execute message commands hframe).1.alive
  · split_ifs
    · exact ⟨rfl, rfl⟩
    · exact ⟨rfl, rfl⟩
  · split_ifs
    · exact ⟨rfl, rfl⟩
    · exact ⟨rfl, rfl⟩
  · exact ⟨rfl, rfl⟩
  · split
    · exact ⟨rfl, rfl⟩
    · exact ⟨rfl, rfl⟩
  · split_ifs
    · exact ⟨rfl, rfl⟩
    · exact ⟨rfl, rfl⟩
  · exact ⟨rfl, rfl⟩
  · exact ⟨rfl, rfl⟩

/-- The connection's `Established` is sent. -/
def Announced (s : Endpoint c Id P R D L) (id : Id) : Prop := .established ∈ s.past id ++ s.pending id

/-- Messages stay on their way until they are executed. -/
theorem Announced.idle {id : Id} (h : Announced s id) (hi : Idle s e) : Announced e id := by
  rcases List.mem_append.mp h with hpast | hpend
  · exact List.mem_append_left _ (History.past_mono hi.events hpast)
  · refine List.mem_append_right _ ?_
    rw [pending, hi.line, List.filterMap_append]
    exact List.mem_append_left _ hpend

theorem Announced.advance {id : Id} (h : Announced s id) : Announced s.advance id := by
  by_cases hcommand : ∃ message commands, s.frame = .applying (message :: commands)
  · obtain ⟨message, commands, hframe⟩ := hcommand
    obtain ⟨hleaves, event, hevent, hmessage⟩ := s.leaves_execute message commands hframe
    have hadvance : s.advance = (s.execute message).goto (.applying commands) := by
      rw [Endpoint.advance, hframe]
    have hkind : message.kind? id = event.kind? id := by
      rw [← hmessage]
      exact event.kind?_message id
    have hpast : s.advance.past id = s.past id ++ (message.kind? id).toList := by
      rw [hadvance, hkind]
      simp only [past, Endpoint.goto, hevent, List.filterMap_append, List.filterMap_cons, List.filterMap_nil]
      cases event.kind? id <;> rfl
    have hpend : s.pending id = (message.kind? id).toList ++ s.advance.pending id := by
      rw [hadvance]
      simp only [pending, Endpoint.goto, hframe, Frame.commands, s.incoming_execute message]
      rw [List.cons_append, List.filterMap_cons]
      cases message.kind? id <;> rfl
    rw [Announced, hpast, List.append_assoc, ← hpend]
    exact h
  · exact h.idle (idle_advance s fun message commands hframe => hcommand ⟨message, commands, hframe⟩)

/-- A reader offers a packet only after its connection is announced. -/
theorem Good.announced (h : Good s) (hopen : s.incoming.receiverOpen = true) {id : Id} {packet : R}
    (hs : (s.peers id).setup = .running) (hr : (s.peers id).link.reader = .offering packet) :
    Announced s id := by
  obtain ⟨st, hst, -, hlive⟩ := (h.orderly id).line
  have hup : st = .up := hlive (by simp [Peer.Live, hs, hr, Reader.Reported]) hopen
  subst hup
  unfold Announced
  cases hl : s.past id ++ s.pending id with
  | nil =>
    rw [hl] at hst
    cases hst
  | cons kind rest =>
    rw [hl] at hst
    cases kind with
    | established => exact List.mem_cons_self
    | packet => cases hst
    | disconnected => cases hst

/-- The connections of the packets forwarded are announced, while the world is
there. -/
structure Awaited (h : Forwards c Id P R D L) : Prop where
  good : Good h.endpoint
  receiving : h.endpoint.worldOpen = true → h.endpoint.incoming.receiverOpen = true
  announced : h.endpoint.worldOpen = true → ∀ x ∈ h.forwarded, Announced h.endpoint x.1

theorem Awaited.idle {h : Forwards c Id P R D L} (hw : Awaited h) {a : Act Id P R D L}
    (halive : (h.endpoint.step a).worldOpen = h.endpoint.worldOpen ∧
      (h.endpoint.step a).incoming.receiverOpen = h.endpoint.incoming.receiverOpen)
    (hkeep : ∀ id, Announced h.endpoint id → Announced (h.endpoint.step a) id) : Awaited (h.step a) := by
  refine ⟨good_step hw.good a, fun hopen => ?_, fun hopen x hx => ?_⟩
  · exact halive.2.trans (hw.receiving (halive.1.symm.trans hopen))
  · have hworld : h.endpoint.worldOpen = true := halive.1.symm.trans hopen
    refine hkeep x.1 ?_
    rcases List.mem_append.mp hx with hx | hx
    · exact hw.announced hworld x hx
    · cases a with
      | offer id =>
        simp only [Forwards.forwards?] at hx
        split at hx
        · rename_i packet hs hr
          rw [List.mem_singleton.mp hx]
          exact hw.good.announced (hw.receiving hworld) hs hr
        · cases hx
      | _ => cases hx

theorem awaited_step {h : Forwards c Id P R D L} (hw : Awaited h) (a : Act Id P R D L) :
    Awaited (h.step a) := by
  by_cases htask : a ≠ .advance ∧ (∀ n, a ≠ .beginFrame n) ∧ (∀ n, a ≠ .beginPackets n) ∧ a ≠ .dropWorld
  · obtain ⟨left, hleaves⟩ := leaves_step h.endpoint htask
    exact hw.idle hleaves.alive fun id hid => hid.idle (unmoved_step h.endpoint htask).idle
  cases a with
  | advance => exact hw.idle (alive_advance h.endpoint) fun id hid => hid.advance
  | beginFrame n =>
    refine hw.idle ?_ fun id hid => hid.idle (idle_begin h.endpoint (Or.inl rfl))
    simp only [step, beginFrame]
    split
    · split_ifs
      · exact ⟨rfl, rfl⟩
      · exact ⟨rfl, rfl⟩
    · exact ⟨rfl, rfl⟩
  | beginPackets n =>
    refine hw.idle ?_ fun id hid => hid.idle (idle_begin h.endpoint (Or.inr rfl))
    simp only [step, beginPackets]
    split
    · split_ifs
      · exact ⟨rfl, rfl⟩
      · exact ⟨rfl, rfl⟩
    · exact ⟨rfl, rfl⟩
  | dropWorld =>
    by_cases hframe : h.endpoint.frame = .rest
    · have hgone : (h.step .dropWorld).endpoint.worldOpen = false := by
        simp [Forwards.step, Endpoint.step, dropWorld, hframe]
      refine ⟨good_step hw.good .dropWorld, fun hopen => ?_, fun hopen => ?_⟩
      · rw [hgone] at hopen
        cases hopen
      · rw [hgone] at hopen
        cases hopen
    · have hsame : h.endpoint.step .dropWorld = h.endpoint := by
        simp only [step, dropWorld]
      refine hw.idle (by rw [hsame]; exact ⟨rfl, rfl⟩) fun id hid => ?_
      rw [hsame]
      exact hid
  | _ => exact absurd ⟨by simp, by simp, by simp, by simp⟩ htask

/-- **Who waits.** Between two frames, each packet queued is of a connection that
is published or cancelled, or whose `Established` is queued too. -/
theorem waiting_announced (hc : c.datagram = true) (as : List (Act Id P R D L))
    (hopen : (run step (new c Id P R D L) as).worldOpen = true)
    (hrest : (run step (new c Id P R D L) as).frame = .rest) {b : ℕ}
    (hlen : (run step (new c Id P R D L) as).incoming.items.length ≤ b) {x : Id × R}
    (hx : x ∈ (run step (new c Id P R D L) as).datagrams.values) :
    (run step (new c Id P R D L) as).Due b x := by
  rw [Due, List.take_of_length_le hlen]
  have hw : Awaited (run Forwards.step (Forwards.new c Id P R D L) as) :=
    run_inv (I := Awaited) (fun _ a h => awaited_step h a) as
      ⟨good_new c Id P R D L, fun _ => rfl, fun _ y hy => (by cases hy)⟩
  have hline := (Forwards.lined_run hc as).order
  have hsame := Forwards.endpoint_run as (Forwards.new c Id P R D L)
  obtain ⟨hgood, -, hall⟩ := hw
  rw [hsame] at hgood hall hline
  have hann := hall hopen x (hline.subset (List.mem_append_right _ hx))
  rcases List.mem_append.mp hann with hpast | hpend
  · refine Or.inl ?_
    have hpub := ((hgood.orderly x.1).published).mpr (List.ne_nil_of_mem hpast)
    rw [ready]
    simp only [Bool.or_eq_true]
    exact Or.inl hpub
  · refine Or.inr ?_
    obtain ⟨message, hmem, hkind⟩ := List.mem_filterMap.mp hpend
    have hframe : (run step (Forwards.new c Id P R D L).endpoint as).frame = .rest := hrest
    rw [hframe] at hmem
    cases message with
    | established id =>
      simp only [Message.kind?] at hkind
      split at hkind
      · rename_i hid
        rw [← hid]
        exact hmem
      · cases hkind
    | streamPacket id packet =>
      simp only [Message.kind?] at hkind
      split at hkind <;> cases hkind
    | closed id error =>
      cases id with
      | none => cases hkind
      | some id =>
        simp only [Message.kind?] at hkind
        split at hkind <;> cases hkind

/-! ### The end of a frame -/

/-- The steps of the tasks, and of a frame that has begun. -/
def Act.inside : Act Id P R D L → Bool
  | .beginFrame _ => false
  | .beginPackets _ => false
  | .dropWorld => false
  | _ => true

def Act.isAdvance : Act Id P R D L → Bool
  | .advance => true
  | _ => false

omit [DecidableEq Id] in
theorem Act.inside_cases {a : Act Id P R D L} (h : a.inside = true) : a = .advance ∨
    a.isAdvance = false ∧ a ≠ .advance ∧ (∀ n, a ≠ .beginFrame n) ∧ (∀ n, a ≠ .beginPackets n) ∧
      a ≠ .dropWorld := by
  cases a with
  | advance => exact Or.inl rfl
  | beginFrame n => cases h
  | beginPackets n => cases h
  | dropWorld => cases h
  | _ => exact Or.inr ⟨rfl, by simp, by simp, by simp, by simp⟩

/-- No step of its own takes the frame on: it is over, or its packets are next. -/
def Waits (e : Endpoint c Id P R D L) : Prop := e.frame = .rest ∨ c.datagram = true ∧ e.frame = .applying []

theorem steps_advance (e : Endpoint c Id P R D L) :
    Waits e ∧ e.advance = e ∨ e.advance.frame.steps < e.frame.steps := by
  unfold advance
  split
  · rename_i hframe
    exact Or.inl ⟨Or.inl hframe, rfl⟩
  · rename_i commands hframe
    rw [hframe]
    exact Or.inr (show commands.length + 1 < _ by simp only [Frame.steps]; omega)
  · rename_i budget commands hframe
    rw [hframe, Mpsc.tryRecv]
    cases e.incoming.items with
    | nil => exact Or.inr (show commands.length + 1 < _ by simp only [Frame.steps]; omega)
    | cons message rest =>
      refine Or.inr ?_
      simp only [Endpoint.goto, Frame.steps, List.length_append, List.length_singleton]
      omega
  · rename_i message commands hframe
    rw [hframe]
    refine Or.inr ?_
    simp only [Endpoint.goto, Frame.steps, List.length_cons]
    omega
  · rename_i hframe
    split_ifs with hc
    · exact Or.inl ⟨Or.inr ⟨hc, hframe⟩, rfl⟩
    · rw [hframe]
      exact Or.inr (Nat.succ_pos _)
  · rename_i budget x commands hframe
    rw [hframe]
    refine Or.inr ?_
    split_ifs
    · simp only [Endpoint.goto, Frame.steps, Option.toList_some, Option.toList_none, List.length_singleton,
        List.length_nil]
      omega
    · simp only [Endpoint.goto, Frame.steps, Option.toList_some, Option.toList_none, List.length_singleton,
        List.length_nil, List.length_append]
      omega
  · rename_i commands hframe
    rw [hframe]
    refine Or.inr ?_
    simp only [Endpoint.goto, Frame.steps, Option.toList_none, List.length_nil, Bool.toNat_false]
    omega
  · rename_i budget commands hframe
    rw [hframe]
    refine Or.inr ?_
    split
    · simp only [Endpoint.goto, Frame.steps, Option.toList_some, Option.toList_none, List.length_singleton,
        List.length_nil]
      omega
    · simp only [Endpoint.goto, Frame.steps, Option.toList_none, List.length_nil, Bool.toNat_false]
      omega
  · rename_i x commands hframe
    rw [hframe]
    refine Or.inr ?_
    split_ifs
    · simp only [Endpoint.goto, Frame.steps, List.length_cons, Bool.toNat_false]
      omega
    · simp only [Endpoint.goto, Frame.steps, List.length_cons, Bool.toNat_false, Bool.toNat_true]
      omega
  · rename_i x commands hframe
    rw [hframe]
    refine Or.inr ?_
    simp only [Endpoint.goto, Frame.steps, List.length_cons, Bool.toNat_false, Bool.toNat_true]
    omega
  · rename_i passed hframe
    rw [hframe]
    refine Or.inr ?_
    have hpassed : passed.toNat ≤ 1 := Bool.toNat_le passed
    simp only [Endpoint.goto, Frame.steps, List.length_nil]
    omega

theorem waits_step (h : Waits e) {a : Act Id P R D L} (ha : a.inside = true) : Waits (e.step a) := by
  rcases Act.inside_cases ha with rfl | ⟨-, htask⟩
  · rcases steps_advance e with ⟨-, hsame⟩ | hlt
    · rw [step, hsame]
      exact h
    · rcases h with hrest | ⟨hc, happly⟩
      · rw [hrest, Frame.steps] at hlt
        omega
      · exact Or.inr ⟨hc, by rw [step, advance, happly, if_pos hc, happly]⟩
  · rw [Waits, (unmoved_step e htask).frame]
    exact h

/-- **A frame ends**, whatever the tasks do meanwhile: it has the steps of its
own that it needs, or it waits for them. -/
theorem waits_run : ∀ (bs : List (Act Id P R D L)) (e : Endpoint c Id P R D L),
    (∀ a ∈ bs, a.inside = true) → e.frame.steps ≤ bs.countP Act.isAdvance → Waits (run step e bs)
  | [], _, _, hn => Or.inl (Frame.rest_of_steps (Nat.le_zero.mp hn))
  | a :: bs, e, hbs, hn => by
    have hrest : ∀ b ∈ bs, b.inside = true := fun b hb => hbs b (List.mem_cons_of_mem a hb)
    have ha := hbs a List.mem_cons_self
    by_cases hwaits : Waits e
    · exact run_inv_of_meets (I := Waits) (fun _ _ hb h => waits_step h hb) (a :: bs)
        (meets_of_forall (a :: bs) e hbs) hwaits
    · refine waits_run bs (e.step a) hrest ?_
      rw [List.countP_cons] at hn
      rcases Act.inside_cases ha with rfl | ⟨hno, htask⟩
      · rcases steps_advance e with ⟨hw, -⟩ | hlt
        · exact absurd hw hwaits
        · simp only [Act.isAdvance, if_true] at hn
          have hstep : e.step .advance = e.advance := rfl
          rw [hstep]
          omega
      · rw [(unmoved_step e htask).frame]
        rw [hno] at hn
        simpa using hn

/-! ### Whole frames -/

/-- The packets `left` have left the queue since `s`, and the frame is on its
way. -/
def Serves (s : Endpoint c Id P R D L) (b k : ℕ) (e : Endpoint c Id P R D L) : Prop :=
  ∃ left, Leaves left s e ∧ Stage s b k left.length e

theorem serves_step (hk : k ≤ s.datagrams.values.length)
    (hdue : ∀ x ∈ s.datagrams.values.take k, s.Due b x)
    (h : Serves s b k e) {a : Act Id P R D L} (ha : a.inside = true) : Serves s b k (e.step a) := by
  obtain ⟨left, hl, hstage⟩ := h
  rcases Act.inside_cases ha with rfl | ⟨-, htask⟩
  · obtain ⟨left', hl', hstage'⟩ := stage_advance hk hdue hl hstage
    refine ⟨left ++ left', hl.trans hl', ?_⟩
    rw [List.length_append]
    exact hstage'
  · obtain ⟨left', hl'⟩ := leaves_step e htask
    have hunmoved := unmoved_step e htask
    refine ⟨left ++ left', hl.trans hl', hstage.mono hl' hunmoved.frame hunmoved.items ?_⟩
    rw [List.length_append]
    omega

theorem serves_run (hk : k ≤ s.datagrams.values.length)
    (hdue : ∀ x ∈ s.datagrams.values.take k, s.Due b x)
    (h : Serves s b k e) {bs : List (Act Id P R D L)} (hbs : ∀ a ∈ bs, a.inside = true) :
    Serves s b k (run step e bs) :=
  run_inv_of_meets (I := Serves s b k) (fun _ _ ha hs => serves_step hk hdue hs ha) bs
    (meets_of_forall bs e hbs) h

theorem serves_begin (hrest : s.frame = .rest) (hopen : s.worldOpen = true) (b k : ℕ) :
    Serves s b k (s.step (.beginFrame b)) := by
  have hstep : s.step (.beginFrame b) = s.goto (.lifecycle b []) := by
    rw [step, beginFrame, hrest, if_pos hopen]
  rw [hstep]
  exact ⟨[], leaves_goto s _ (by rw [hrest]; rfl), Nat.zero_add b, List.prefix_rfl⟩

theorem serves_packets (h : Serves s b k e) {b' : ℕ} (hk : k ≤ b') :
    Serves s b k (e.step (.beginPackets b')) := by
  simp only [step, beginPackets]
  split
  · rename_i hframe
    split_ifs
    · obtain ⟨left, hl, hstage⟩ := h
      simp only [Stage, hframe] at hstage
      obtain ⟨done, hdone, htold⟩ := hstage
      rw [List.append_nil] at hdone
      have hgoto := leaves_goto e (.packets b' none []) (by rw [hframe]; rfl)
      refine ⟨left ++ [], hl.trans hgoto, (htold.sublist hdone.sublist).mono hgoto, ?_⟩
      omega
    · exact h
  · exact h

theorem late_advance (h : e.frame.late = true) : e.advance.frame.late = true := by
  unfold advance
  split
  · exact h
  · rename_i hframe
    rw [hframe] at h
    cases h
  · rename_i hframe
    rw [hframe] at h
    cases h
  · rename_i hframe
    rw [hframe] at h
    cases h
  · rename_i hframe
    rw [hframe] at h
    cases h
  · split_ifs
    · rfl
    · rfl
  · rfl
  · split
    · rfl
    · rfl
  · split_ifs
    · rfl
    · rfl
  · rfl
  · rfl

/-- A frame that has got to its packets comes to its end. -/
theorem rest_of_late {bs : List (Act Id P R D L)} (hbs : ∀ a ∈ bs, a.inside = true)
    (hn : e.frame.steps ≤ bs.countP Act.isAdvance) (h : e.frame.late = true) :
    (run step e bs).frame = .rest := by
  have hlate : (run step e bs).frame.late = true := by
    refine run_inv_of_meets (I := fun e : Endpoint c Id P R D L => e.frame.late = true)
      (fun e a ha he => ?_) bs (meets_of_forall bs e hbs) h
    rcases Act.inside_cases ha with rfl | ⟨-, htask⟩
    · exact late_advance he
    · rw [(unmoved_step e htask).frame]
      exact he
  rcases waits_run bs e hbs hn with hrest | ⟨-, happly⟩
  · exact hrest
  · rw [happly] at hlate
    cases hlate

/-- The whole frame ends. -/
theorem rest_of_frame (hrest : s.frame = .rest) (hopen : s.worldOpen = true) {b b' : ℕ}
    {bs bs' : List (Act Id P R D L)} (hbs : ∀ a ∈ bs, a.inside = true) (hbs' : ∀ a ∈ bs', a.inside = true)
    (hn : 2 * b + 2 ≤ bs.countP Act.isAdvance) (hn' : 4 * b' + 3 ≤ bs'.countP Act.isAdvance) :
    (run step ((run step (s.step (.beginFrame b)) bs).step (.beginPackets b')) bs').frame = .rest := by
  have hstep : s.step (.beginFrame b) = s.goto (.lifecycle b []) := by
    rw [step, beginFrame, hrest, if_pos hopen]
  have hwaits : Waits (run step (s.step (.beginFrame b)) bs) := by
    refine waits_run bs _ hbs ?_
    rw [hstep]
    exact hn
  generalize run step (s.step (.beginFrame b)) bs = e at hwaits
  rcases hwaits with hover | ⟨hc, happly⟩
  · have hsame : e.step (.beginPackets b') = e := by rw [step, beginPackets, hover]
    rw [hsame]
    refine rest_of_late hbs' ?_ (by rw [hover]; rfl)
    rw [hover]
    exact Nat.zero_le _
  · have hnext : e.step (.beginPackets b') = e.goto (.packets b' none []) := by
      rw [step, beginPackets, happly, if_pos hc]
    rw [hnext]
    exact rest_of_late hbs' hn' rfl

omit [DecidableEq Id] in
/-- What the frame has done at its end. -/
theorem Serves.served (h : Serves s b k e) (hrest : s.frame = .rest) (hover : e.frame = .rest)
    (hk : k ≤ s.datagrams.values.length) :
    ∃ events drops, e.events = s.events ++ events ∧ e.drops = s.drops ++ drops ∧
      (s.incoming.items.take b).Sublist (events.map Event.message) ∧
      (c.datagram = true →
        (s.datagrams.values.take k).Subperm (events.filterMap Event.received? ++ drops.map Prod.snd)) := by
  obtain ⟨left, hl, hstage⟩ := h
  simp only [Stage, hover] at hstage
  obtain ⟨htold, hleft⟩ := hstage
  obtain ⟨events, hevents, hsub⟩ := htold.events
  obtain ⟨drops, hdrops⟩ := hl.drops
  refine ⟨events, drops, hevents, hdrops.symm, hsub, fun hc => ?_⟩
  have hsame : s.datagrams.values.take k = left.take k := by
    obtain ⟨new, hnew⟩ := hl.queue
    have htake := congrArg (List.take k) hnew
    rwa [List.take_append_of_le_length hk, List.take_append_of_le_length (hleft hc)] at htake
  rw [hsame]
  refine (List.take_prefix k left).sublist.subperm.trans (subperm_of_count fun x => ?_)
  have hbehind := hl.behind.count_le x
  have hrec : e.received = s.received ++ events.filterMap Event.received? := by
    rw [received, hevents, List.filterMap_append, received]
  simp only [Endpoint.behind, hrec, ← hdrops, hrest, hover, Frame.datagrams, List.map_append,
    List.count_append, List.count_nil] at hbehind ⊢
  omega

end Steps

variable [DecidableEq Id]

/-- **What a frame does.** Begin a frame in any state that the endpoint can be
in, with budgets `b` and `b'`, and let the tasks go on meanwhile as they like.
After as many of its own steps as the budgets ask for it is over. The first `b`
lifecycle messages that it found are executed, in order. Of the packets that it
found, the first `k ≤ b'` are triggered or dropped with a reason, if all of them
are due; and if the first budget covers the messages queued, every packet is. -/
theorem frame_serves (c : Plugin) (as bs bs' : List (Act Id P R D L)) (b b' : ℕ)
    (hrest : (run step (new c Id P R D L) as).frame = .rest)
    (hopen : (run step (new c Id P R D L) as).worldOpen = true)
    (hbs : ∀ a ∈ bs ++ bs', a.inside = true) (hn : 2 * b + 2 ≤ bs.countP Act.isAdvance)
    (hn' : 4 * b' + 3 ≤ bs'.countP Act.isAdvance) :
    let s := run step (new c Id P R D L) as
    let t := run step s (.beginFrame b :: bs ++ .beginPackets b' :: bs')
    t.frame = .rest ∧
    ∃ events drops, t.events = s.events ++ events ∧ t.drops = s.drops ++ drops ∧
      (s.incoming.items.take b).Sublist (events.map Event.message) ∧
      (c.datagram = true →
        (s.incoming.items.length ≤ b → ∀ x ∈ s.datagrams.values, s.Due b x) ∧
        ∀ k ≤ b', (∀ x ∈ s.datagrams.values.take k, s.Due b x) →
          (s.datagrams.values.take k).Subperm (events.filterMap Event.received? ++ drops.map Prod.snd)) := by
  intro s t
  have hbs₁ : ∀ a ∈ bs, a.inside = true := fun a ha => hbs a (List.mem_append_left _ ha)
  have hbs₂ : ∀ a ∈ bs', a.inside = true := fun a ha => hbs a (List.mem_append_right _ ha)
  have ht : t = run step ((run step (s.step (.beginFrame b)) bs).step (.beginPackets b')) bs' :=
    run_append step s (.beginFrame b :: bs) (.beginPackets b' :: bs')
  have hover : t.frame = .rest := by
    rw [ht]
    exact rest_of_frame hrest hopen hbs₁ hbs₂ hn hn'
  have hserved : ∀ k ≤ b', (∀ x ∈ s.datagrams.values.take k, s.Due b x) →
      k ≤ s.datagrams.values.length → Serves s b k t := by
    intro k hk hdue hlen
    have hfirst := serves_run hlen hdue (serves_begin hrest hopen b k) hbs₁
    rw [ht]
    exact serves_run hlen hdue (serves_packets hfirst hk) hbs₂
  have hnone := hserved 0 (Nat.zero_le _) (fun x hx => by cases hx) (Nat.zero_le _)
  obtain ⟨events, drops, hevents, hdrops, hsub, -⟩ := hnone.served hrest hover (Nat.zero_le _)
  refine ⟨hover, events, drops, hevents, hdrops, hsub, fun hc => ⟨fun hlen x hx => ?_, fun k hk hdue => ?_⟩⟩
  · exact waiting_announced hc as hopen hrest hlen hx
  · -- beyond the end of the queue there is nothing to serve
    have htake : s.datagrams.values.take k =
        s.datagrams.values.take (min k s.datagrams.values.length) := by
      rw [← List.take_eq_take_min]
    rw [htake] at hdue ⊢
    have hmin := hserved _ (Nat.le_trans (Nat.min_le_left _ _) hk) hdue (Nat.min_le_right _ _)
    obtain ⟨events', drops', hevents', hdrops', -, hsubperm⟩ :=
      hmin.served hrest hover (Nat.min_le_right _ _)
    rw [List.append_cancel_left (hevents.symm.trans hevents'),
      List.append_cancel_left (hdrops.symm.trans hdrops')]
    exact hsubperm hc

/-- Two connections wait to be published, each with a packet; the second is
cancelled while the frame is at its commands. -/
theorem frame_serves_two :
    let c : Plugin := ⟨.server, true, .bits64, 1, .dropNewest, 2, .dropOldest⟩
    let receive (id packet : ℕ) : List (Act ℕ ℕ ℕ ℕ ℕ) := [.create id, .publish id, .hand id true,
      .split id (.ok ()), .link id .poll, .link id .advance, .link id .advance,
      .link id (.read (some (.ok packet))), .link id .advance, .offer id]
    let as : List (Act ℕ ℕ ℕ ℕ ℕ) := receive 0 7 ++ receive 1 9
    let bs : List (Act ℕ ℕ ℕ ℕ ℕ) := .advance :: .link 1 (.conn .disconnect) :: List.replicate 5 .advance
    let bs' : List (Act ℕ ℕ ℕ ℕ ℕ) := List.replicate 11 .advance
    let s := run step (new c ℕ ℕ ℕ ℕ ℕ) as
    let t := run step s (.beginFrame 2 :: bs ++ .beginPackets 2 :: bs')
    s.datagrams.values = [(0, 7), (1, 9)] ∧ t.frame = .rest ∧
      t.received = [(0, 7)] ∧ t.drops = [(.closedBeforeDelivery, 1, 9)] ∧
      [(0, 7), (1, 9)].Subperm (t.received ++ t.drops.map Prod.snd) := by
  intro c receive as bs bs' s t
  have hvalues : s.datagrams.values = [(0, 7), (1, 9)] := by decide +kernel
  have hrest : s.frame = .rest := Frame.rest_of_steps (by decide +kernel)
  have hbefore : s.received = [] ∧ s.drops = [] := by decide +kernel
  have hafter : t.received = [(0, 7)] ∧ t.drops = [(.closedBeforeDelivery, 1, 9)] := by decide +kernel
  obtain ⟨hover, events, drops, hevents, hdrops, -, hserved⟩ :=
    frame_serves c as bs bs' 2 2 hrest (by decide +kernel) (by decide +kernel) (by decide +kernel)
      (by decide +kernel)
  obtain ⟨hall, hk⟩ := hserved rfl
  have hsub : (s.datagrams.values.take 2).Subperm
      (events.filterMap Event.received? ++ drops.map Prod.snd) :=
    hk 2 (Nat.le_refl 2) fun x hx => hall (by decide +kernel) x (List.mem_of_mem_take hx)
  have hreceived : t.received = s.received ++ events.filterMap Event.received? :=
    (congrArg (List.filterMap Event.received?) hevents).trans (List.filterMap_append ..)
  have hdropped : t.drops = s.drops ++ drops := hdrops
  refine ⟨hvalues, hover, hafter.1, hafter.2, ?_⟩
  rw [hvalues] at hsub
  rw [hreceived, hdropped, hbefore.1, hbefore.2]
  exact hsub

end Endpoint
end Slinet
