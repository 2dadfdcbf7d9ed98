/-
# The client's registry and its current connection

`ClientConnections` and the resource `ClientConnection` (`src/client.rs`) are
changed by the commands of `incoming_system` only, one command for each
lifecycle message. A `History` is an endpoint's run with the messages that
entered the queue, those whose commands have been applied, and the events that
these have triggered.

Two things follow from the order of one queue. The commands applied are a
beginning of the messages sent, and what they have made of the two resources
and which events they have triggered is a function of them alone (`settle`),
wherever the frames began and ended. And since a connection is established
once, and closed after that (`Slinet.Lifecycle`), the registry is what has been
established and not closed, in order (`live`); the current connection is the
last of it (`client_registry`).
-/
import Slinet.Lifecycle

namespace Slinet

variable {Id P R D L : Type*}

/-! ### Messages, all at once -/

/-- The connection that is announced. -/
def Message.established? : Message Id R D L → Option Id
  | established id => some id
  | _ => none

/-- The connection that has ended. -/
def Message.closed? : Message Id R D L → Option Id
  | closed id _ => id
  | _ => none

/-- The two resources of the client, and what has been triggered. -/
structure Settled (Id R D L : Type*) where
  registry : List Id
  current : Option Id
  told : List (Event Id R D L)

section Settled

variable [DecidableEq Id]

/-- The connections established and not closed, in the order of establishment. -/
def live (messages : List (Message Id R D L)) : List Id :=
  (messages.filterMap Message.established?).filter (· ∉ messages.filterMap Message.closed?)

/-- What a message does. -/
def Settled.execute (x : Settled Id R D L) : Message Id R D L → Settled Id R D L
  | .established id => ⟨x.registry ++ [id], some id, x.told ++ [.established id]⟩
  | .streamPacket id packet => { x with told := x.told ++ [.packet id packet x.registry] }
  | .closed (some id) error =>
    ⟨x.registry.filter (· ≠ id), (x.registry.filter (· ≠ id)).getLast?,
      x.told ++ [.disconnected (some id) error]⟩
  | .closed none error => { x with told := x.told ++ [.disconnected none error] }

/-- The messages one after the other, without frames. -/
def settle (messages : List (Message Id R D L)) : Settled Id R D L :=
  messages.foldl Settled.execute ⟨[], none, []⟩

theorem settle_concat (messages : List (Message Id R D L)) (message : Message Id R D L) :
    settle (messages ++ [message]) = (settle messages).execute message := by
  simp [settle, List.foldl_append]

theorem live_established {messages : List (Message Id R D L)} {id : Id}
    (h : id ∉ messages.filterMap Message.closed?) :
    live (messages ++ [.established id]) = live messages ++ [id] := by
  have hclosed : (messages ++ [Message.established id]).filterMap Message.closed? =
      messages.filterMap Message.closed? := by
    simp [Message.closed?]
  rw [live, hclosed, List.filterMap_append, List.filter_append]
  have hnew : ([Message.established id] : List (Message Id R D L)).filterMap Message.established? = [id] := rfl
  rw [hnew, List.filter_cons_of_pos (by simpa using h), List.filter_nil]
  rfl

theorem live_closed (messages : List (Message Id R D L)) (id : Id) (error : ReceiveError D L) :
    live (messages ++ [.closed (some id) error]) = (live messages).filter (· ≠ id) := by
  have hclosed : (messages ++ [Message.closed (some id) error]).filterMap Message.closed? =
      messages.filterMap Message.closed? ++ [id] := by
    simp [Message.closed?]
  have hestablished : (messages ++ [Message.closed (some id) error]).filterMap Message.established? =
      messages.filterMap Message.established? := by
    simp [Message.established?]
  rw [live, hclosed, hestablished, live, List.filter_filter]
  refine List.filter_congr fun k _ => ?_
  simp [not_or, and_comm]

theorem live_other (messages : List (Message Id R D L)) {message : Message Id R D L}
    (he : message.established? = none) (hc : message.closed? = none) :
    live (messages ++ [message]) = live messages := by
  simp [live, he, hc]

/-- Messages in which a connection is established once, and not after its end. -/
inductive Fresh : List (Message Id R D L) → Prop
  | nil : Fresh []
  | concat {messages : List (Message Id R D L)} {message : Message Id R D L} : Fresh messages →
    (∀ id, message.established? = some id → id ∉ messages.filterMap Message.established? ∧
      id ∉ messages.filterMap Message.closed?) → Fresh (messages ++ [message])

/-- **What the messages come to.** -/
theorem settle_spec {messages : List (Message Id R D L)} (h : Fresh messages) :
    (settle messages).registry = live messages ∧ (live messages).Nodup ∧
      (settle messages).current = (live messages).getLast? := by
  induction h with
  | nil => exact ⟨rfl, List.nodup_nil, rfl⟩
  | @concat messages message _ hfresh ih =>
    obtain ⟨hreg, hnodup, hcur⟩ := ih
    rw [settle_concat]
    cases message with
    | established id =>
      obtain ⟨hnew, hopen⟩ := hfresh id rfl
      rw [live_established hopen]
      refine ⟨by simp [Settled.execute, hreg], ?_, by simp [Settled.execute]⟩
      refine List.nodup_append.mpr ⟨hnodup, List.nodup_singleton id, fun k hk k' hk' => ?_⟩
      rw [List.mem_singleton] at hk'
      subst hk'
      rintro rfl
      exact hnew (List.mem_of_mem_filter hk)
    | streamPacket id packet =>
      rw [live_other messages rfl rfl]
      exact ⟨hreg, hnodup, hcur⟩
    | closed id error =>
      cases id with
      | none =>
        rw [live_other messages rfl rfl]
        exact ⟨hreg, hnodup, hcur⟩
      | some id =>
        rw [live_closed]
        refine ⟨by simp [Settled.execute, hreg], hnodup.filter _, by simp [Settled.execute, hreg]⟩

end Settled

/-! ### Histories -/

namespace Endpoint

variable {c : Plugin} [DecidableEq Id]

/-- An endpoint's run: the messages sent, those executed, and the events that
these have triggered. -/
structure History (c : Plugin) (Id P R D L : Type*) where
  endpoint : Endpoint c Id P R D L
  sent : List (Message Id R D L)
  executed : List (Message Id R D L)
  told : List (Event Id R D L)

namespace History

def new (c : Plugin) (Id P R D L : Type*) : History c Id P R D L := ⟨.new c Id P R D L, [], [], []⟩

/-- The command that a step applies. -/
def command? (s : Endpoint c Id P R D L) : Act Id P R D L → Option (Message Id R D L)
  | .advance =>
    match s.frame with
    | .applying (message :: _) => some message
    | _ => none
  | _ => none

/-- What is behind the old end of the queue has been sent, and what is behind
the old end of the events has been triggered. -/
def step (h : History c Id P R D L) (a : Act Id P R D L) : History c Id P R D L :=
  let s := h.endpoint.step a
  { endpoint := s
    sent := h.sent ++ s.incoming.items.drop h.endpoint.incoming.items.length
    executed := h.executed ++ (command? h.endpoint a).toList
    told := if (command? h.endpoint a).isSome then h.told ++ s.events.drop h.endpoint.events.length
      else h.told }

end History

/-! ### Steps of the tasks -/

/-- What the tasks leave to the frames. -/
structure Unmoved (s s' : Endpoint c Id P R D L) : Prop where
  registry : s'.registry = s.registry
  current : s'.current = s.current
  frame : s'.frame = s.frame
  world : s'.worldOpen = s.worldOpen
  events : s.events <+: s'.events
  items : s.incoming.items <+: s'.incoming.items

omit [DecidableEq Id] in
theorem unmoved_refl (s : Endpoint c Id P R D L) : Unmoved s s :=
  ⟨rfl, rfl, rfl, rfl, List.prefix_rfl, List.prefix_rfl⟩

omit [DecidableEq Id] in
theorem Unmoved.sent {s s' : Endpoint c Id P R D L} (h : Unmoved s s') (message : Message Id R D L) :
    Unmoved s { s' with incoming := { s'.incoming with items := s'.incoming.items ++ [message] } } :=
  ⟨h.registry, h.current, h.frame, h.world, h.events, h.items.trans (List.prefix_append _ _)⟩

theorem Unmoved.update {s s' : Endpoint c Id P R D L} (h : Unmoved s s') (id : Id)
    (f : Peer P R D L → Peer P R D L) : Unmoved s (s'.update id f) :=
  ⟨h.registry, h.current, h.frame, h.world, h.events, h.items⟩

theorem unmoved_offer (s : Endpoint c Id P R D L) (id : Id) : Unmoved s (s.offer id) := by
  unfold offer
  split
  · rename_i packet _ _
    split_ifs
    · unfold forward
      split
      · exact ⟨rfl, rfl, rfl, rfl, List.prefix_rfl, List.prefix_rfl⟩
      · exact ⟨rfl, rfl, rfl, rfl, List.prefix_rfl, List.prefix_rfl⟩
      · exact (unmoved_refl s).update id _
    · rcases s.incoming.trySend_cases (.streamPacket id packet) with ⟨he, -⟩ | ⟨he, -⟩ | ⟨he, -⟩
      · rw [he]
        exact ((unmoved_refl s).sent _).update id _
      · rw [he]
        exact (unmoved_refl s).update id _
      · rw [he]
        exact (unmoved_refl s).update id _
  · exact unmoved_refl s

/-- **Every step but the frames' own** leaves the two resources alone, and the
messages in the queue where they are. -/
theorem unmoved_step (s : Endpoint c Id P R D L) {a : Act Id P R D L}
    (h : a ≠ .advance ∧ (∀ n, a ≠ .beginFrame n) ∧ (∀ n, a ≠ .beginPackets n) ∧ a ≠ .dropWorld) :
    Unmoved s (s.step a) := by
  have hsetup : ∀ id, a.setup? = some id → Unmoved s (s.step a) := fun id ha =>
    setup_rule (I := Unmoved s) (fun _ _ hs => hs.update id _) (fun _ hs => hs.update id _)
      (fun _ _ _ hs => hs.sent _) (unmoved_refl s) ha
  cases a with
  | create id => exact hsetup id rfl
  | publish id => exact hsetup id rfl
  | hand id arrives => exact hsetup id rfl
  | split id result => exact hsetup id rfl
  | abandon id => exact hsetup id rfl
  | stopSetup id => exact hsetup id rfl
  | link id a =>
    simp only [step, link]
    split_ifs
    · exact (unmoved_refl s).update id _
    · exact unmoved_refl s
  | offer id => exact unmoved_offer s id
  | report id =>
    simp only [step, report]
    split
    · exact sendIncoming_rule (I := Unmoved s) (unmoved_refl s)
        (fun _ => ((unmoved_refl s).sent _).update id _) ((unmoved_refl s).update id _)
    · exact unmoved_refl s
  | refuse error =>
    simp only [step, refuse]
    split
    · exact sendIncoming_rule (I := Unmoved s) (unmoved_refl s) (fun _ => (unmoved_refl s).sent _)
        (unmoved_refl s)
    · exact unmoved_refl s
  | reject error =>
    simp only [step, reject]
    split
    · exact ⟨rfl, rfl, rfl, rfl, List.prefix_append _ _, List.prefix_rfl⟩
    · exact unmoved_refl s
  | beginFrame n => exact absurd rfl (h.2.1 n)
  | beginPackets n => exact absurd rfl (h.2.2.1 n)
  | advance => exact absurd rfl h.1
  | dropWorld => exact absurd rfl h.2.2.2

/-! ### Steps of the frames -/

/-- No command is applied: what is on its way stays in order, and what is sent
joins its end. -/
structure Idle (s s' : Endpoint c Id P R D L) : Prop where
  registry : s'.registry = s.registry
  current : s'.current = s.current
  world : s'.worldOpen = s.worldOpen
  rest : s.worldOpen = false → s.frame = .rest → s'.frame = .rest
  events : s.events <+: s'.events
  line : s'.frame.commands ++ s'.incoming.items = s.frame.commands ++ s.incoming.items ++
    s'.incoming.items.drop s.incoming.items.length

omit [DecidableEq Id] in
theorem Unmoved.idle {s s' : Endpoint c Id P R D L} (h : Unmoved s s') : Idle s s' := by
  refine ⟨h.registry, h.current, h.world, fun _ hr => h.frame.trans hr, h.events, ?_⟩
  obtain ⟨extra, hextra⟩ := h.items
  rw [h.frame, ← hextra, List.drop_left, List.append_assoc]

omit [DecidableEq Id] in
/-- The frame goes on, with the same commands and the same queue. -/
theorem idle_goto {s s' : Endpoint c Id P R D L} (hreg : s'.registry = s.registry)
    (hcur : s'.current = s.current) (hworld : s'.worldOpen = s.worldOpen) (hin : s'.incoming = s.incoming)
    (hev : s.events <+: s'.events) (hrest : s.worldOpen = false → s.frame = .rest → s'.frame = .rest)
    (hcommands : s'.frame.commands = s.frame.commands) : Idle s s' := by
  refine ⟨hreg, hcur, hworld, hrest, hev, ?_⟩
  rw [hcommands, hin, List.drop_length, List.append_nil]

theorem idle_begin (s : Endpoint c Id P R D L) {a : Act Id P R D L} {n : ℕ}
    (h : a = .beginFrame n ∨ a = .beginPackets n) : Idle s (s.step a) := by
  rcases h with rfl | rfl
  · simp only [step, beginFrame]
    split
    · rename_i hframe
      split_ifs with hopen
      · refine idle_goto rfl rfl rfl rfl List.prefix_rfl (fun hc => ?_) (by rw [hframe]; rfl)
        rw [hc] at hopen
        cases hopen
      · exact (unmoved_refl s).idle
    · exact (unmoved_refl s).idle
  · simp only [step, beginPackets]
    split
    · rename_i hframe
      split_ifs
      · refine idle_goto rfl rfl rfl rfl List.prefix_rfl (fun _ hr => ?_) (by rw [hframe]; rfl)
        rw [hframe] at hr
        cases hr
      · exact (unmoved_refl s).idle
    · exact (unmoved_refl s).idle

omit [DecidableEq Id] in
/-- A frame that has begun goes on, after a step that leaves its commands alone. -/
theorem Unmoved.goto {s s' : Endpoint c Id P R D L} (h : Unmoved s s') {frame : Frame Id R D L}
    (hin : s'.incoming = s.incoming) (hne : s.frame ≠ .rest)
    (hcommands : frame.commands = s.frame.commands) : Idle s (s'.goto frame) :=
  idle_goto h.registry h.current h.world hin h.events (fun _ hr => absurd hr hne) hcommands

theorem idle_advance (s : Endpoint c Id P R D L) (h : ∀ message commands,
    s.frame ≠ .applying (message :: commands)) : Idle s s.advance := by
  have hrefl := unmoved_refl s
  have hdrop : ∀ x, Unmoved s (s.drop .closedBeforeDelivery x) := fun x =>
    ⟨rfl, rfl, rfl, rfl, List.prefix_rfl, List.prefix_rfl⟩
  have htrigger : ∀ event, Unmoved s (s.trigger event) := fun event =>
    ⟨rfl, rfl, rfl, rfl, List.prefix_append _ _, List.prefix_rfl⟩
  have htake : ∀ datagrams, Unmoved s { s with datagrams := datagrams } := fun datagrams =>
    ⟨rfl, rfl, rfl, rfl, List.prefix_rfl, List.prefix_rfl⟩
  unfold advance
  split
  · exact hrefl.idle
  · rename_i hframe
    exact hrefl.goto rfl (by simp [hframe]) (by rw [hframe]; rfl)
  · rename_i budget commands hframe
    rw [Mpsc.tryRecv]
    cases hitems : s.incoming.items with
    | nil => exact hrefl.goto rfl (by simp [hframe]) (by rw [hframe]; rfl)
    | cons message rest =>
      refine ⟨rfl, rfl, rfl, fun _ hr => ?_, List.prefix_rfl, ?_⟩
      · rw [hframe] at hr
        cases hr
      · simp [Endpoint.goto, hframe, Frame.commands, hitems]
  · rename_i message commands hframe
    exact absurd hframe (h message commands)
  · rename_i hframe
    split_ifs
    · exact hrefl.idle
    · exact hrefl.goto rfl (by simp [hframe]) (by rw [hframe]; rfl)
  · rename_i hframe
    split_ifs
    · exact (hdrop _).goto rfl (by simp [hframe]) (by rw [hframe]; rfl)
    · exact hrefl.goto rfl (by simp [hframe]) (by rw [hframe]; rfl)
  · rename_i hframe
    exact hrefl.goto rfl (by simp [hframe]) (by rw [hframe]; rfl)
  · rename_i hframe
    split
    · exact (htake _).goto rfl (by simp [hframe]) (by rw [hframe]; rfl)
    · exact hrefl.goto rfl (by simp [hframe]) (by rw [hframe]; rfl)
  · rename_i hframe
    split_ifs
    · exact (hdrop _).goto rfl (by simp [hframe]) (by rw [hframe]; rfl)
    · exact hrefl.goto rfl (by simp [hframe]) (by rw [hframe]; rfl)
  · rename_i hframe
    exact (htrigger _).goto rfl (by simp [hframe]) (by rw [hframe]; rfl)
  · rename_i hframe
    exact hrefl.goto rfl (by simp [hframe]) (by rw [hframe]; rfl)

/-! ### Whole runs -/

namespace History

/-- What every step of a client keeps. -/
structure Good (h : History c Id P R D L) : Prop where
  endpoint : Endpoint.Good h.endpoint
  before : h.executed <+: h.sent
  law : h.endpoint.worldOpen = true →
    h.sent = h.executed ++ (h.endpoint.frame.commands ++ h.endpoint.incoming.items)
  rest : h.endpoint.worldOpen = false → h.endpoint.frame = .rest
  settled : ⟨h.endpoint.registry, h.endpoint.current, h.told⟩ = settle h.executed
  fresh : Fresh h.executed
  heard : ∀ message ∈ h.executed, ∀ id kind, message.kind? id = some kind → kind ∈ h.endpoint.past id

theorem good_new (c : Plugin) (Id P R D L : Type*) [DecidableEq Id] : (new c Id P R D L).Good := by
  refine ⟨Endpoint.good_new c Id P R D L, List.prefix_rfl, fun _ => rfl, fun h => (by cases h), rfl, .nil, ?_⟩
  simp [new]

theorem past_mono {s s' : Endpoint c Id P R D L} (h : s.events <+: s'.events) {id : Id} {kind : Kind}
    (hk : kind ∈ s.past id) : kind ∈ s'.past id :=
  (h.filterMap _).subset hk

theorem good_idle {h : History c Id P R D L} (hg : h.Good) {a : Act Id P R D L}
    (hc : command? h.endpoint a = none) (hi : Idle h.endpoint (h.endpoint.step a)) : (h.step a).Good := by
  have hexec : (h.step a).executed = h.executed := by simp [step, hc]
  have htold : (h.step a).told = h.told := by simp [step, hc]
  refine ⟨Endpoint.good_step hg.endpoint a, ?_, fun hopen => ?_, fun hclosed => ?_, ?_, ?_, ?_⟩
  · rw [hexec]
    exact hg.before.trans (List.prefix_append _ _)
  · have hlaw := hg.law (hi.world ▸ hopen)
    have hline := hi.line
    simp only [step, hc, Option.toList_none, List.append_nil]
    rw [hline, hlaw]
    simp
  · have hclosed' : h.endpoint.worldOpen = false := hi.world ▸ hclosed
    exact hi.rest hclosed' (hg.rest hclosed')
  · rw [hexec, htold, ← hg.settled]
    simp [step, hi.registry, hi.current]
  · rw [hexec]
    exact hg.fresh
  · rw [hexec]
    exact fun message hm id kind hk => past_mono hi.events (hg.heard message hm id kind hk)

/-- The world is dropped between two frames: nothing on its way is executed. -/
theorem good_dropWorld {h : History c Id P R D L} (hg : h.Good) : (h.step .dropWorld).Good := by
  by_cases hframe : h.endpoint.frame = .rest
  · have hstep : h.endpoint.step .dropWorld = h.endpoint.dropWorld := rfl
    have hexec : (h.step .dropWorld).executed = h.executed := by simp [step, command?]
    refine ⟨Endpoint.good_step hg.endpoint .dropWorld, ?_, fun hopen => ?_, fun _ => ?_, ?_, ?_, ?_⟩
    · rw [hexec]
      exact hg.before.trans (List.prefix_append _ _)
    · simp [step, Endpoint.step, Endpoint.dropWorld, hframe] at hopen
    · simp [step, Endpoint.step, Endpoint.dropWorld, hframe]
    · rw [hexec, ← hg.settled]
      simp [step, command?, Endpoint.step, Endpoint.dropWorld, hframe]
    · rw [hexec]
      exact hg.fresh
    · rw [hexec]
      intro message hm id kind hk
      refine past_mono (s := h.endpoint) ?_ (hg.heard message hm id kind hk)
      simp [step, Endpoint.step, Endpoint.dropWorld, hframe]
  · have hsame : h.endpoint.step .dropWorld = h.endpoint := by
      simp only [Endpoint.step, Endpoint.dropWorld]
    refine good_idle hg rfl ?_
    rw [hsame]
    exact (unmoved_refl _).idle

/-- A connection about to be established has had no event. -/
theorem past_nil_of_established {s : Endpoint c Id P R D L} (h : Endpoint.Good s) {id : Id}
    {commands : List (Message Id R D L)} (hframe : s.frame = .applying (.established id :: commands)) :
    s.past id = [] := by
  have hpend : s.pending id = .established :: (commands ++ s.incoming.items).filterMap (Message.kind? id) := by
    rw [pending, hframe]
    simp [Frame.commands, Message.kind?]
  obtain ⟨mid, mid', hmid, hn, -⟩ := (h.orderly id).front hpend
  have hstart : mid = .start := by
    cases mid with
    | start => rfl
    | up => cases hn
    | down => cases hn
  rw [hstart] at hmid
  exact Life.after_start hmid

/-- The command of a message changes the resources as the message says, and
triggers its event. -/
theorem execute_settled (hside : c.side = .client) (s : Endpoint c Id P R D L) (message : Message Id R D L)
    (told : List (Event Id R D L)) :
    (s.execute message).incoming = s.incoming ∧ (s.execute message).worldOpen = s.worldOpen ∧
    ∃ event, (s.execute message).events = s.events ++ [event] ∧
      (∀ id, event.kind? id = message.kind? id) ∧
      ⟨(s.execute message).registry, (s.execute message).current, told ++ [event]⟩ =
        Settled.execute ⟨s.registry, s.current, told⟩ message := by
  cases message with
  | established id =>
    refine ⟨rfl, rfl, .established id, rfl, fun k => rfl, ?_⟩
    simp [execute, establish, hside, Endpoint.trigger, Endpoint.update, Settled.execute]
  | streamPacket id packet => exact ⟨rfl, rfl, .packet id packet s.registry, rfl, fun k => rfl, rfl⟩
  | closed id error =>
    cases id with
    | none => exact ⟨rfl, rfl, .disconnected none error, rfl, fun k => rfl, rfl⟩
    | some id =>
      refine ⟨rfl, rfl, .disconnected (some id) error, rfl, fun k => rfl, ?_⟩
      simp [execute, remove, hside, Endpoint.trigger, Settled.execute]

/-- **A command.** -/
theorem good_command (hside : c.side = .client) {h : History c Id P R D L} (hg : h.Good)
    {message : Message Id R D L} {commands : List (Message Id R D L)}
    (hframe : h.endpoint.frame = .applying (message :: commands)) : (h.step .advance).Good := by
  have hcommand : command? h.endpoint .advance = some message := by simp [command?, hframe]
  have hadvance : h.endpoint.step .advance = (h.endpoint.execute message).goto (.applying commands) := by
    simp [Endpoint.step, Endpoint.advance, hframe]
  obtain ⟨hin, hworld, event, hev, hkind, hsettled⟩ := execute_settled hside h.endpoint message h.told
  have hopen : h.endpoint.worldOpen = true := by
    cases hw : h.endpoint.worldOpen with
    | true => rfl
    | false =>
      rw [hg.rest hw] at hframe
      cases hframe
  have hlaw := hg.law hopen
  rw [hframe] at hlaw
  have hsent : (h.step .advance).sent = h.sent := by
    simp [step, hadvance, Endpoint.goto, hin]
  have hexec : (h.step .advance).executed = h.executed ++ [message] := by simp [step, hcommand]
  have htold : (h.step .advance).told = h.told ++ [event] := by
    simp [step, hcommand, hadvance, Endpoint.goto, hev]
  have hevents : (h.step .advance).endpoint.events = h.endpoint.events ++ [event] := by
    simp [step, hadvance, Endpoint.goto, hev]
  refine ⟨Endpoint.good_step hg.endpoint .advance, ?_, fun _ => ?_, fun hclosed => ?_, ?_, ?_, ?_⟩
  · rw [hexec, hsent, hlaw]
    exact ⟨commands ++ h.endpoint.incoming.items, by simp [Frame.commands]⟩
  · rw [hexec, hsent, hlaw]
    simp [step, hadvance, Endpoint.goto, hin, Frame.commands]
  · simp [step, hadvance, Endpoint.goto, hworld, hopen] at hclosed
  · rw [hexec, htold, settle_concat, ← hg.settled, ← hsettled]
    simp [step, hadvance, Endpoint.goto]
  · rw [hexec]
    refine hg.fresh.concat fun id hid => ?_
    have hestablished : message = .established id := by
      cases message with
      | established k => simpa [Message.established?] using hid
      | streamPacket k packet => cases hid
      | closed k error => cases hid
    subst hestablished
    -- an earlier message of the connection would have left its event
    have hnone : ∀ m ∈ h.executed, m.kind? id = none := by
      intro m hm
      cases hk : m.kind? id with
      | none => rfl
      | some kind =>
        have hmem := hg.heard m hm id kind hk
        rw [past_nil_of_established hg.endpoint hframe] at hmem
        cases hmem
    refine ⟨fun hmem => ?_, fun hmem => ?_⟩
    · obtain ⟨m, hm, he⟩ := List.mem_filterMap.mp hmem
      have := hnone m hm
      cases m <;> simp_all [Message.established?, Message.kind?]
    · obtain ⟨m, hm, he⟩ := List.mem_filterMap.mp hmem
      have := hnone m hm
      cases m <;> simp_all [Message.closed?, Message.kind?]
  · rw [hexec]
    intro m hm id kind hk
    rcases List.mem_append.mp hm with hm | hm
    · exact past_mono (s := h.endpoint) (by rw [hevents]; exact List.prefix_append _ _)
        (hg.heard m hm id kind hk)
    · rw [List.mem_singleton] at hm
      subst hm
      rw [past, hevents, List.filterMap_append]
      refine List.mem_append_right _ ?_
      simp [hkind, hk]

theorem good_step (hside : c.side = .client) {h : History c Id P R D L} (hg : h.Good)
    (a : Act Id P R D L) : (h.step a).Good := by
  cases a with
  | advance =>
    cases hc : command? h.endpoint (.advance : Act Id P R D L) with
    | none =>
      refine good_idle hg hc (idle_advance h.endpoint fun message commands hframe => ?_)
      simp [command?, hframe] at hc
    | some message =>
      simp only [command?] at hc
      split at hc
      · rename_i hframe
        exact good_command hside hg hframe
      · cases hc
  | beginFrame n => exact good_idle hg rfl (idle_begin h.endpoint (Or.inl rfl))
  | beginPackets n => exact good_idle hg rfl (idle_begin h.endpoint (Or.inr rfl))
  | dropWorld => exact good_dropWorld hg
  | _ => exact good_idle hg rfl (unmoved_step h.endpoint (by simp)).idle

theorem good_run (hside : c.side = .client) (as : List (Act Id P R D L)) :
    (run step (new c Id P R D L) as).Good :=
  run_inv (I := Good) (fun _ a hg => good_step hside hg a) as (good_new c Id P R D L)

/-- **The client's registry.** After any steps of any tasks, handles and frames:
the registry is what has been established and not closed, in order and without
repetition, and the current connection is the last of it. The commands applied
are the first of the messages sent; after the same number of the same messages
another run, with other frames, is in the same state and has triggered the same
events. -/
theorem client_registry (c : Plugin) (hside : c.side = .client) (as : List (Act Id P R D L)) :
    let h := run step (new c Id P R D L) as
    h.endpoint.registry = live h.executed ∧ h.endpoint.registry.Nodup ∧
    h.endpoint.current = h.endpoint.registry.getLast? ∧
    h.executed <+: h.sent ∧
    (h.endpoint.worldOpen = true →
      h.sent = h.executed ++ (h.endpoint.frame.commands ++ h.endpoint.incoming.items)) ∧
    ∀ as', let h' := run step (new c Id P R D L) as'
      h'.sent = h.sent → h'.executed.length = h.executed.length →
        h'.endpoint.registry = h.endpoint.registry ∧ h'.endpoint.current = h.endpoint.current ∧
        h'.told = h.told := by
  intro h
  have hg : h.Good := good_run hside as
  obtain ⟨hreg, hnodup, hcur⟩ := settle_spec hg.fresh
  rw [← hg.settled] at hreg hcur
  simp only at hreg hcur
  refine ⟨hreg, ?_, ?_, hg.before, hg.law, fun as' hsent hlen => ?_⟩
  · rw [hreg]
    exact hnodup
  · rw [hreg]
    exact hcur
  · have hg' := good_run hside as'
    have hexec : (run step (new c Id P R D L) as').executed = h.executed := by
      have hb := hg'.before
      rw [hsent] at hb
      exact List.IsPrefix.eq_of_length (List.prefix_of_prefix_length_le hb hg.before hlen.le) hlen
    have heq := hg'.settled.trans ((congrArg settle hexec).trans hg.settled.symm)
    simp only [Settled.mk.injEq] at heq
    exact heq

/-- Two connections, of which the newer closes first. -/
theorem client_registry_two :
    let c : Plugin := ⟨.client, false, .bits64, 1, .dropNewest, 8, .dropNewest⟩
    let as : List (Act ℕ ℕ ℕ ℕ ℕ) := [.create 0, .create 1, .publish 0, .publish 1, .hand 1 true,
      .split 1 (.error ⟨.other, "split"⟩), .abandon 1, .abandon 1, .beginFrame 8, .advance, .advance,
      .advance, .advance, .advance, .advance, .advance]
    let h := run step (new c ℕ ℕ ℕ ℕ ℕ) as
    h.executed.length = 3 ∧ h.endpoint.registry = [0] ∧ live h.executed = [0] ∧
      h.endpoint.current = some 0 := by
  intro c as h
  have hc := client_registry c rfl as
  have hreg : h.endpoint.registry = [0] := by decide +kernel
  refine ⟨by decide +kernel, hreg, hc.1.symm.trans hreg, ?_⟩
  rw [show h.endpoint.current = h.endpoint.registry.getLast? from hc.2.2.1, hreg]
  rfl

end History

end Endpoint
end Slinet
