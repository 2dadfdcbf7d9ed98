/-
# How a server takes connections in

`Slinet.Endpoint` lets any number of connections be set up at once. A server
has three places for them (`src/server.rs`, `src/connection/tasks.rs`): the
tasks of `establish`, each of which holds one of `receive_capacity` permits,
the channel into which these put the connections they have announced, and the
connections that `run_connections` has under way, again at most
`receive_capacity` of them. The accept loop itself waits for none of the three:
a stream for which there is no permit is dropped at once, since `accept` of a
UDP listener is also what reads for the peers that are there.

`Server` is the loop, the tasks and the channel around an endpoint. Its steps
are steps of the endpoint (`endpoint_run`). Each stream is accounted for, and
each connection that is not up yet is in one of the three places
(`setups_bounded`); the channel's order is the order in which the setups start,
and `run_connections` ends only when nothing is left to set up (`setups_finish`).
-/
import Slinet.Lifecycle
import Slinet.Ledger

namespace Slinet

/-- `ErrorKind::Interrupted`, by its number: only the accept loop names it. -/
def ErrorKind.interrupted : ErrorKind := .kind 35

/-- What `accept` may fail with and be called again. -/
def ErrorKind.Transient (kind : ErrorKind) : Prop :=
  kind = .interrupted ∨ kind = .connectionAborted ∨ kind = .connectionReset

instance (kind : ErrorKind) : Decidable kind.Transient :=
  inferInstanceAs (Decidable (_ ∨ _ ∨ _))

/-- `run` has a split that failed, and is in the middle of a poll. -/
def Setup.failed {D L : Type*} : Setup D L → Bool
  | .unsplit _ => true
  | _ => false

/-- Where `accept_connections` is. -/
inductive Accepting
  | binding
  | accepting
  | done
  deriving DecidableEq, Repr

/-- The loop's own sender of the channel. -/
def Accepting.senders : Accepting → ℕ
  | .done => 0
  | _ => 1

/-- A server, with the streams and connections that have gone through it: those
that `accept` returned, those dropped for want of a permit, those dropped with a
task that was never polled, the connections made of the others, those sent
through the channel, and those whose `run` has started. -/
structure Server (c : Plugin) (S Id P R D L : Type*) where
  endpoint : Endpoint c Id P R D L
  loop : Accepting
  pending : ℕ
  spawned : List S
  establishing : List Id
  connections : Mpsc Id
  processing : Bool
  setups : List Id
  accepted : List S
  rejected : List S
  unpolled : List S
  created : List (Id × S)
  handed : List Id
  started : List Id

namespace Server

variable {c : Plugin} {S Id P R D L : Type*}

/-- The permits, the room in the channel and the setups that run at once. -/
def limit (c : Plugin) : ℕ := max c.receiveCapacity 1

def new (c : Plugin) (S Id P R D L : Type*) : Server c S Id P R D L where
  endpoint := .new c Id P R D L
  loop := .binding
  pending := limit c
  spawned := []
  establishing := []
  connections := Mpsc.new (limit c)
  processing := true
  setups := []
  accepted := []
  rejected := []
  unpolled := []
  created := []
  handed := []
  started := []

/-! ### The accept loop -/

def dropSender (s : Server c S Id P R D L) : Server c S Id P R D L :=
  { s with connections := { s.connections with senders := s.connections.senders - 1 } }

/-- The loop returns, or is dropped, with its sender. -/
def endLoop (s : Server c S Id P R D L) : Server c S Id P R D L :=
  { s with loop := .done }.dropSender

def bind (s : Server c S Id P R D L) (bound : Bool) : Server c S Id P R D L :=
  match s.loop with
  | .binding => if bound then { s with loop := .accepting } else s.endLoop
  | _ => s

/-- One turn of the loop. A runtime that is stopping spawns nothing (`spawns`). -/
def accept (s : Server c S Id P R D L) (result : Except IoError S) (spawns : Bool) :
    Server c S Id P R D L :=
  match s.loop, result with
  | .accepting, .ok stream =>
    let s := { s with accepted := s.accepted ++ [stream] }
    if s.pending = 0 then { s with rejected := s.rejected ++ [stream] }
    else if spawns then
      { s with
        pending := s.pending - 1
        spawned := s.spawned ++ [stream]
        connections := { s.connections with senders := s.connections.senders + 1 } }
    else { s with unpolled := s.unpolled ++ [stream] }
  | .accepting, .error error => if error.kind.Transient then s else s.endLoop
  | _, _ => s

def stopLoop (s : Server c S Id P R D L) : Server c S Id P R D L :=
  match s.loop with
  | .done => s
  | _ => s.endLoop

/-! ### The tasks of `establish` -/

/-- A task ends or is dropped, with its permit and its sender. -/
def release (s : Server c S Id P R D L) : Server c S Id P R D L :=
  { s with pending := s.pending + 1 }.dropSender

/-- The task `k` is dropped before its first poll. -/
def stopSpawned (s : Server c S Id P R D L) (k : ℕ) : Server c S Id P R D L :=
  match s.spawned[k]? with
  | some stream =>
    { s with spawned := s.spawned.eraseIdx k, unpolled := s.unpolled ++ [stream] }.release
  | none => s

variable [DecidableEq Id]

/-- The task of the connection `id` is over. -/
def leave (s : Server c S Id P R D L) (id : Id) : Server c S Id P R D L :=
  { s with establishing := s.establishing.erase id }.release

/-- The task `k` makes its connection, under an id that has none yet. -/
def establish (s : Server c S Id P R D L) (k : ℕ) (id : Id) : Server c S Id P R D L :=
  match s.spawned[k]?, (s.endpoint.peers id).setup with
  | some stream, .unborn =>
    { s with
      endpoint := s.endpoint.create id
      spawned := s.spawned.eraseIdx k
      establishing := s.establishing ++ [id]
      created := s.created ++ [(id, stream)] }
  | _, _ => s

/-- `Established` is sent, or the world is found gone. -/
def publish (s : Server c S Id P R D L) (id : Id) : Server c S Id P R D L :=
  match (s.endpoint.peers id).setup with
  | .publishing =>
    let s := { s with endpoint := s.endpoint.publish id }
    match (s.endpoint.peers id).setup with
    | .gone => s.leave id
    | _ => s
  | _ => s

/-- The connection is sent to `run_connections`, or finds its channel closed. The
same poll then drops the task's sender and permit, here in one step with the
send: an `accept` in between finds the permit still held, as before the send, and
a look at the channel that finds it empty and the sender still there only waits. -/
def hand (s : Server c S Id P R D L) (id : Id) : Server c S Id P R D L :=
  if id ∈ s.establishing then
    match (s.endpoint.peers id).setup with
    | .handing =>
      match s.connections.trySend id with
      | (.ok (), connections) =>
        { s with connections := connections, handed := s.handed ++ [id] }.leave id
      | (.error (.closed _), _) => { s with endpoint := s.endpoint.hand id false }.leave id
      | (.error (.full _), _) => s
    | _ => s
  else s

def stopEstablish (s : Server c S Id P R D L) (id : Id) : Server c S Id P R D L :=
  if id ∈ s.establishing then { s with endpoint := s.endpoint.stopSetup id }.leave id else s

/-! ### `run_connections` -/

/-- `for_each_concurrent` has room, and looks at the channel. -/
def take (s : Server c S Id P R D L) : Server c S Id P R D L :=
  if s.processing = true ∧ s.connections.receiverOpen = true ∧ s.setups.length < limit c then
    match s.connections.tryRecv with
    | (.ok id, connections) =>
      { s with
        endpoint := s.endpoint.hand id true
        connections := connections
        setups := s.setups ++ [id]
        started := s.started ++ [id] }
    -- The stream of `unfold` ends, and drops the receiver.
    | (.error .disconnected, _) => { s with connections := s.connections.close }
    | (.error .empty, _) => s
  else s

/-- `into_split` returns; `run` goes on to spawn the two tasks, or to report. -/
def split (s : Server c S Id P R D L) (id : Id) (result : Except IoError Unit) :
    Server c S Id P R D L :=
  if id ∈ s.setups then
    match (s.endpoint.peers id).setup with
    | .splitting =>
      let s := { s with endpoint := s.endpoint.split id result }
      match result with
      | .ok () => { s with setups := s.setups.erase id }
      | .error _ => s
    | _ => s
  else s

/-- The end of `run` after a failed split. -/
def abandon (s : Server c S Id P R D L) (id : Id) : Server c S Id P R D L :=
  if id ∈ s.setups then
    let s := { s with endpoint := s.endpoint.abandon id }
    match (s.endpoint.peers id).setup with
    | .gone => { s with setups := s.setups.erase id }
    | _ => s
  else s

/-- `run_connections` returns. -/
def finish (s : Server c S Id P R D L) : Server c S Id P R D L :=
  if s.connections.receiverOpen = false ∧ s.setups = [] then { s with processing := false } else s

/-- The task of `process_connections` is dropped, with the receiver, what is in
the channel, and the setups, none of which is in the middle of a poll. -/
def stopProcess (s : Server c S Id P R D L) : Server c S Id P R D L :=
  if s.processing = true ∧ ∀ id ∈ s.setups, (s.endpoint.peers id).setup.failed = false then
    { s with
      endpoint := (s.connections.items ++ s.setups).foldl Endpoint.stopSetup s.endpoint
      connections := { s.connections with items := [], receiverOpen := false }
      processing := false
      setups := [] }
  else s

/-! ### The machine -/

/-- The endpoint's other tasks, its handles and its frames take a step. -/
def other (s : Server c S Id P R D L) (a : Endpoint.Act Id P R D L) : Server c S Id P R D L :=
  if a.setup?.isNone then { s with endpoint := s.endpoint.step a } else s

inductive Act (S Id P R D L : Type*)
  | bind (bound : Bool)
  | accept (result : Except IoError S) (spawns : Bool)
  | stopLoop
  | establish (k : ℕ) (id : Id)
  | stopSpawned (k : ℕ)
  | publish (id : Id)
  | hand (id : Id)
  | stopEstablish (id : Id)
  | take
  | split (id : Id) (result : Except IoError Unit)
  | abandon (id : Id)
  | finish
  | stopProcess
  | other (a : Endpoint.Act Id P R D L)

def step (s : Server c S Id P R D L) : Act S Id P R D L → Server c S Id P R D L
  | .bind bound => s.bind bound
  | .accept result spawns => s.accept result spawns
  | .stopLoop => s.stopLoop
  | .establish k id => s.establish k id
  | .stopSpawned k => s.stopSpawned k
  | .publish id => s.publish id
  | .hand id => s.hand id
  | .stopEstablish id => s.stopEstablish id
  | .take => s.take
  | .split id result => s.split id result
  | .abandon id => s.abandon id
  | .finish => s.finish
  | .stopProcess => s.stopProcess
  | .other a => s.other a

end Server

/-! ### Setups by their stages -/

/-- The connection is made, and is neither up nor given up. -/
def Setup.pending {D L : Type*} : Setup D L → Bool
  | .unborn => false
  | .running => false
  | .gone => false
  | _ => true

/-- The connection is in `run`. -/
def Setup.connecting {D L : Type*} : Setup D L → Bool
  | .splitting => true
  | .unsplit _ => true
  | .closing _ => true
  | _ => false

namespace Endpoint

variable {c : Plugin} {Id P R D L : Type*}

/-- How far each connection is. -/
def stages (s : Endpoint c Id P R D L) : Id → Setup D L := fun id => (s.peers id).setup

variable [DecidableEq Id] (s : Endpoint c Id P R D L) (id : Id)

@[simp] theorem stages_moveTo (setup : Setup D L) :
    (s.moveTo id setup).stages = Function.update s.stages id setup := by
  funext k
  by_cases hk : k = id
  · subst hk
    simp [stages, moveTo, peers_update_self]
  · simp [stages, moveTo, peers_update_ne s hk, Function.update_of_ne hk]

/-- A step of a peer that is none of its setup. -/
theorem stages_update {f : Peer P R D L → Peer P R D L} (hf : ∀ p, (f p).setup = p.setup) :
    (s.update id f).stages = s.stages := by
  funext k
  by_cases hk : k = id
  · subst hk
    simp [stages, peers_update_self, hf]
  · simp [stages, peers_update_ne s hk]

@[simp] theorem stages_act (a : Link.Act P R D L) : (s.act id a).stages = s.stages :=
  s.stages_update id fun _ => rfl

omit [DecidableEq Id] in
/-- The stages after a message, whatever becomes of it. -/
theorem stages_sendIncoming (message : Message Id R D L)
    {sent closed : Endpoint c Id P R D L → Endpoint c Id P R D L}
    (hsent : ∀ s : Endpoint c Id P R D L, (sent s).stages = s.stages)
    (hclosed : ∀ s : Endpoint c Id P R D L, (closed s).stages = s.stages) :
    (s.sendIncoming message sent closed).stages = s.stages :=
  sendIncoming_rule (I := fun s' => s'.stages = s.stages) rfl (fun _ => hsent _) (hclosed s)

theorem stages_forward (packet : R) : (s.forward id packet).stages = s.stages := by
  unfold forward
  split
  · exact stages_act _ id _
  · exact stages_act _ id _
  · exact stages_act _ id _

theorem stages_execute (message : Message Id R D L) : (s.execute message).stages = s.stages := by
  cases message with
  | established id =>
    exact stages_update _ id (f := fun p => { p with published := true }) fun _ => rfl
  | streamPacket id packet => rfl
  | closed id error =>
    cases id with
    | none => rfl
    | some id => rfl

theorem stages_advance : s.advance.stages = s.stages := by
  unfold advance
  split
  · rfl
  · rfl
  · split
    · rfl
    · rfl
  · exact stages_execute s _
  · split
    · rfl
    · rfl
  · split
    · rfl
    · rfl
  · rfl
  · split
    · rfl
    · rfl
  · split
    · rfl
    · rfl
  · rfl
  · rfl

/-- **Only a setup moves a setup on.** -/
theorem stages_step {a : Act Id P R D L} (ha : a.setup? = none) : (s.step a).stages = s.stages := by
  cases a with
  | link id a =>
    simp only [step, link]
    split
    · exact stages_act s id a
    · rfl
  | offer id =>
    simp only [step, offer]
    split
    · split
      · exact stages_forward s id _
      · split
        · exact stages_act _ id _
        · exact stages_act _ id _
        · exact stages_act _ id _
    · rfl
  | report id =>
    simp only [step, report]
    split
    · exact stages_sendIncoming s _ (fun s => stages_act s id _) fun s => stages_act s id _
    · rfl
  | refuse error =>
    simp only [step, refuse]
    split
    · exact stages_sendIncoming s _ (fun _ => rfl) fun _ => rfl
    · rfl
  | reject error =>
    simp only [step, reject]
    split
    · rfl
    · rfl
  | beginFrame budget =>
    simp only [step, beginFrame]
    split
    · split
      · rfl
      · rfl
    · rfl
  | beginPackets budget =>
    simp only [step, beginPackets]
    split
    · split
      · rfl
      · rfl
    · rfl
  | advance => exact stages_advance s
  | dropWorld =>
    simp only [step, dropWorld]
    split
    · rfl
    · rfl
  | _ => simp [Act.setup?] at ha

/-- `publish` waits, hands the connection on or gives it up. -/
theorem stages_publish {s : Endpoint c Id P R D L} {id : Id} (h : s.stages id = .publishing) :
    (s.publish id).stages = s.stages ∨ (s.publish id).stages = Function.update s.stages id .handing ∨
      (s.publish id).stages = Function.update s.stages id .gone := by
  rw [publish, show (s.peers id).setup = .publishing from h]
  refine sendIncoming_rule (I := fun s' => s'.stages = s.stages ∨
    s'.stages = Function.update s.stages id .handing ∨ s'.stages = Function.update s.stages id .gone)
    (Or.inl rfl) (fun _ => Or.inr (Or.inl ?_)) (Or.inr (Or.inr ?_))
  · exact stages_moveTo _ id _
  · exact stages_moveTo s id _

/-- `run` after a failed split cancels the token, waits, or is over. -/
theorem stages_abandon :
    (s.abandon id).stages = s.stages ∨
      (∃ error, (s.abandon id).stages = Function.update s.stages id (.closing error)) ∨
      (s.abandon id).stages = Function.update s.stages id .gone := by
  unfold abandon
  split
  · rename_i error _
    refine Or.inr (Or.inl ⟨error, ?_⟩)
    rw [stages_moveTo, stages_act]
  · rename_i error _
    refine sendIncoming_rule (I := fun s' => s'.stages = s.stages ∨
      (∃ error, s'.stages = Function.update s.stages id (.closing error)) ∨
        s'.stages = Function.update s.stages id .gone)
      (Or.inl rfl) (fun _ => Or.inr (Or.inr ?_)) (Or.inr (Or.inr ?_))
    · exact stages_moveTo _ id _
    · exact stages_moveTo s id _
  · exact Or.inl rfl

/-- A setup that waits, dropped. -/
theorem stages_stopSetup {s : Endpoint c Id P R D L} {id : Id} (h : (s.stages id).pending = true)
    (hpoll : (s.stages id).failed = false) :
    (s.stopSetup id).stages = Function.update s.stages id .gone := by
  unfold stopSetup
  split
  · exact stages_moveTo s id _
  · exact stages_moveTo s id _
  · exact stages_moveTo s id _
  · exact stages_moveTo s id _
  · rename_i h1 h2 h3 h4
    cases hs : s.stages id with
    | publishing => exact absurd hs h1
    | handing => exact absurd hs h2
    | splitting => exact absurd hs h3
    | closing error => exact absurd hs (h4 error)
    | unsplit error => simp [hs, Setup.failed] at hpoll
    | unborn => simp [hs, Setup.pending] at h
    | running => simp [hs, Setup.pending] at h
    | gone => simp [hs, Setup.pending] at h

end Endpoint

namespace Server

variable {c : Plugin} {S Id P R D L : Type*} [DecidableEq Id]

/-! ### Every setup has its place -/

/-- The connections that are being set up, each in one of three lists. -/
structure Placed (stages : Id → Setup D L) (establishing queued setups : List Id) : Prop where
  once : ∀ id, establishing.count id + queued.count id + setups.count id =
    if (stages id).pending then 1 else 0
  establishing : ∀ id ∈ establishing, stages id = .publishing ∨ stages id = .handing
  queued : ∀ id ∈ queued, stages id = .handing
  setups : ∀ id ∈ setups, (stages id).connecting = true

namespace Placed

variable {stages : Id → Setup D L} {establishing queued setups : List Id}

/-- The connection `id` moves, and the others stay where they are. -/
theorem move (h : Placed stages establishing queued setups) {id : Id} {setup : Setup D L}
    {establishing' queued' setups' : List Id}
    (hothers : ∀ k, k ≠ id → establishing'.count k = establishing.count k ∧
      queued'.count k = queued.count k ∧ setups'.count k = setups.count k)
    (hself : establishing'.count id + queued'.count id + setups'.count id =
      if setup.pending then 1 else 0)
    (he : id ∈ establishing' → setup = .publishing ∨ setup = .handing)
    (hq : id ∈ queued' → setup = .handing) (hs : id ∈ setups' → setup.connecting = true) :
    Placed (Function.update stages id setup) establishing' queued' setups' := by
  have hmem : ∀ {k : Id} {l l' : List Id}, l'.count k = l.count k → k ∈ l' → k ∈ l := by
    intro k l l' hc hk
    have hpos := List.count_pos_iff.mpr hk
    exact List.count_pos_iff.mp (by omega)
  refine ⟨fun k => ?_, fun k hk => ?_, fun k hk => ?_, fun k hk => ?_⟩
  · by_cases hid : k = id
    · subst hid
      rw [Function.update_self]
      exact hself
    · obtain ⟨h1, h2, h3⟩ := hothers k hid
      rw [Function.update_of_ne hid, h1, h2, h3]
      exact h.once k
  · by_cases hid : k = id
    · subst hid
      rw [Function.update_self]
      exact he hk
    · rw [Function.update_of_ne hid]
      exact h.establishing k (hmem (hothers k hid).1 hk)
  · by_cases hid : k = id
    · subst hid
      rw [Function.update_self]
      exact hq hk
    · rw [Function.update_of_ne hid]
      exact h.queued k (hmem (hothers k hid).2.1 hk)
  · by_cases hid : k = id
    · subst hid
      rw [Function.update_self]
      exact hs hk
    · rw [Function.update_of_ne hid]
      exact h.setups k (hmem (hothers k hid).2.2 hk)

/-- At most one list holds a connection, and at most once. -/
theorem le_one (h : Placed stages establishing queued setups) (id : Id) :
    establishing.count id + queued.count id + setups.count id ≤ 1 := by
  have hc := h.once id
  split at hc <;> omega

theorem nodup (h : Placed stages establishing queued setups) :
    (establishing ++ queued ++ setups).Nodup := by
  refine List.nodup_iff_count_le_one.mpr fun id => ?_
  rw [List.count_append, List.count_append]
  exact h.le_one id

theorem mem_iff (h : Placed stages establishing queued setups) (id : Id) :
    id ∈ establishing ++ queued ++ setups ↔ (stages id).pending = true := by
  have hc := h.once id
  rw [← List.count_pos_iff, List.count_append, List.count_append, hc]
  by_cases hp : (stages id).pending = true
  · simp [hp]
  · simp [hp]

/-- Only `establish` publishes. -/
theorem mem_of_publishing (h : Placed stages establishing queued setups) {id : Id}
    (hid : stages id = .publishing) : id ∈ establishing := by
  have hmem := (h.mem_iff id).mpr (by rw [hid]; rfl)
  rcases List.mem_append.mp hmem with hmem | hmem
  · rcases List.mem_append.mp hmem with hmem | hmem
    · exact hmem
    · have := h.queued id hmem
      rw [hid] at this
      cases this
  · have := h.setups id hmem
    rw [hid] at this
    cases this

/-- A connection is made. -/
theorem enter (h : Placed stages establishing queued setups) {id : Id} (hid : stages id = .unborn) :
    Placed (Function.update stages id .publishing) (establishing ++ [id]) queued setups := by
  have hnone := h.once id
  rw [hid] at hnone
  simp only [Setup.pending, Bool.false_eq_true, if_false] at hnone
  refine h.move (fun k hk => ⟨?_, rfl, rfl⟩) ?_ (fun _ => Or.inl rfl) (fun hm => ?_) fun hm => ?_
  · simp [List.count_append, Ne.symm hk]
  · simp only [List.count_append, List.count_singleton_self, Setup.pending, if_true]
    omega
  · have := List.count_pos_iff.mpr hm
    omega
  · have := List.count_pos_iff.mpr hm
    omega

/-- A task of `establish` goes on. -/
theorem proceed (h : Placed stages establishing queued setups) {id : Id} (hid : id ∈ establishing) :
    Placed (Function.update stages id .handing) establishing queued setups := by
  have hone := h.le_one id
  have hpos := List.count_pos_iff.mpr hid
  refine h.move (fun k _ => ⟨rfl, rfl, rfl⟩) ?_ (fun _ => Or.inr rfl) (fun _ => rfl) fun hm => ?_
  · simp only [Setup.pending, if_true]
    omega
  · have := List.count_pos_iff.mpr hm
    omega

/-- A task of `establish` gives its connection up. -/
theorem leave (h : Placed stages establishing queued setups) {id : Id} (hid : id ∈ establishing) :
    Placed (Function.update stages id .gone) (establishing.erase id) queued setups := by
  have hone := h.le_one id
  have hpos := List.count_pos_iff.mpr hid
  have herase := List.count_erase_self (a := id) (l := establishing)
  refine h.move (fun k hk => ⟨List.count_erase_of_ne hk, rfl, rfl⟩) ?_ (fun hm => ?_) (fun hm => ?_)
    fun hm => ?_
  · simp only [Setup.pending, Bool.false_eq_true, if_false]
    omega
  · have := List.count_pos_iff.mpr hm
    omega
  · have := List.count_pos_iff.mpr hm
    omega
  · have := List.count_pos_iff.mpr hm
    omega

/-- A task of `establish` puts its connection into the channel. -/
theorem enqueue (h : Placed stages establishing queued setups) {id : Id} (hid : id ∈ establishing)
    (hstage : stages id = .handing) :
    Placed stages (establishing.erase id) (queued ++ [id]) setups := by
  have hone := h.le_one id
  have hpos := List.count_pos_iff.mpr hid
  have herase := List.count_erase_self (a := id) (l := establishing)
  rw [show stages = Function.update stages id .handing by rw [← hstage, Function.update_eq_self]]
  refine h.move (fun k hk => ⟨List.count_erase_of_ne hk, ?_, rfl⟩) ?_ (fun _ => Or.inr rfl)
    (fun _ => rfl) fun hm => ?_
  · simp [List.count_append, Ne.symm hk]
  · simp only [List.count_append, List.count_singleton_self, Setup.pending, if_true]
    omega
  · have := List.count_pos_iff.mpr hm
    omega

/-- `run_connections` takes the oldest connection of the channel. -/
theorem start {id : Id} (h : Placed stages establishing (id :: queued) setups) :
    Placed (Function.update stages id .splitting) establishing queued (setups ++ [id]) := by
  have hone := h.le_one id
  rw [List.count_cons_self] at hone
  refine h.move (fun k hk => ⟨rfl, ?_, ?_⟩) ?_ (fun hm => ?_) (fun hm => ?_) fun _ => rfl
  · simp [Ne.symm hk]
  · simp [List.count_append, Ne.symm hk]
  · simp only [List.count_append, List.count_singleton_self, Setup.pending, if_true]
    omega
  · have := List.count_pos_iff.mpr hm
    omega
  · have := List.count_pos_iff.mpr hm
    omega

/-- A `run` goes on. -/
theorem turn (h : Placed stages establishing queued setups) {id : Id} (hid : id ∈ setups)
    {setup : Setup D L} (hsetup : setup.connecting = true) :
    Placed (Function.update stages id setup) establishing queued setups := by
  have hone := h.le_one id
  have hpos := List.count_pos_iff.mpr hid
  have hpending : setup.pending = true := by
    cases setup <;> simp_all [Setup.connecting, Setup.pending]
  refine h.move (fun k _ => ⟨rfl, rfl, rfl⟩) ?_ (fun hm => ?_) (fun hm => ?_) fun _ => hsetup
  · rw [hpending, if_pos rfl]
    omega
  · have := List.count_pos_iff.mpr hm
    omega
  · have := List.count_pos_iff.mpr hm
    omega

/-- A `run` is over. -/
theorem finish (h : Placed stages establishing queued setups) {id : Id} (hid : id ∈ setups)
    {setup : Setup D L} (hsetup : setup.pending = false) :
    Placed (Function.update stages id setup) establishing queued (setups.erase id) := by
  have hone := h.le_one id
  have hpos := List.count_pos_iff.mpr hid
  have herase := List.count_erase_self (a := id) (l := setups)
  refine h.move (fun k hk => ⟨rfl, rfl, List.count_erase_of_ne hk⟩) ?_ (fun hm => ?_) (fun hm => ?_)
    fun hm => ?_
  · rw [hsetup]
    simp only [Bool.false_eq_true, if_false]
    omega
  · have := List.count_pos_iff.mpr hm
    omega
  · have := List.count_pos_iff.mpr hm
    omega
  · have := List.count_pos_iff.mpr hm
    omega

/-- The oldest connection of the channel is dropped with it. -/
theorem drop {id : Id} (h : Placed stages establishing (id :: queued) setups) :
    Placed (Function.update stages id .gone) establishing queued setups := by
  have hone := h.le_one id
  rw [List.count_cons_self] at hone
  refine h.move (fun k hk => ⟨rfl, ?_, rfl⟩) ?_ (fun hm => ?_) (fun hm => ?_) fun hm => ?_
  · simp [Ne.symm hk]
  · simp only [Setup.pending, Bool.false_eq_true, if_false]
    omega
  · have := List.count_pos_iff.mpr hm
    omega
  · have := List.count_pos_iff.mpr hm
    omega
  · have := List.count_pos_iff.mpr hm
    omega

end Placed

/-- A setup that is dropped was made before. -/
theorem unborn_update {stages : Id → Setup D L} {id : Id} {setup : Setup D L}
    (hold : stages id ≠ .unborn) (hnew : setup ≠ .unborn) (k : Id) :
    Function.update stages id setup k = .unborn ↔ stages k = .unborn := by
  by_cases hk : k = id
  · subst hk
    rw [Function.update_self]
    exact ⟨fun h => absurd h hnew, fun h => absurd h hold⟩
  · rw [Function.update_of_ne hk]

/-- The setups under way are dropped, one after the other. -/
theorem placed_stop_setups {establishing : List Id} :
    ∀ (setups : List Id) {e : Endpoint c Id P R D L}, Placed e.stages establishing [] setups →
      (∀ id ∈ setups, (e.stages id).failed = false) →
      Placed (setups.foldl Endpoint.stopSetup e).stages establishing [] [] ∧
        ∀ k, (setups.foldl Endpoint.stopSetup e).stages k = .unborn ↔ e.stages k = .unborn
  | [], e, h, _ => ⟨h, fun _ => Iff.rfl⟩
  | id :: setups, e, h, hpoll => by
    have hmem : id ∈ id :: setups := List.mem_cons_self
    have hpending := (h.mem_iff id).mp (List.mem_append_right _ hmem)
    have hstages := Endpoint.stages_stopSetup hpending (hpoll id hmem)
    have hnext : Placed (e.stopSetup id).stages establishing [] setups := by
      have := h.finish hmem (show (Setup.gone : Setup D L).pending = false from rfl)
      rwa [List.erase_cons_head, ← hstages] at this
    have hborn : e.stages id ≠ .unborn := by
      intro hu
      rw [hu] at hpending
      cases hpending
    have hrest : ∀ k ∈ setups, ((e.stopSetup id).stages k).failed = false := by
      intro k hk
      rw [hstages]
      by_cases hkid : k = id
      · subst hkid
        rw [Function.update_self]
        rfl
      · rw [Function.update_of_ne hkid]
        exact hpoll k (List.mem_cons_of_mem _ hk)
    obtain ⟨hplaced, hunborn⟩ := placed_stop_setups setups hnext hrest
    refine ⟨hplaced, fun k => (hunborn k).trans ?_⟩
    rw [hstages]
    exact unborn_update hborn (by simp) k

/-- The receiver is dropped, with what is in the channel and what is under way. -/
theorem placed_stop {establishing setups : List Id} :
    ∀ (queued : List Id) {e : Endpoint c Id P R D L}, Placed e.stages establishing queued setups →
      (∀ id ∈ setups, (e.stages id).failed = false) →
      Placed ((queued ++ setups).foldl Endpoint.stopSetup e).stages establishing [] [] ∧
        ∀ k, ((queued ++ setups).foldl Endpoint.stopSetup e).stages k = .unborn ↔ e.stages k = .unborn
  | [], e, h, hpoll => placed_stop_setups setups h hpoll
  | id :: queued, e, h, hpoll => by
    have hstage : e.stages id = .handing := h.queued id List.mem_cons_self
    have hstages : (e.stopSetup id).stages = Function.update e.stages id .gone :=
      Endpoint.stages_stopSetup (by rw [hstage]; rfl) (by rw [hstage]; rfl)
    have hnext : Placed (e.stopSetup id).stages establishing queued setups := by
      rw [hstages]
      exact h.drop
    have hrest : ∀ k ∈ setups, ((e.stopSetup id).stages k).failed = false := by
      intro k hk
      rw [hstages]
      by_cases hkid : k = id
      · subst hkid
        rw [Function.update_self]
        rfl
      · rw [Function.update_of_ne hkid]
        exact hpoll k hk
    obtain ⟨hplaced, hunborn⟩ := placed_stop queued hnext hrest
    refine ⟨hplaced, fun k => (hunborn k).trans ?_⟩
    rw [hstages]
    exact unborn_update (by rw [hstage]; simp) (by simp) k

/-! ### What every step keeps -/

/-- The permits and the senders of the channel, by who holds them. -/
structure Counted (s : Server c S Id P R D L) : Prop where
  permits : s.pending + s.spawned.length + s.establishing.length = limit c
  senders : s.connections.senders =
    s.loop.senders + s.spawned.length + s.establishing.length

/-- Where the streams have gone, and which connections are made of them. -/
structure Streams (s : Server c S Id P R D L) : Prop where
  streams : s.accepted.Perm (s.rejected ++ s.unpolled ++ s.spawned ++ s.created.map Prod.snd)
  created : ∀ id, id ∈ s.created.map Prod.fst ↔ s.endpoint.stages id ≠ .unborn
  distinct : (s.created.map Prod.fst).Nodup
  handed : (s.establishing ++ s.handed).Nodup
  made : ∀ id ∈ s.handed, s.endpoint.stages id ≠ .unborn

/-- The channel and `run_connections`. -/
structure Channel (s : Server c S Id P R D L) : Prop where
  capacity : s.connections.capacity = limit c
  room : s.connections.items.length ≤ limit c
  running : s.setups.length ≤ limit c
  order : ∃ lost, s.handed = s.started ++ s.connections.items ++ lost ∧
    (s.connections.receiverOpen = true → lost = [])
  closed : s.connections.receiverOpen = false → s.connections.items = []
  ended : s.processing = false → s.connections.receiverOpen = false ∧ s.setups = []

structure Good (s : Server c S Id P R D L) : Prop where
  placed : Placed s.endpoint.stages s.establishing s.connections.items s.setups
  counted : Counted s
  streams : Streams s
  channel : Channel s

theorem good_new (c : Plugin) (S Id P R D L : Type*) [DecidableEq Id] :
    Good (new c S Id P R D L) where
  placed := ⟨fun _ => rfl, fun _ h => (by cases h), fun _ h => (by cases h), fun _ h => (by cases h)⟩
  counted := ⟨rfl, rfl⟩
  streams := ⟨List.Perm.refl _, fun _ => ⟨fun h => (by cases h), fun h => absurd rfl h⟩, List.nodup_nil,
    List.nodup_nil, fun _ h => (by cases h)⟩
  channel := ⟨rfl, Nat.zero_le _, Nat.zero_le _, ⟨[], rfl, fun _ => rfl⟩, fun _ => rfl,
    fun h => (by cases h)⟩

omit [DecidableEq Id] in
/-- The endpoint moves, and the connections that there are stay made. -/
theorem Streams.keep {s s' : Server c S Id P R D L} (h : Streams s)
    (haccepted : s'.accepted = s.accepted) (hrejected : s'.rejected = s.rejected)
    (hunpolled : s'.unpolled = s.unpolled) (hspawned : s'.spawned = s.spawned)
    (hcreated : s'.created = s.created) (hhanded : s'.handed = s.handed)
    (hestablishing : s'.establishing.Sublist s.establishing)
    (hstages : ∀ k, s'.endpoint.stages k = .unborn ↔ s.endpoint.stages k = .unborn) : Streams s' := by
  refine ⟨?_, fun id => ?_, ?_, ?_, fun id hid => ?_⟩
  · rw [haccepted, hrejected, hunpolled, hspawned, hcreated]
    exact h.streams
  · rw [hcreated, Ne, hstages]
    exact h.created id
  · rw [hcreated]
    exact h.distinct
  · rw [hhanded]
    exact h.handed.sublist (hestablishing.append (List.Sublist.refl _))
  · rw [hhanded] at hid
    rw [Ne, hstages]
    exact h.made id hid

omit [DecidableEq Id] in
/-- Senders come and go. -/
theorem Channel.keep {s s' : Server c S Id P R D L} (h : Channel s)
    (hconnections : s'.connections = { s.connections with senders := s'.connections.senders })
    (hprocessing : s'.processing = s.processing) (hsetups : s'.setups = s.setups)
    (hhanded : s'.handed = s.handed) (hstarted : s'.started = s.started) : Channel s' := by
  refine ⟨?_, ?_, ?_, ?_, ?_, ?_⟩
  · rw [hconnections]
    exact h.capacity
  · rw [hconnections]
    exact h.room
  · rw [hsetups]
    exact h.running
  · rw [hhanded, hstarted, hconnections]
    exact h.order
  · rw [hconnections]
    exact h.closed
  · rw [hprocessing, hsetups, hconnections]
    exact h.ended

section Steps

variable {s : Server c S Id P R D L}

theorem good_endLoop (h : Good s) (hloop : s.loop ≠ .done) : Good s.endLoop where
  placed := h.placed
  counted := by
    refine ⟨h.counted.permits, ?_⟩
    have hone : s.loop.senders = 1 := by
      cases hl : s.loop with
      | done => exact absurd hl hloop
      | _ => rfl
    have hs := h.counted.senders
    simp only [endLoop, dropSender, Accepting.senders]
    omega
  streams := h.streams.keep rfl rfl rfl rfl rfl rfl (List.Sublist.refl _) fun _ => Iff.rfl
  channel := h.channel.keep rfl rfl rfl rfl rfl

theorem good_bind (h : Good s) (bound : Bool) : Good (s.bind bound) := by
  unfold bind
  split
  · rename_i hloop
    split
    · refine ⟨h.placed, ⟨h.counted.permits, ?_⟩,
        h.streams.keep rfl rfl rfl rfl rfl rfl (List.Sublist.refl _) fun _ => Iff.rfl, h.channel.keep rfl rfl rfl rfl rfl⟩
      have hs := h.counted.senders
      rw [hloop] at hs
      exact hs
    · exact good_endLoop h (by rw [hloop]; simp)
  · exact h

omit [DecidableEq Id] in
/-- The books after a stream that starts no task. -/
theorem Streams.turnAway (h : Streams s) (stream : S) (rejected unpolled : List S)
    (hbooks : (rejected ++ unpolled).Perm (s.rejected ++ s.unpolled ++ [stream])) :
    (s.accepted ++ [stream]).Perm
      (rejected ++ unpolled ++ s.spawned ++ s.created.map Prod.snd) := by
  refine perm_of_count fun x => ?_
  have hp := h.streams.count_eq x
  have hb := hbooks.count_eq x
  simp only [List.count_append] at hp hb ⊢
  omega

theorem good_accept (h : Good s) (result : Except IoError S) (spawns : Bool) :
    Good (s.accept result spawns) := by
  unfold accept
  split
  · rename_i stream hloop
    dsimp only
    by_cases hpermit : s.pending = 0
    · rw [if_pos hpermit]
      refine ⟨h.placed, ⟨h.counted.permits, h.counted.senders⟩, ⟨?_, h.streams.created,
        h.streams.distinct, h.streams.handed, h.streams.made⟩, h.channel.keep rfl rfl rfl rfl rfl⟩
      refine h.streams.turnAway stream _ _ (perm_of_count fun x => ?_)
      simp only [List.count_append]
      omega
    rw [if_neg hpermit]
    by_cases hspawns : spawns = true
    · rw [if_pos hspawns]
      refine ⟨h.placed, ⟨?_, ?_⟩, ⟨perm_of_count fun x => ?_, h.streams.created,
        h.streams.distinct, h.streams.handed, h.streams.made⟩, h.channel.keep rfl rfl rfl rfl rfl⟩
      · have hp := h.counted.permits
        simp only [List.length_append, List.length_singleton]
        omega
      · have hs := h.counted.senders
        simp only [List.length_append, List.length_singleton]
        omega
      · have hp := h.streams.streams.count_eq x
        simp only [List.count_append] at hp ⊢
        omega
    · rw [if_neg hspawns]
      refine ⟨h.placed, ⟨h.counted.permits, h.counted.senders⟩, ⟨?_, h.streams.created,
        h.streams.distinct, h.streams.handed, h.streams.made⟩, h.channel.keep rfl rfl rfl rfl rfl⟩
      refine h.streams.turnAway stream _ _ (perm_of_count fun x => ?_)
      simp only [List.count_append]
      omega
  · rename_i error hloop
    split
    · exact h
    · exact good_endLoop h (by rw [hloop]; simp)
  · exact h

theorem good_stopLoop (h : Good s) : Good s.stopLoop := by
  unfold stopLoop
  split
  · exact h
  · rename_i hloop
    exact good_endLoop h hloop

theorem good_stopSpawned (h : Good s) (k : ℕ) : Good (s.stopSpawned k) := by
  unfold stopSpawned
  split
  · rename_i stream hk
    have hlen := length_eraseIdx_of_getElem? hk
    refine ⟨h.placed, ⟨?_, ?_⟩, ⟨perm_of_count fun x => ?_, h.streams.created, h.streams.distinct,
      h.streams.handed, h.streams.made⟩,
      h.channel.keep rfl rfl rfl rfl rfl⟩
    · have hp := h.counted.permits
      simp only [release, dropSender]
      omega
    · have hs := h.counted.senders
      simp only [release, dropSender]
      omega
    · have hp := h.streams.streams.count_eq x
      have hc := count_eraseIdx_of_getElem? hk x
      simp only [release, dropSender, List.count_append] at hp ⊢
      omega
  · exact h

theorem good_establish (h : Good s) (k : ℕ) (id : Id) : Good (s.establish k id) := by
  unfold establish
  split
  · rename_i stream hk hunborn
    have hlen := length_eraseIdx_of_getElem? hk
    have hstages : (s.endpoint.create id).stages = Function.update s.endpoint.stages id .publishing := by
      rw [Endpoint.create, hunborn]
      exact Endpoint.stages_moveTo _ _ _
    have hnew : id ∉ s.created.map Prod.fst := fun hmem => (h.streams.created id).mp hmem hunborn
    have hfresh : id ∉ s.establishing ++ s.handed := by
      intro hmem
      rcases List.mem_append.mp hmem with hmem | hmem
      · rcases h.placed.establishing id hmem with hs | hs
        · exact absurd (hs.symm.trans hunborn) (by simp)
        · exact absurd (hs.symm.trans hunborn) (by simp)
      · exact h.streams.made id hmem hunborn
    refine ⟨?_, ⟨?_, ?_⟩, ⟨perm_of_count fun x => ?_, fun j => ?_, ?_, ?_, fun j hj => ?_⟩,
      h.channel.keep rfl rfl rfl rfl rfl⟩
    · rw [hstages]
      exact h.placed.enter hunborn
    · have hp := h.counted.permits
      simp only [List.length_append, List.length_singleton]
      omega
    · have hs := h.counted.senders
      simp only [List.length_append, List.length_singleton]
      omega
    · have hp := h.streams.streams.count_eq x
      have hc := count_eraseIdx_of_getElem? hk x
      simp only [List.map_append, List.map_cons, List.map_nil, List.count_append] at hp ⊢
      omega
    · rw [hstages, List.map_append, List.mem_append]
      by_cases hj : j = id
      · subst hj
        simp
      · rw [Function.update_of_ne hj, ← h.streams.created j]
        simp [hj]
    · rw [List.map_append]
      exact List.nodup_append_comm.mp (List.nodup_cons.mpr ⟨hnew, h.streams.distinct⟩)
    · show (s.establishing ++ [id] ++ s.handed).Nodup
      rw [List.append_assoc]
      exact List.nodup_middle.mpr (List.nodup_cons.mpr ⟨hfresh, h.streams.handed⟩)
    · show (s.endpoint.create id).stages j ≠ .unborn
      rw [hstages]
      by_cases hjid : j = id
      · subst hjid
        simp
      · rw [Function.update_of_ne hjid]
        exact h.streams.made j hj
  · exact h

/-- The task of `id` ends: its permit is free. -/
theorem counted_leave (h : Counted s) {id : Id} (hid : id ∈ s.establishing) : Counted (s.leave id) := by
  have hlen := List.length_erase_of_mem hid
  have hpos := List.length_pos_of_mem hid
  have hp := h.permits
  have hs := h.senders
  refine ⟨?_, ?_⟩
  · simp only [leave, release, dropSender]
    omega
  · simp only [leave, release, dropSender]
    omega

theorem good_publish (h : Good s) (id : Id) : Good (s.publish id) := by
  unfold publish
  split
  · rename_i hstage
    have hid : id ∈ s.establishing := h.placed.mem_of_publishing hstage
    have hborn : s.endpoint.stages id ≠ .unborn := by
      rw [show s.endpoint.stages id = .publishing from hstage]
      simp
    have hwait : ∀ {stages}, (s.endpoint.publish id).stages = stages →
        stages id ≠ .gone → Placed stages s.establishing s.connections.items s.setups →
        (∀ k, stages k = .unborn ↔ s.endpoint.stages k = .unborn) →
        Good (match ((s.endpoint.publish id).peers id).setup with
          | .gone => { s with endpoint := s.endpoint.publish id }.leave id
          | _ => { s with endpoint := s.endpoint.publish id }) := by
      intro stages he hgone hplaced hunborn
      have hself : ((s.endpoint.publish id).peers id).setup ≠ .gone := by
        rw [← he] at hgone
        exact hgone
      split
      · rename_i hs
        exact absurd hs hself
      · subst he
        exact ⟨hplaced, ⟨h.counted.permits, h.counted.senders⟩,
          h.streams.keep rfl rfl rfl rfl rfl rfl (List.Sublist.refl _) hunborn, h.channel.keep rfl rfl rfl rfl rfl⟩
    rcases Endpoint.stages_publish hstage with he | he | he
    · refine hwait he ?_ h.placed fun _ => Iff.rfl
      rw [show s.endpoint.stages id = .publishing from hstage]
      simp
    · refine hwait he ?_ (h.placed.proceed hid) (unborn_update hborn (by simp))
      rw [Function.update_self]
      simp
    · have hgone : ((s.endpoint.publish id).peers id).setup = .gone := by
        have := congrFun he id
        rwa [Function.update_self] at this
      simp only [hgone]
      refine ⟨?_, counted_leave (s := { s with endpoint := s.endpoint.publish id })
        ⟨h.counted.permits, h.counted.senders⟩ hid,
        h.streams.keep rfl rfl rfl rfl rfl rfl List.erase_sublist fun k => ?_,
        h.channel.keep rfl rfl rfl rfl rfl⟩
      · have hplaced := h.placed.leave hid
        rw [← he] at hplaced
        exact hplaced
      · have hunborn := unborn_update hborn (show (Setup.gone : Setup D L) ≠ .unborn by simp) k
        rw [← he] at hunborn
        exact hunborn
  · exact h

/-- A task gives its connection up. -/
theorem good_giveUp (h : Good s) {id : Id} (hid : id ∈ s.establishing) {e : Endpoint c Id P R D L}
    (he : e.stages = Function.update s.endpoint.stages id .gone) :
    Good ({ s with endpoint := e }.leave id) := by
  have hborn : s.endpoint.stages id ≠ .unborn := by
    rcases h.placed.establishing id hid with hs | hs
    · rw [hs]
      simp
    · rw [hs]
      simp
  refine ⟨?_, counted_leave (s := { s with endpoint := e }) ⟨h.counted.permits, h.counted.senders⟩ hid,
    h.streams.keep rfl rfl rfl rfl rfl rfl List.erase_sublist fun k => ?_,
    h.channel.keep rfl rfl rfl rfl rfl⟩
  · show Placed e.stages _ _ _
    rw [he]
    exact h.placed.leave hid
  · show e.stages k = .unborn ↔ _
    rw [he]
    exact unborn_update hborn (by simp) k

theorem good_hand (h : Good s) (id : Id) : Good (s.hand id) := by
  unfold hand
  split
  · rename_i hid
    split
    · rename_i hstage
      rcases s.connections.trySend_cases id with ⟨he, hopen⟩ | ⟨he, -⟩ | ⟨he, -⟩
      · have hroom : s.connections.items.length < s.connections.capacity := by
          have := Mpsc.room_of_trySend he
          omega
        rw [he]
        refine ⟨h.placed.enqueue hid hstage, counted_leave (s := { s with
            connections := { s.connections with items := s.connections.items ++ [id] }
            handed := s.handed ++ [id] }) ⟨h.counted.permits, h.counted.senders⟩ hid,
          ⟨h.streams.streams, h.streams.created, h.streams.distinct, ?_, fun k hk => ?_⟩,
          ⟨h.channel.capacity, ?_, h.channel.running, ?_, fun hclosed => ?_, h.channel.ended⟩⟩
        · show (s.establishing.erase id ++ (s.handed ++ [id])).Nodup
          have hperm := (List.perm_cons_erase hid).append_right s.handed
          rw [← List.append_assoc]
          exact (hperm.trans (List.perm_append_singleton _ _).symm).nodup_iff.mp h.streams.handed
        · rcases List.mem_append.mp hk with hk | hk
          · exact h.streams.made k hk
          · rw [List.mem_singleton.mp hk]
            show s.endpoint.stages id ≠ .unborn
            rw [show s.endpoint.stages id = .handing from hstage]
            simp
        · have hcap := h.channel.capacity
          simp only [leave, release, dropSender, List.length_append, List.length_singleton]
          omega
        · obtain ⟨lost, hhanded, hnone⟩ := h.channel.order
          refine ⟨[], ?_, fun _ => rfl⟩
          simp [leave, release, dropSender, hhanded, hnone hopen]
        · rw [show s.connections.receiverOpen = false from hclosed] at hopen
          cases hopen
      · rw [he]
        refine good_giveUp h hid ?_
        rw [Endpoint.hand, hstage]
        exact Endpoint.stages_moveTo _ _ _
      · rw [he]
        exact h
    · exact h
  · exact h

theorem good_stopEstablish (h : Good s) (id : Id) : Good (s.stopEstablish id) := by
  unfold stopEstablish
  split
  · rename_i hid
    refine good_giveUp h hid ?_
    rcases h.placed.establishing id hid with hs | hs
    · exact Endpoint.stages_stopSetup (by rw [hs]; rfl) (by rw [hs]; rfl)
    · exact Endpoint.stages_stopSetup (by rw [hs]; rfl) (by rw [hs]; rfl)
  · exact h

theorem good_take (h : Good s) : Good s.take := by
  unfold take
  split
  · rename_i hready
    obtain ⟨hprocessing, hopen, hroom⟩ := hready
    rw [Mpsc.tryRecv]
    cases hitems : s.connections.items with
    | nil =>
      by_cases hsenders : s.connections.senders = 0
      · rw [if_pos (Or.inl hsenders)]
        refine ⟨h.placed, ⟨h.counted.permits, h.counted.senders⟩,
          h.streams.keep rfl rfl rfl rfl rfl rfl (List.Sublist.refl _) fun _ => Iff.rfl,
          ⟨h.channel.capacity, h.channel.room, h.channel.running, ?_, fun _ => hitems, fun hend => ?_⟩⟩
        · obtain ⟨lost, hhanded, -⟩ := h.channel.order
          exact ⟨lost, hhanded, fun hno => by cases hno⟩
        · rw [show s.processing = false from hend] at hprocessing
          cases hprocessing
      · rw [if_neg (by simp [hsenders, hopen])]
        exact h
    | cons id rest =>
      have hplaced := h.placed
      rw [hitems] at hplaced
      have hstage : s.endpoint.stages id = .handing := hplaced.queued id List.mem_cons_self
      have hstages : (s.endpoint.hand id true).stages =
          Function.update s.endpoint.stages id .splitting := by
        rw [Endpoint.hand, show (s.endpoint.peers id).setup = .handing from hstage]
        exact Endpoint.stages_moveTo _ _ _
      refine ⟨?_, ⟨h.counted.permits, h.counted.senders⟩,
        h.streams.keep rfl rfl rfl rfl rfl rfl (List.Sublist.refl _) fun k => ?_,
        ⟨h.channel.capacity, ?_, ?_, ?_, fun hclosed => ?_, fun hend => ?_⟩⟩
      · show Placed (s.endpoint.hand id true).stages _ _ _
        rw [hstages]
        exact hplaced.start
      · show (s.endpoint.hand id true).stages k = .unborn ↔ _
        rw [hstages]
        exact unborn_update (by rw [hstage]; simp) (by simp) k
      · have := h.channel.room
        rw [hitems, List.length_cons] at this
        exact Nat.le_of_succ_le this
      · simp only [List.length_append, List.length_singleton]
        omega
      · obtain ⟨lost, hhanded, hnone⟩ := h.channel.order
        rw [hitems] at hhanded
        exact ⟨lost, by simp [hhanded], hnone⟩
      · rw [show s.connections.receiverOpen = false from hclosed] at hopen
        cases hopen
      · rw [show s.processing = false from hend] at hprocessing
        cases hprocessing
  · exact h

/-- A `run` goes on, to a stage of its own. -/
theorem good_turn (h : Good s) {id : Id} (hid : id ∈ s.setups) {e : Endpoint c Id P R D L}
    {setup : Setup D L} (he : e.stages = Function.update s.endpoint.stages id setup)
    (hsetup : setup.connecting = true) : Good { s with endpoint := e } := by
  have hborn : s.endpoint.stages id ≠ .unborn := by
    intro hs
    have := h.placed.setups id hid
    rw [hs] at this
    cases this
  refine ⟨?_, ⟨h.counted.permits, h.counted.senders⟩, h.streams.keep rfl rfl rfl rfl rfl rfl (List.Sublist.refl _) fun k => ?_,
    h.channel.keep rfl rfl rfl rfl rfl⟩
  · show Placed e.stages _ _ _
    rw [he]
    exact h.placed.turn hid hsetup
  · show e.stages k = .unborn ↔ _
    rw [he]
    exact unborn_update hborn (by rintro rfl; cases hsetup) k

/-- A `run` is over. -/
theorem good_end (h : Good s) {id : Id} (hid : id ∈ s.setups) {e : Endpoint c Id P R D L}
    {setup : Setup D L} (he : e.stages = Function.update s.endpoint.stages id setup)
    (hsetup : setup.pending = false) (hnew : setup ≠ .unborn) :
    Good { s with endpoint := e, setups := s.setups.erase id } := by
  have hborn : s.endpoint.stages id ≠ .unborn := by
    intro hs
    have := h.placed.setups id hid
    rw [hs] at this
    cases this
  refine ⟨?_, ⟨h.counted.permits, h.counted.senders⟩, h.streams.keep rfl rfl rfl rfl rfl rfl (List.Sublist.refl _) fun k => ?_,
    ⟨h.channel.capacity, h.channel.room, ?_, h.channel.order, h.channel.closed, fun hend => ?_⟩⟩
  · show Placed e.stages _ _ _
    rw [he]
    exact h.placed.finish hid hsetup
  · show e.stages k = .unborn ↔ _
    rw [he]
    exact unborn_update hborn hnew k
  · have hlen := List.length_erase_of_mem hid
    have := h.channel.running
    show (s.setups.erase id).length ≤ _
    omega
  · obtain ⟨hclosed, hnil⟩ := h.channel.ended hend
    rw [hnil] at hid
    cases hid

theorem good_split (h : Good s) (id : Id) (result : Except IoError Unit) : Good (s.split id result) := by
  unfold split
  split
  · rename_i hid
    split
    · rename_i hstage
      cases result with
      | ok value =>
        refine good_end h hid ?_ (show (Setup.running : Setup D L).pending = false from rfl) (by simp)
        rw [Endpoint.split, hstage]
        exact Endpoint.stages_moveTo _ _ _
      | error error =>
        refine good_turn h hid ?_ (show (Setup.unsplit (.io error) : Setup D L).connecting = true from rfl)
        rw [Endpoint.split, hstage]
        exact Endpoint.stages_moveTo _ _ _
    · exact h
  · exact h

theorem good_abandon (h : Good s) (id : Id) : Good (s.abandon id) := by
  unfold abandon
  split
  · rename_i hid
    have hconnecting := h.placed.setups id hid
    rcases Endpoint.stages_abandon s.endpoint id with he | ⟨error, he⟩ | he
    · have hturn : Good { s with endpoint := s.endpoint.abandon id } :=
        good_turn h hid (by rw [he, Function.update_eq_self]) hconnecting
      dsimp only
      split
      · rename_i hgone
        rw [← he] at hconnecting
        rw [show (s.endpoint.abandon id).stages id = .gone from hgone] at hconnecting
        cases hconnecting
      · exact hturn
    · have hturn := good_turn h hid he rfl
      dsimp only
      split
      · rename_i hgone
        have := congrFun he id
        rw [Function.update_self, show (s.endpoint.abandon id).stages id = .gone from hgone] at this
        cases this
      · exact hturn
    · have hend := good_end h hid he rfl (by simp)
      have hgone : ((s.endpoint.abandon id).peers id).setup = .gone := by
        have := congrFun he id
        rwa [Function.update_self] at this
      simp only [hgone]
      exact hend
  · exact h

theorem good_finish (h : Good s) : Good s.finish := by
  unfold finish
  split
  · rename_i hdone
    exact ⟨h.placed, ⟨h.counted.permits, h.counted.senders⟩,
      h.streams.keep rfl rfl rfl rfl rfl rfl (List.Sublist.refl _) fun _ => Iff.rfl,
      ⟨h.channel.capacity, h.channel.room, h.channel.running, h.channel.order, h.channel.closed,
        fun _ => hdone⟩⟩
  · exact h

theorem good_stopProcess (h : Good s) : Good s.stopProcess := by
  unfold stopProcess
  split
  · rename_i hready
    obtain ⟨hplaced, hunborn⟩ := placed_stop s.connections.items h.placed hready.2
    refine ⟨hplaced, ⟨h.counted.permits, h.counted.senders⟩,
      h.streams.keep rfl rfl rfl rfl rfl rfl (List.Sublist.refl _) hunborn,
      ⟨h.channel.capacity, Nat.zero_le _, Nat.zero_le _, ?_, fun _ => rfl, fun _ => ⟨rfl, rfl⟩⟩⟩
    obtain ⟨lost, hhanded, -⟩ := h.channel.order
    exact ⟨s.connections.items ++ lost, by simp [hhanded], fun hno => by cases hno⟩
  · exact h

theorem good_other (h : Good s) (a : Endpoint.Act Id P R D L) : Good (s.other a) := by
  unfold other
  split
  · rename_i ha
    have hstages := s.endpoint.stages_step (Option.isNone_iff_eq_none.mp ha)
    refine ⟨?_, ⟨h.counted.permits, h.counted.senders⟩,
      h.streams.keep rfl rfl rfl rfl rfl rfl (List.Sublist.refl _) fun k => ?_, h.channel.keep rfl rfl rfl rfl rfl⟩
    · show Placed (s.endpoint.step a).stages _ _ _
      rw [hstages]
      exact h.placed
    · show (s.endpoint.step a).stages k = .unborn ↔ _
      rw [hstages]
  · exact h

theorem good_step (h : Good s) (a : Act S Id P R D L) : Good (s.step a) := by
  cases a with
  | bind bound => exact good_bind h bound
  | accept result spawns => exact good_accept h result spawns
  | stopLoop => exact good_stopLoop h
  | establish k id => exact good_establish h k id
  | stopSpawned k => exact good_stopSpawned h k
  | publish id => exact good_publish h id
  | hand id => exact good_hand h id
  | stopEstablish id => exact good_stopEstablish h id
  | take => exact good_take h
  | split id result => exact good_split h id result
  | abandon id => exact good_abandon h id
  | finish => exact good_finish h
  | stopProcess => exact good_stopProcess h
  | other a => exact good_other h a

end Steps

theorem good_run (c : Plugin) (as : List (Act S Id P R D L)) :
    Good (run step (new c S Id P R D L) as) :=
  run_inv (I := Good) (fun _ a h => good_step h a) as (good_new c S Id P R D L)

/-! ### The endpoint of a server -/

/-- **A step of the server is steps of its endpoint.** -/
theorem endpoint_step (s : Server c S Id P R D L) (a : Act S Id P R D L) :
    ∃ bs : List (Endpoint.Act Id P R D L),
      (s.step a).endpoint = run Endpoint.step s.endpoint bs := by
  cases a with
  | bind bound =>
    refine ⟨[], ?_⟩
    simp only [step, bind, endLoop, dropSender]
    split
    · split
      · rfl
      · rfl
    · rfl
  | accept result spawns =>
    refine ⟨[], ?_⟩
    simp only [step, accept, endLoop, dropSender]
    split
    · split
      · rfl
      · split
        · rfl
        · rfl
    · split
      · rfl
      · rfl
    · rfl
  | stopLoop =>
    refine ⟨[], ?_⟩
    simp only [step, stopLoop, endLoop, dropSender]
    split
    · rfl
    · rfl
  | establish k id =>
    simp only [step, establish]
    split
    · exact ⟨[.create id], rfl⟩
    · exact ⟨[], rfl⟩
  | stopSpawned k =>
    refine ⟨[], ?_⟩
    simp only [step, stopSpawned, release, dropSender]
    split
    · rfl
    · rfl
  | publish id =>
    simp only [step, publish]
    split
    · refine ⟨[.publish id], ?_⟩
      split
      · rfl
      · rfl
    · exact ⟨[], rfl⟩
  | hand id =>
    simp only [step, hand]
    split
    · split
      · split
        · exact ⟨[], rfl⟩
        · exact ⟨[.hand id false], rfl⟩
        · exact ⟨[], rfl⟩
      · exact ⟨[], rfl⟩
    · exact ⟨[], rfl⟩
  | stopEstablish id =>
    simp only [step, stopEstablish]
    split
    · exact ⟨[.stopSetup id], rfl⟩
    · exact ⟨[], rfl⟩
  | take =>
    simp only [step, take]
    split
    · split
      · rename_i id _ _
        exact ⟨[.hand id true], rfl⟩
      · exact ⟨[], rfl⟩
      · exact ⟨[], rfl⟩
    · exact ⟨[], rfl⟩
  | split id result =>
    simp only [step, split]
    split
    · split
      · refine ⟨[.split id result], ?_⟩
        split
        · rfl
        · rfl
      · exact ⟨[], rfl⟩
    · exact ⟨[], rfl⟩
  | abandon id =>
    simp only [step, abandon]
    split
    · refine ⟨[.abandon id], ?_⟩
      split
      · rfl
      · rfl
    · exact ⟨[], rfl⟩
  | finish =>
    refine ⟨[], ?_⟩
    simp only [step, finish]
    split
    · rfl
    · rfl
  | stopProcess =>
    simp only [step, stopProcess]
    split
    · refine ⟨(s.connections.items ++ s.setups).map .stopSetup, ?_⟩
      rw [run, List.foldl_map]
      rfl
    · exact ⟨[], rfl⟩
  | other a =>
    simp only [step, other]
    split
    · exact ⟨[a], rfl⟩
    · exact ⟨[], rfl⟩

theorem endpoint_run : ∀ (as : List (Act S Id P R D L)) (s : Server c S Id P R D L),
    ∃ bs : List (Endpoint.Act Id P R D L),
      (run step s as).endpoint = run Endpoint.step s.endpoint bs
  | [], _ => ⟨[], rfl⟩
  | a :: as, s => by
    obtain ⟨bs, hbs⟩ := endpoint_step s a
    obtain ⟨cs, hcs⟩ := endpoint_run as (s.step a)
    refine ⟨bs ++ cs, ?_⟩
    rw [run_append, ← hbs]
    exact hcs

/-- A stream is turned away for want of a permit. -/
theorem rejected_accept {s : Server c S Id P R D L} (h : Good s) (hloop : s.loop = .accepting)
    (stream : S) (spawns : Bool) :
    (s.accept (.ok stream) spawns).rejected = s.rejected ++ [stream] ↔
      s.spawned.length + s.establishing.length = limit c := by
  have hp := h.counted.permits
  simp only [accept, hloop]
  by_cases hpermit : s.pending = 0
  · rw [if_pos hpermit]
    simp only [true_iff]
    omega
  · rw [if_neg hpermit]
    have hne : s.rejected ≠ s.rejected ++ [stream] := by simp
    refine ⟨fun he => ?_, fun _ => by omega⟩
    by_cases hspawns : spawns = true
    · rw [if_pos hspawns] at he
      exact absurd he hne
    · rw [if_neg hspawns] at he
      exact absurd he hne

/-- **The setups of a server are bounded, and none is lost.** After any steps of
the accept loop, the tasks, the handles and the frames: the endpoint is one that
its own machine reaches. Every stream that `accept` returned was dropped for want
of a permit, was dropped with a task never polled, waits for its task's first
poll, or has a connection of its own. The connections that are made and not yet
up are, each once, those that a task of `establish` holds, those in the channel
and those that `run_connections` has under way, and there are at most
`receive_capacity` (and one) of each. A stream is turned away only while all
permits are held by such tasks. -/
theorem setups_bounded (c : Plugin) (as : List (Act S Id P R D L)) :
    let s := run step (new c S Id P R D L) as
    (∃ bs, s.endpoint = run Endpoint.step (Endpoint.new c Id P R D L) bs) ∧
    s.accepted.Perm (s.rejected ++ s.unpolled ++ s.spawned ++ s.created.map Prod.snd) ∧
    (s.created.map Prod.fst).Nodup ∧
    (∀ id, id ∈ s.created.map Prod.fst ↔ (s.endpoint.peers id).setup ≠ .unborn) ∧
    (s.establishing ++ s.connections.items ++ s.setups).Nodup ∧
    (∀ id, id ∈ s.establishing ++ s.connections.items ++ s.setups ↔
      (s.endpoint.peers id).setup.pending = true) ∧
    s.spawned.length + s.establishing.length ≤ limit c ∧
    s.connections.items.length ≤ limit c ∧ s.setups.length ≤ limit c ∧
    (s.loop = .accepting → ∀ stream spawns,
      (s.step (.accept (.ok stream) spawns)).rejected = s.rejected ++ [stream] ↔
        s.spawned.length + s.establishing.length = limit c) := by
  intro s
  have h : Good s := good_run c as
  have hpermits := h.counted.permits
  exact ⟨endpoint_run as _, h.streams.streams, h.streams.distinct, h.streams.created, h.placed.nodup,
    h.placed.mem_iff, by omega, h.channel.room, h.channel.running,
    fun hloop stream spawns => rejected_accept h hloop stream spawns⟩

/-! ### The end of `run_connections` -/

/-- The receiver is dropped only after the last sender, and nothing with it. -/
structure Sent (s : Server c S Id P R D L) : Prop where
  last : s.connections.receiverOpen = false → s.connections.senders = 0
  order : s.handed = s.started ++ s.connections.items

omit [DecidableEq Id] in
/-- The last sender is gone with the loop and the last task. -/
theorem Counted.last {s : Server c S Id P R D L} (h : Counted s) (hzero : s.connections.senders = 0) :
    s.loop = .done ∧ s.spawned = [] ∧ s.establishing = [] := by
  have hsenders := h.senders
  refine ⟨?_, List.eq_nil_of_length_eq_zero (by omega), List.eq_nil_of_length_eq_zero (by omega)⟩
  cases hl : s.loop with
  | done => rfl
  | binding =>
    simp only [hl, Accepting.senders] at hsenders
    omega
  | accepting =>
    simp only [hl, Accepting.senders] at hsenders
    omega

/-- The channel loses senders, and takes on connections from one there is. -/
theorem sent_step {s : Server c S Id P R D L} (h : Good s) (hs : Sent s) {a : Act S Id P R D L}
    (ha : a ≠ .stopProcess) : Sent (s.step a) := by
  have hdrop : ∀ {s' : Server c S Id P R D L} (n : ℕ), s'.connections =
      { s.connections with senders := s.connections.senders - n } → s'.handed = s.handed →
      s'.started = s.started → Sent s' := by
    intro s' n hconnections hhanded hstarted
    refine ⟨fun hclosed => ?_, ?_⟩
    · rw [hconnections] at hclosed ⊢
      simp [hs.last hclosed]
    · rw [hhanded, hstarted, hconnections]
      exact hs.order
  cases a with
  | bind bound =>
    simp only [step, bind]
    split
    · split
      · exact hdrop 0 rfl rfl rfl
      · exact hdrop 1 rfl rfl rfl
    · exact hs
  | accept result spawns =>
    simp only [step, accept]
    split
    · rename_i stream hloop
      by_cases hpermit : s.pending = 0
      · rw [if_pos hpermit]
        exact hdrop 0 rfl rfl rfl
      rw [if_neg hpermit]
      by_cases hspawns : spawns = true
      · rw [if_pos hspawns]
        refine ⟨fun hclosed => ?_, hs.order⟩
        rw [(h.counted.last (hs.last hclosed)).1] at hloop
        cases hloop
      · rw [if_neg hspawns]
        exact hdrop 0 rfl rfl rfl
    · split
      · exact hs
      · exact hdrop 1 rfl rfl rfl
    · exact hs
  | stopLoop =>
    simp only [step, stopLoop]
    split
    · exact hs
    · exact hdrop 1 rfl rfl rfl
  | establish k id =>
    simp only [step, establish]
    split
    · exact hdrop 0 rfl rfl rfl
    · exact hs
  | stopSpawned k =>
    simp only [step, stopSpawned]
    split
    · exact hdrop 1 rfl rfl rfl
    · exact hs
  | publish id =>
    simp only [step, publish]
    split
    · split
      · exact hdrop 1 rfl rfl rfl
      · exact hdrop 0 rfl rfl rfl
    · exact hs
  | hand id =>
    simp only [step, hand]
    split
    · split
      · rcases s.connections.trySend_cases id with ⟨he, -⟩ | ⟨he, -⟩ | ⟨he, -⟩
        · rw [he]
          refine ⟨fun hclosed => ?_, ?_⟩
          · show s.connections.senders - 1 = 0
            rw [hs.last hclosed]
          · show s.handed ++ [id] = s.started ++ (s.connections.items ++ [id])
            rw [hs.order, List.append_assoc]
        · rw [he]
          exact hdrop 1 rfl rfl rfl
        · rw [he]
          exact hs
      · exact hs
    · exact hs
  | stopEstablish id =>
    simp only [step, stopEstablish]
    split
    · exact hdrop 1 rfl rfl rfl
    · exact hs
  | take =>
    simp only [step, take]
    split
    · rename_i hready
      rw [Mpsc.tryRecv]
      cases hitems : s.connections.items with
      | nil =>
        by_cases hsenders : s.connections.senders = 0
        · rw [if_pos (Or.inl hsenders)]
          exact ⟨fun _ => hsenders, hs.order⟩
        · rw [if_neg (by simp [hsenders, hready.2.1])]
          exact hs
      | cons id rest =>
        refine ⟨hs.last, ?_⟩
        have horder := hs.order
        rw [hitems] at horder
        simp [horder]
    · exact hs
  | split id result =>
    simp only [step, split]
    split
    · split
      · split
        · exact hdrop 0 rfl rfl rfl
        · exact hdrop 0 rfl rfl rfl
      · exact hs
    · exact hs
  | abandon id =>
    simp only [step, abandon]
    split
    · split
      · exact hdrop 0 rfl rfl rfl
      · exact hdrop 0 rfl rfl rfl
    · exact hs
  | finish =>
    simp only [step, finish]
    split
    · exact hdrop 0 rfl rfl rfl
    · exact hs
  | stopProcess => exact absurd rfl ha
  | other a =>
    simp only [step, other]
    split
    · exact hdrop 0 rfl rfl rfl
    · exact hs

theorem sent_run (c : Plugin) (as : List (Act S Id P R D L)) (hstop : ∀ a ∈ as, a ≠ .stopProcess) :
    Sent (run step (new c S Id P R D L) as) := by
  have hboth := run_inv_of_meets (I := fun s : Server c S Id P R D L => Good s ∧ Sent s)
    (fun _ a ha h => ⟨good_step h.1 a, sent_step h.1 h.2 ha⟩) as (meets_of_forall as _ hstop)
    ⟨good_new c S Id P R D L, fun h => (by cases h), rfl⟩
  exact hboth.2

/-- **`run_connections` starts the setups in order and ends with the last one.**
Unless its task is dropped: the setups started are the first of the connections
put into the channel, in their order, and none is started twice; the others are
still there. It has returned only if the accept loop has, no task of `establish`
is left, and every connection made is up or given up. -/
theorem setups_finish (c : Plugin) (as : List (Act S Id P R D L))
    (hstop : ∀ a ∈ as, a ≠ .stopProcess) :
    let s := run step (new c S Id P R D L) as
    s.handed = s.started ++ s.connections.items ∧ s.handed.Nodup ∧
    (s.processing = false → s.loop = .done ∧ s.spawned = [] ∧ s.establishing = [] ∧
      s.started = s.handed ∧
      ∀ id ∈ s.created.map Prod.fst, (s.endpoint.peers id).setup = .running ∨
        (s.endpoint.peers id).setup = .gone) := by
  intro s
  have h : Good s := good_run c as
  have hsent : Sent s := sent_run c as hstop
  refine ⟨hsent.order, h.streams.handed.of_append_right, fun hend => ?_⟩
  obtain ⟨hclosed, hsetups⟩ := h.channel.ended hend
  have hitems := h.channel.closed hclosed
  obtain ⟨hloop, hspawned, hestablishing⟩ := h.counted.last (hsent.last hclosed)
  refine ⟨hloop, hspawned, hestablishing, ?_, fun id hid => ?_⟩
  · rw [hsent.order, hitems, List.append_nil]
  · have hmade := (h.streams.created id).mp hid
    have hplace := h.placed.mem_iff id
    rw [hestablishing, hitems, hsetups] at hplace
    have hpending : (s.endpoint.stages id).pending ≠ true := fun hp => (by cases hplace.mpr hp)
    cases hs : (s.endpoint.peers id).setup with
    | running => exact Or.inl rfl
    | gone => exact Or.inr rfl
    | unborn => exact absurd hs hmade
    | _ =>
      refine absurd ?_ hpending
      rw [Endpoint.stages, hs]
      rfl

/-- One stream is taken in, a second one is turned away, and the listener fails. -/
theorem setups_finish_one :
    let c : Plugin := ⟨.server, false, .bits64, 1, .dropNewest, 1, .dropOldest⟩
    let as : List (Act ℕ ℕ ℕ ℕ ℕ ℕ) := [.bind true, .accept (.error ⟨.interrupted, ""⟩) true,
      .accept (.ok 7) true, .accept (.ok 8) true, .establish 0 0, .publish 0, .hand 0, .take,
      .split 0 (.ok ()), .accept (.error ⟨.other, ""⟩) true, .take, .finish]
    let s := run step (new c ℕ ℕ ℕ ℕ ℕ ℕ) as
    s.rejected = [8] ∧ s.created = [(0, 7)] ∧ s.processing = false ∧ s.loop = .done ∧
      s.spawned = [] ∧ s.establishing = [] ∧ s.started = s.handed := by
  intro c as s
  have hend : s.processing = false := by decide +kernel
  have h := (setups_finish c as (by simp [as])).2.2 hend
  exact ⟨by decide +kernel, by decide +kernel, hend, h.1, h.2.1, h.2.2.1, h.2.2.2.1⟩

end Server
end Slinet
