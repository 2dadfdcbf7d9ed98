/-
# A plugin's connections and its frames

An endpoint is a client or a server plugin (`src/client.rs`, `src/server.rs`):
the connections, each from the creation of its handle through `publish` or
`establish` and `run` to its two tasks (`Slinet.Link`); the queue of lifecycle
messages, in which a stream's packets travel too; the queue of datagram
packets that all connections share; and the ECS, whose frames take from the
queues what their budgets allow and then apply the commands, one after the
other. `configure_receive` of `src/scheduling.rs` puts the datagram packets
after the lifecycle and its commands.

The steps of the tasks, of the frames and of whoever holds a handle come in
any order; `Endpoint.step` is the machine. The ids are any type: a connection
is created under an id that has none yet. What is not kept is what neither
queue nor frame reads: addresses, timestamps, the bounds on how many setups run
at once (any number may here), and the note to the listener.
-/
import Mathlib.Logic.Function.Basic
import Slinet.WriterError

namespace Slinet

/-- The plugin's settings, as its startup system resolves them. -/
structure Plugin where
  side : Side
  datagram : Bool
  target : Target
  sendCapacity : ℕ
  sendOverflow : OverflowPolicy
  receiveCapacity : ℕ
  receiveOverflow : OverflowPolicy

/-- The limits of the datagram packet queue. -/
def Plugin.limits (c : Plugin) : Lossy.Limits :=
  ⟨max c.receiveCapacity 1, c.target.usize - 1, c.receiveOverflow⟩

/-- How far a connection is on its way to its tasks. -/
inductive Setup (D L : Type*)
  | unborn
  /-- `Established` waits for room in the queue. -/
  | publishing
  /-- The raw connection waits for `run`. -/
  | handing
  | splitting
  /-- `into_split` has failed, the token is next. -/
  | unsplit (error : ReceiveError D L)
  /-- `Closed` waits for room in the queue. -/
  | closing (error : ReceiveError D L)
  | running
  | gone

structure Peer (P R D L : Type*) where
  setup : Setup D L
  published : Bool
  link : Link P R D L

/-- `IncomingMessage`. A client's failed attempt is closed without an id. -/
inductive Message (Id R D L : Type*)
  | established (id : Id)
  | streamPacket (id : Id) (packet : R)
  | closed (id : Option Id) (error : ReceiveError D L)

/-- What is triggered; a packet with the registry its observers find. -/
inductive Event (Id R D L : Type*)
  | established (id : Id)
  | packet (id : Id) (packet : R) (registry : List Id)
  | disconnected (id : Option Id) (error : ReceiveError D L)

/-- Where the frame is: in the loop of `incoming_system`, at its commands, in the
loop of `receive_datagram_packets`, with the packet it has taken, or at the
commands of that, of which the first may have passed its test. -/
inductive Frame (Id R D L : Type*)
  | rest
  | lifecycle (budget : ℕ) (commands : List (Message Id R D L))
  | applying (commands : List (Message Id R D L))
  | packets (budget : ℕ) (taken : Option (Id × R)) (commands : List (Id × R))
  | delivering (passed : Bool) (commands : List (Id × R))

/-- The endpoint, with the events triggered and the packets dropped so far. -/
structure Endpoint (c : Plugin) (Id P R D L : Type*) where
  worldOpen : Bool
  peers : Id → Peer P R D L
  incoming : Mpsc (Message Id R D L)
  datagrams : Lossy.Queue c.limits (Id × R)
  frame : Frame Id R D L
  registry : List Id
  current : Option Id
  events : List (Event Id R D L)
  drops : List (QueueDropReason × Id × R)

namespace Endpoint

variable {c : Plugin} {Id P R D L : Type*}

def newLink (c : Plugin) : Link P R D L :=
  Link.new c.side c.datagram c.target c.sendCapacity c.sendOverflow

def new (c : Plugin) (Id P R D L : Type*) : Endpoint c Id P R D L where
  worldOpen := true
  peers _ := ⟨.unborn, false, newLink c⟩
  incoming := Mpsc.new (max c.receiveCapacity 1)
  datagrams := .new
  frame := .rest
  registry := []
  current := none
  events := []
  drops := []

/-- The token of a connection. -/
def cancelled (s : Endpoint c Id P R D L) (id : Id) : Bool := (s.peers id).link.conn.token

def drop (s : Endpoint c Id P R D L) (reason : QueueDropReason) (x : Id × R) :
    Endpoint c Id P R D L :=
  { s with drops := s.drops ++ [(reason, x)] }

def goto (s : Endpoint c Id P R D L) (frame : Frame Id R D L) : Endpoint c Id P R D L :=
  { s with frame := frame }

def trigger (s : Endpoint c Id P R D L) (event : Event Id R D L) : Endpoint c Id P R D L :=
  { s with events := s.events ++ [event] }

variable [DecidableEq Id]

def update (s : Endpoint c Id P R D L) (id : Id) (f : Peer P R D L → Peer P R D L) :
    Endpoint c Id P R D L :=
  { s with peers := Function.update s.peers id (f (s.peers id)) }

/-! ### The tasks -/

def moveTo (s : Endpoint c Id P R D L) (id : Id) (setup : Setup D L) : Endpoint c Id P R D L :=
  s.update id fun p => { p with setup := setup }

def act (s : Endpoint c Id P R D L) (id : Id) (a : Link.Act P R D L) : Endpoint c Id P R D L :=
  s.update id fun p => { p with link := p.link.step a }

/-- `incoming.send`: once there is room, or the receiver is gone; else it waits. -/
def sendIncoming (s : Endpoint c Id P R D L) (message : Message Id R D L)
    (sent closed : Endpoint c Id P R D L → Endpoint c Id P R D L) : Endpoint c Id P R D L :=
  match s.incoming.trySend message with
  | (.ok (), incoming) => sent { s with incoming := incoming }
  | (.error (.closed _), _) => closed s
  | (.error (.full _), _) => s

def create (s : Endpoint c Id P R D L) (id : Id) : Endpoint c Id P R D L :=
  match (s.peers id).setup with
  | .unborn => s.moveTo id .publishing
  | _ => s

/-- `publish` and `establish` announce the connection before they hand it on. -/
def publish (s : Endpoint c Id P R D L) (id : Id) : Endpoint c Id P R D L :=
  match (s.peers id).setup with
  | .publishing =>
    s.sendIncoming (.established id) (fun s => s.moveTo id .handing) fun s => s.moveTo id .gone
  | _ => s

/-- The raw connection arrives at `run`, or finds its channel closed. -/
def hand (s : Endpoint c Id P R D L) (id : Id) (arrives : Bool) : Endpoint c Id P R D L :=
  match (s.peers id).setup with
  | .handing => s.moveTo id (if arrives then .splitting else .gone)
  | _ => s

def split (s : Endpoint c Id P R D L) (id : Id) (result : Except IoError Unit) :
    Endpoint c Id P R D L :=
  match (s.peers id).setup with
  | .splitting =>
    match result with
    | .ok () => s.moveTo id .running
    | .error error => s.moveTo id (.unsplit (.io error))
  | _ => s

/-- The end of `run` after a failed split: the token, then `Closed`. -/
def abandon (s : Endpoint c Id P R D L) (id : Id) : Endpoint c Id P R D L :=
  match (s.peers id).setup with
  | .unsplit error => (s.act id (.conn .disconnect)).moveTo id (.closing error)
  | .closing error =>
    s.sendIncoming (.closed (some id) error) (fun s => s.moveTo id .gone) fun s => s.moveTo id .gone
  | _ => s

/-- A task of the setup is dropped where it waits. -/
def stopSetup (s : Endpoint c Id P R D L) (id : Id) : Endpoint c Id P R D L :=
  match (s.peers id).setup with
  | .publishing => s.moveTo id .gone
  | .handing => s.moveTo id .gone
  | .splitting => s.moveTo id .gone
  | .closing _ => s.moveTo id .gone
  | _ => s

/-- The steps of a link that are not settled by a queue of the endpoint: all of
the tasks' once they run, before that those of the handles. -/
def Setup.Allows : Setup D L → Link.Act P R D L → Bool
  | .unborn, _ => false
  | .running, .offer _ => false
  | .running, .report _ => false
  | .running, .frame => false
  | .running, .dropWorld => false
  | .running, _ => true
  | _, .conn (.send _) => true
  | _, .conn (.proceed _) => true
  | _, .conn .clone => true
  | _, .conn .dropSender => true
  | _, .conn .disconnect => true
  | _, _ => false

def link (s : Endpoint c Id P R D L) (id : Id) (a : Link.Act P R D L) : Endpoint c Id P R D L :=
  if Setup.Allows (s.peers id).setup a then s.act id a else s

/-- `PacketForwarder::forward` of a datagram packet. -/
def forward (s : Endpoint c Id P R D L) (id : Id) (packet : R) : Endpoint c Id P R D L :=
  match s.datagrams.trySend (id, packet) 1 with
  | (.ok evicted, datagrams) =>
    { s with
      datagrams := datagrams
      drops := s.drops ++ evicted.map (Prod.mk QueueDropReason.receiveQueueEvicted) }.act id (.offer .accepted)
  | (.error (.full _), _) => (s.drop .receiveQueueFull (id, packet)).act id (.offer .accepted)
  | (.error (.closed _), _) => s.act id (.offer .refused)

/-- The reader offers its packet to the ECS. -/
def offer (s : Endpoint c Id P R D L) (id : Id) : Endpoint c Id P R D L :=
  match (s.peers id).setup, (s.peers id).link.reader with
  | .running, .offering packet =>
    if c.datagram then s.forward id packet
    else
      match s.incoming.trySend (.streamPacket id packet) with
      | (.ok (), incoming) => { s with incoming := incoming }.act id (.offer .accepted)
      | (.error (.closed _), _) => s.act id (.offer .refused)
      | (.error (.full _), _) => s.act id (.offer .pending)
  | _, _ => s

/-- The reader's last message. -/
def report (s : Endpoint c Id P R D L) (id : Id) : Endpoint c Id P R D L :=
  match (s.peers id).setup, (s.peers id).link.reader with
  | .running, .reporting error =>
    s.sendIncoming (.closed (some id) error) (fun s => s.act id (.report true))
      fun s => s.act id (.report false)
  | _, _ => s

/-- An attempt of a client fails. -/
def refuse (s : Endpoint c Id P R D L) (error : IoError) : Endpoint c Id P R D L :=
  match c.side with
  | .client => s.sendIncoming (.closed none (.noConnection error)) id id
  | .server => s

/-- A request of a client finds no room for it. -/
def reject (s : Endpoint c Id P R D L) (error : IoError) : Endpoint c Id P R D L :=
  match c.side with
  | .client => s.trigger (.disconnected none (.noConnection error))
  | .server => s

/-! ### The frames -/

/-- The command for `Established`; the client's resource is the newest connection. -/
def establish (s : Endpoint c Id P R D L) (id : Id) : Endpoint c Id P R D L :=
  ({ s with
    registry := s.registry ++ [id]
    current := match c.side with
      | .client => some id
      | .server => s.current }.update id fun p => { p with published := true }).trigger
    (.established id)

/-- The command for `Closed`; the client falls back on the last connection left. -/
def remove (s : Endpoint c Id P R D L) (id : Id) (error : ReceiveError D L) :
    Endpoint c Id P R D L :=
  { s with
    registry := s.registry.filter (· ≠ id)
    current := match c.side with
      | .client => (s.registry.filter (· ≠ id)).getLast?
      | .server => s.current }.trigger (.disconnected (some id) error)

def execute (s : Endpoint c Id P R D L) : Message Id R D L → Endpoint c Id P R D L
  | .established id => s.establish id
  | .streamPacket id packet => s.trigger (.packet id packet s.registry)
  | .closed (some id) error => s.remove id error
  | .closed none error => s.trigger (.disconnected none error)

/-- `incoming_system` starts, with its budget. -/
def beginFrame (s : Endpoint c Id P R D L) (budget : ℕ) : Endpoint c Id P R D L :=
  match s.frame with
  | .rest => if s.worldOpen then s.goto (.lifecycle budget []) else s
  | _ => s

/-- `receive_datagram_packets` starts, when the commands before it are applied. -/
def beginPackets (s : Endpoint c Id P R D L) (budget : ℕ) : Endpoint c Id P R D L :=
  match s.frame with
  | .applying [] => if c.datagram then s.goto (.packets budget none []) else s
  | _ => s

/-- The test that a datagram packet has to pass in the queue. -/
def ready (s : Endpoint c Id P R D L) (x : Id × R) : Bool :=
  (s.peers x.1).published || s.cancelled x.1

/-- The frame's own next step. -/
def advance (s : Endpoint c Id P R D L) : Endpoint c Id P R D L :=
  match s.frame with
  | .rest => s
  | .lifecycle 0 commands => s.goto (.applying commands)
  | .lifecycle (budget + 1) commands =>
    match s.incoming.tryRecv with
    | (.ok message, incoming) =>
      { s with incoming := incoming }.goto (.lifecycle budget (commands ++ [message]))
    | (.error _, _) => s.goto (.applying commands)
  | .applying (message :: commands) => (s.execute message).goto (.applying commands)
  | .applying [] => if c.datagram then s else s.goto .rest
  | .packets budget (some x) commands =>
    if s.cancelled x.1 then (s.drop .closedBeforeDelivery x).goto (.packets budget none commands)
    else s.goto (.packets budget none (commands ++ [x]))
  | .packets 0 none commands => s.goto (.delivering false commands)
  | .packets (budget + 1) none commands =>
    match s.datagrams.tryRecvIf s.ready with
    | (.ok x, datagrams) => { s with datagrams := datagrams }.goto (.packets budget (some x) commands)
    | (.error _, _) => s.goto (.delivering false commands)
  | .delivering false (x :: commands) =>
    if s.cancelled x.1 then (s.drop .closedBeforeDelivery x).goto (.delivering false commands)
    else s.goto (.delivering true (x :: commands))
  | .delivering true (x :: commands) =>
    (s.trigger (.packet x.1 x.2 s.registry)).goto (.delivering false commands)
  | .delivering _ [] => s.goto .rest

/-- The world is dropped, between two frames, and with it both receivers. -/
def dropWorld (s : Endpoint c Id P R D L) : Endpoint c Id P R D L :=
  match s.frame with
  | .rest =>
    { s with
      worldOpen := false
      peers := fun id => { s.peers id with link := (s.peers id).link.step .dropWorld }
      incoming := { s.incoming with items := [], receiverOpen := false }
      datagrams := s.datagrams.closeAndDrain.2 }
  | _ => s

inductive Act (Id P R D L : Type*)
  | create (id : Id)
  | publish (id : Id)
  | hand (id : Id) (arrives : Bool)
  | split (id : Id) (result : Except IoError Unit)
  | abandon (id : Id)
  | stopSetup (id : Id)
  | link (id : Id) (a : Link.Act P R D L)
  | offer (id : Id)
  | report (id : Id)
  | refuse (error : IoError)
  | reject (error : IoError)
  | beginFrame (budget : ℕ)
  | beginPackets (budget : ℕ)
  | advance
  | dropWorld

def step (s : Endpoint c Id P R D L) : Act Id P R D L → Endpoint c Id P R D L
  | .create id => s.create id
  | .publish id => s.publish id
  | .hand id arrives => s.hand id arrives
  | .split id result => s.split id result
  | .abandon id => s.abandon id
  | .stopSetup id => s.stopSetup id
  | .link id a => s.link id a
  | .offer id => s.offer id
  | .report id => s.report id
  | .refuse error => s.refuse error
  | .reject error => s.reject error
  | .beginFrame budget => s.beginFrame budget
  | .beginPackets budget => s.beginPackets budget
  | .advance => s.advance
  | .dropWorld => s.dropWorld

/-! ### What a setup does -/

omit [DecidableEq Id] in
/-- What holds of a message sent, and of one that finds the world gone. -/
theorem sendIncoming_rule {I : Endpoint c Id P R D L → Prop} {s : Endpoint c Id P R D L} (h : I s)
    {message : Message Id R D L} {sent closed : Endpoint c Id P R D L → Endpoint c Id P R D L}
    (hsent : s.incoming.receiverOpen = true →
      I (sent { s with incoming := { s.incoming with items := s.incoming.items ++ [message] } }))
    (hclosed : I (closed s)) : I (s.sendIncoming message sent closed) := by
  unfold sendIncoming
  rcases s.incoming.trySend_cases message with ⟨he, hopen⟩ | ⟨he, -⟩ | ⟨he, -⟩
  · rw [he]
    exact hsent hopen
  · rw [he]
    exact hclosed
  · rw [he]
    exact h

/-- The connection that a step sets up. -/
def Act.setup? : Act Id P R D L → Option Id
  | .create id => some id
  | .publish id => some id
  | .hand id _ => some id
  | .split id _ => some id
  | .abandon id => some id
  | .stopSetup id => some id
  | _ => none

/-- **The rule of setups.** A setup moves on, cancels the connection's token, or
sends a message that is no packet. -/
theorem setup_rule {I : Endpoint c Id P R D L → Prop} {id : Id}
    (hmove : ∀ s setup, I s → I (s.moveTo id setup))
    (hcancel : ∀ s, I s → I (s.act id (.conn .disconnect)))
    (hsend : ∀ s message, (∀ k packet, message ≠ .streamPacket k packet) → I s →
      I { s with incoming := { s.incoming with items := s.incoming.items ++ [message] } })
    {s : Endpoint c Id P R D L} (h : I s) {a : Act Id P R D L} (ha : a.setup? = some id) :
    I (s.step a) := by
  cases a with
  | create k =>
    obtain rfl : k = id := by simpa [Act.setup?] using ha
    simp only [step, create]
    split
    · exact hmove s _ h
    · exact h
  | publish k =>
    obtain rfl : k = id := by simpa [Act.setup?] using ha
    simp only [step, publish]
    split
    · exact sendIncoming_rule h (fun _ => hmove _ _ (hsend s _ (by simp) h)) (hmove s _ h)
    · exact h
  | hand k arrives =>
    obtain rfl : k = id := by simpa [Act.setup?] using ha
    simp only [step, hand]
    split
    · exact hmove s _ h
    · exact h
  | split k result =>
    obtain rfl : k = id := by simpa [Act.setup?] using ha
    simp only [step, split]
    split
    · split
      · exact hmove s _ h
      · exact hmove s _ h
    · exact h
  | abandon k =>
    obtain rfl : k = id := by simpa [Act.setup?] using ha
    simp only [step, abandon]
    split
    · exact hmove _ _ (hcancel s h)
    · exact sendIncoming_rule h (fun _ => hmove _ _ (hsend s _ (by simp) h)) (hmove s _ h)
    · exact h
  | stopSetup k =>
    obtain rfl : k = id := by simpa [Act.setup?] using ha
    simp only [step, stopSetup]
    split
    · exact hmove s _ h
    · exact hmove s _ h
    · exact hmove s _ h
    · exact hmove s _ h
    · exact h
  | _ => simp [Act.setup?] at ha

end Endpoint
end Slinet
