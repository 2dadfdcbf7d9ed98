/-
# The requests of a client

A `ConnectionRequestEvent` goes through four hands (`src/client.rs`): the
observer puts its address into a bounded queue, or has the request rejected;
`process_connection_requests` has at most `MAX_CONNECTION_ATTEMPTS` attempts
under way, which end in any order; it publishes one at a time, waiting for room
in the queue of lifecycle messages; and `incoming_system` takes the messages, as
many as its budget allows, and leaves commands that trigger the events.

`Client` is the machine. A serial number that the code does not have tells apart
the requests to one address, and tags the message and the event that answer
one. Every request is in one place, or it has one outcome, with its address; or
it went with the task, when the runtime stopped, or with the world
(`one_outcome`).
-/
import Slinet.Ledger
import Slinet.Outgoing

namespace Slinet

/-- A `ConnectionRequestEvent`. -/
structure Request (A : Type*) where
  serial : ℕ
  address : A
  deriving DecidableEq, Repr

/-- `IncomingMessage`, and the event that it is triggered as. -/
inductive Notice (A Id R D L : Type*)
  | established (address : A)
  | streamPacket (packet : R)
  | closed (error : ReceiveError D L) (address : A) (id : Option Id)
  deriving DecidableEq, Repr

namespace Notice

variable {A Id R D L : Type*}

/-- The outcomes of a request. -/
def Outcome : Notice A Id R D L → Prop
  | established _ => True
  | closed (.noConnection _) _ none => True
  | _ => False

/-- What the tasks of established connections send. -/
def ofConnection : Notice A Id R D L → Bool
  | streamPacket _ => true
  | closed _ _ id => id.isSome
  | established _ => false

/-- What `publish` sends of an attempt. -/
def ofAttempt (address : A) : Except IoError Unit → Notice A Id R D L
  | .ok () => established address
  | .error err => closed (.noConnection err) address none

/-- The request that a notice answers, by its tag and its address. -/
def request? : Option ℕ × Notice A Id R D L → Option (Request A)
  | (some serial, established address) => some ⟨serial, address⟩
  | (some serial, closed _ address _) => some ⟨serial, address⟩
  | _ => none

end Notice

/-- `process_connection_requests`: at the stream of attempts, publishing one of
them, or handing on its connection. -/
inductive Requester (A : Type*)
  | selecting
  | publishing (request : Request A) (result : Except IoError Unit)
  | handing
  | done
  deriving DecidableEq, Repr

/-- Where an attempt that is published leaves the task. -/
def Requester.after {A : Type*} : Except IoError Unit → Requester A
  | .ok () => handing
  | .error _ => selecting

def Requester.requests {A : Type*} : Requester A → List (Request A)
  | publishing request _ => [request]
  | _ => []

/-- Where the frame is: between two, in the loop of `incoming_system`, or at its
commands. -/
inductive Intake (A Id R D L : Type*)
  | rest
  | draining (budget : ℕ) (commands : List (Option ℕ × Notice A Id R D L))
  | applying (commands : List (Option ℕ × Notice A Id R D L))

def Intake.commands {A Id R D L : Type*} : Intake A Id R D L → List (Option ℕ × Notice A Id R D L)
  | rest => []
  | draining _ commands => commands
  | applying commands => commands

/-- The client's side of the requests. `rejections` are the commands that the
observer has left; `requested` lists all requests, `discarded` those that went
with a task or a queue. -/
structure Client (A Id R D L : Type*) where
  worldOpen : Bool
  stopped : Bool
  requests : Mpsc (Request A)
  attempts : List (Request A)
  task : Requester A
  incoming : Mpsc (Option ℕ × Notice A Id R D L)
  intake : Intake A Id R D L
  rejections : List (Option ℕ × Notice A Id R D L)
  events : List (Option ℕ × Notice A Id R D L)
  requested : List (Request A)
  discarded : List (Request A)

namespace Client

variable {A Id R D L : Type*}

def maxConnectionAttempts : ℕ := 8

/-- `ClientPlugin::setup`. -/
def new (receiveCapacity : ℕ) : Client A Id R D L where
  worldOpen := true
  stopped := false
  requests := Mpsc.new (max receiveCapacity 1)
  attempts := []
  task := .selecting
  incoming := Mpsc.new (max receiveCapacity 1)
  intake := .rest
  rejections := []
  events := []
  requested := []
  discarded := []

/-! ### The steps -/

def rejection {T : Type*} : TrySendError T → ErrorKind
  | .full _ => .wouldBlock
  | .closed _ => .brokenPipe

/-- `ConnectionRequestSender::observe`. -/
def request (s : Client A Id R D L) (address : A) : Client A Id R D L :=
  if s.worldOpen then
    let request : Request A := ⟨s.requested.length, address⟩
    let s := { s with requested := s.requested ++ [request] }
    match s.requests.trySend request with
    | (.ok (), requests) => { s with requests := requests }
    | (.error err, _) =>
      { s with
        rejections := s.rejections ++ [(some request.serial,
          .closed (.noConnection ⟨rejection err, "connection request rejected"⟩) address none)] }
  else s

/-- The oldest command that the observer has left. -/
def reject (s : Client A Id R D L) : Client A Id R D L :=
  match s.rejections with
  | x :: rejections => { s with rejections := rejections, events := s.events ++ [x] }
  | [] => s

/-- The task ends or is dropped, with the receiver of the requests and the
attempts under way. -/
def endTask (s : Client A Id R D L) : Client A Id R D L :=
  { s with
    requests := { s.requests with items := [], receiverOpen := false }
    attempts := []
    task := .done
    discarded := s.discarded ++ (s.requests.items ++ s.attempts ++ s.task.requests) }

/-- `buffer_unordered` takes a request and starts an attempt. -/
def take (s : Client A Id R D L) : Client A Id R D L :=
  match s.task with
  | .selecting =>
    if s.attempts.length < maxConnectionAttempts then
      match s.requests.tryRecv with
      | (.ok request, requests) =>
        { s with requests := requests, attempts := s.attempts ++ [request] }
      | (.error .disconnected, _) => if s.attempts.isEmpty then s.endTask else s
      | (.error .empty, _) => s
    else s
  | _ => s

/-- The attempt `k` ends, and `publish` is called. -/
def connected (s : Client A Id R D L) (k : ℕ) (result : Except IoError Unit) : Client A Id R D L :=
  match s.task, s.attempts[k]? with
  | .selecting, some request =>
    { s with attempts := s.attempts.eraseIdx k, task := .publishing request result }
  | _, _ => s

/-- `ConnectionAttempt::publish`, at its first `send`. -/
def publish (s : Client A Id R D L) : Client A Id R D L :=
  match s.task with
  | .publishing request result =>
    match s.incoming.trySend (some request.serial, .ofAttempt request.address result) with
    | (.ok (), incoming) => { s with incoming := incoming, task := .after result }
    | (.error (.full _), _) => s
    | (.error (.closed _), _) =>
      match result with
      | .ok () => s.endTask
      | .error _ => { s with task := .selecting, discarded := s.discarded ++ [request] }
  | _ => s

/-- The raw connection is handed on, or finds its channel closed. -/
def handed (s : Client A Id R D L) : Client A Id R D L :=
  match s.task with
  | .handing => { s with task := .selecting }
  | _ => s

/-- A task of an established connection sends a message. -/
def send (s : Client A Id R D L) (notice : Notice A Id R D L) : Client A Id R D L :=
  if notice.ofConnection then
    match s.incoming.trySend (none, notice) with
    | (.ok (), incoming) => { s with incoming := incoming }
    | _ => s
  else s

def beginFrame (s : Client A Id R D L) (budget : ℕ) : Client A Id R D L :=
  match s.intake with
  | .rest => if s.worldOpen then { s with intake := .draining budget [] } else s
  | _ => s

/-- The frame's own next step. -/
def advance (s : Client A Id R D L) : Client A Id R D L :=
  match s.intake with
  | .rest => s
  | .draining 0 commands => { s with intake := .applying commands }
  | .draining (budget + 1) commands =>
    match s.incoming.tryRecv with
    | (.ok x, incoming) => { s with incoming := incoming, intake := .draining budget (commands ++ [x]) }
    | (.error _, _) => { s with intake := .applying commands }
  | .applying (x :: commands) => { s with intake := .applying commands, events := s.events ++ [x] }
  | .applying [] => { s with intake := .rest }

/-- The runtime stops its tasks. -/
def stop (s : Client A Id R D L) : Client A Id R D L := { s.endTask with stopped := true }

/-- The world is dropped, when no command is left. -/
def dropWorld (s : Client A Id R D L) : Client A Id R D L :=
  match s.intake, s.rejections with
  | .rest, [] =>
    { s with
      worldOpen := false
      requests := { s.requests with senders := 0 }
      incoming := { s.incoming with items := [], receiverOpen := false }
      discarded := s.discarded ++ s.incoming.items.filterMap Notice.request? }
  | _, _ => s

inductive Act (A Id R D L : Type*)
  | request (address : A)
  | reject
  | take
  | connected (k : ℕ) (result : Except IoError Unit)
  | publish
  | handed
  | send (notice : Notice A Id R D L)
  | beginFrame (budget : ℕ)
  | advance
  | stop
  | dropWorld

def step (s : Client A Id R D L) : Act A Id R D L → Client A Id R D L
  | .request address => s.request address
  | .reject => s.reject
  | .take => s.take
  | .connected k result => s.connected k result
  | .publish => s.publish
  | .handed => s.handed
  | .send notice => s.send notice
  | .beginFrame budget => s.beginFrame budget
  | .advance => s.advance
  | .stop => s.stop
  | .dropWorld => s.dropWorld

/-! ### The ledger -/

/-- Where a request waits: in the queue, under way, being published, or answered
in the lifecycle queue or by a command that is not applied yet. -/
def pending (s : Client A Id R D L) : List (Request A) :=
  s.requests.items ++ s.attempts ++ s.task.requests ++ s.incoming.items.filterMap Notice.request? ++
    (s.rejections ++ s.intake.commands).filterMap Notice.request?

/-- The requests whose outcome has been triggered. -/
def outcomes (s : Client A Id R D L) : List (Request A) := s.events.filterMap Notice.request?

/-- The notices on their way and those triggered. -/
def notices (s : Client A Id R D L) : List (Option ℕ × Notice A Id R D L) :=
  s.incoming.items ++ (s.rejections ++ s.intake.commands) ++ s.events

/-- What every step keeps. -/
structure Good (s : Client A Id R D L) : Prop where
  places : s.requested.Perm (s.pending ++ s.outcomes ++ s.discarded)
  serials : s.requested.map Request.serial = List.range s.requested.length
  tagged : ∀ x ∈ s.notices, x.1.isSome = true ↔ x.2.Outcome
  bound : s.attempts.length ≤ maxConnectionAttempts
  receiving : s.worldOpen = true → s.incoming.receiverOpen = true
  kept : s.worldOpen = true → s.stopped = false → s.discarded = []

theorem good_new (receiveCapacity : ℕ) : Good (new receiveCapacity : Client A Id R D L) :=
  ⟨List.Perm.refl _, rfl, fun _ h => (by cases h), Nat.zero_le _, fun _ => rfl, fun _ _ => rfl⟩

@[simp] theorem request?_ofAttempt (request : Request A) (result : Except IoError Unit) :
    Notice.request? (some request.serial, (.ofAttempt request.address result : Notice A Id R D L)) =
      some request := by
  cases result <;> rfl

/-- **A step of the tasks or of the frame** moves requests on, or discards some. -/
theorem Good.move {s s' : Client A Id R D L} (h : Good s) (lost : List (Request A))
    (hreq : s'.requested = s.requested) (hlost : s'.discarded = s.discarded ++ lost)
    (hplaces : (s.pending ++ s.outcomes).Perm (s'.pending ++ s'.outcomes ++ lost))
    (htagged : ∀ x ∈ s'.notices, x ∈ s.notices ∨ (x.1.isSome = true ↔ x.2.Outcome))
    (hbound : s'.attempts.length ≤ maxConnectionAttempts)
    (hopen : s'.worldOpen = true → s.worldOpen = true)
    (hrecv : s'.worldOpen = true → s'.incoming.receiverOpen = true)
    (hkept : s'.worldOpen = true → s'.stopped = false → lost = [] ∧ s.stopped = false) : Good s' := by
  refine ⟨perm_of_count fun r => ?_, by rw [hreq]; exact h.serials, fun x hx => ?_, hbound, hrecv,
    fun hw hs => ?_⟩
  · have hp := h.places.count_eq r
    have hm := hplaces.count_eq r
    simp only [hreq, hlost, List.count_append] at hp hm ⊢
    omega
  · exact (htagged x hx).elim (h.tagged x) id
  · obtain ⟨hnil, hs'⟩ := hkept hw hs
    rw [hlost, hnil, List.append_nil]
    exact h.kept (hopen hw) hs'

/-- Requests move on, and none is lost. -/
theorem Good.shift {s s' : Client A Id R D L} (h : Good s) (hreq : s'.requested = s.requested)
    (hlost : s'.discarded = s.discarded)
    (hplaces : (s.pending ++ s.outcomes).Perm (s'.pending ++ s'.outcomes))
    (htagged : ∀ x ∈ s'.notices, x ∈ s.notices ∨ (x.1.isSome = true ↔ x.2.Outcome))
    (hbound : s'.attempts.length ≤ maxConnectionAttempts) (hopen : s'.worldOpen = s.worldOpen)
    (hrecv : s'.incoming.receiverOpen = s.incoming.receiverOpen) (hstop : s'.stopped = s.stopped) :
    Good s' := by
  refine h.move [] hreq (by rw [hlost, List.append_nil]) (by rwa [List.append_nil]) htagged hbound
    (fun hw => hopen ▸ hw) (fun hw => ?_) fun _ hs => ⟨rfl, hstop ▸ hs⟩
  rw [hrecv]
  exact h.receiving (hopen ▸ hw)

/-- A notice is sent; it answers the request that the task lets go of, if any. -/
theorem Good.push {s : Client A Id R D L} (h : Good s) {x : Option ℕ × Notice A Id R D L}
    (htag : x.1.isSome = true ↔ x.2.Outcome) {task : Requester A}
    (htask : s.task.requests = task.requests ++ (Notice.request? x).toList) :
    Good { s with
      incoming := { s.incoming with items := s.incoming.items ++ [x] }
      task := task } := by
  refine h.shift rfl rfl (perm_of_count fun r => ?_) (fun y hy => ?_) h.bound rfl rfl rfl
  · have hone : [x].filterMap Notice.request? = (Notice.request? x).toList := by
      cases hx : Notice.request? x <;> simp [hx]
    simp only [pending, outcomes, htask, hone, List.filterMap_append, List.count_append]
    omega
  · simp only [notices, List.mem_append, List.mem_singleton] at hy ⊢
    rcases hy with ((hy | rfl) | hy) | hy
    · exact Or.inl (Or.inl (Or.inl hy))
    · exact Or.inr htag
    · exact Or.inl (Or.inl (Or.inr hy))
    · exact Or.inl (Or.inr hy)

/-- The observer's request is new, and is queued or has its rejection. -/
theorem Good.add {s s' : Client A Id R D L} (h : Good s) {address : A}
    (hreq : s'.requested = s.requested ++ [⟨s.requested.length, address⟩])
    (hplaces : (s.pending ++ [(⟨s.requested.length, address⟩ : Request A)]).Perm s'.pending)
    (hevents : s'.events = s.events) (hlost : s'.discarded = s.discarded)
    (htagged : ∀ x ∈ s'.notices, x ∈ s.notices ∨ (x.1.isSome = true ↔ x.2.Outcome))
    (hattempts : s'.attempts = s.attempts) (hopen : s'.worldOpen = s.worldOpen)
    (hin : s'.incoming = s.incoming) (hstop : s'.stopped = s.stopped) : Good s' := by
  refine ⟨perm_of_count fun r => ?_, ?_, fun x hx => (htagged x hx).elim (h.tagged x) id, ?_, ?_, ?_⟩
  · have hp := h.places.count_eq r
    have hm := hplaces.count_eq r
    simp only [hreq, outcomes, hevents, hlost, List.count_append] at hp hm ⊢
    omega
  · rw [hreq, List.map_append, h.serials, List.length_append, List.length_singleton, List.range_succ]
    rfl
  · rw [hattempts]
    exact h.bound
  · rw [hopen, hin]
    exact h.receiving
  · rw [hopen, hstop, hlost]
    exact h.kept

theorem good_request {s : Client A Id R D L} (h : Good s) (address : A) : Good (s.request address) := by
  unfold request
  split
  · simp only
    have hrejected : ∀ err : TrySendError (Request A), Good { s with
        requested := s.requested ++ [⟨s.requested.length, address⟩]
        rejections := s.rejections ++ [(some s.requested.length,
          .closed (.noConnection ⟨rejection err, "connection request rejected"⟩) address none)] } := by
      intro err
      refine h.add rfl (perm_of_count fun r => ?_) rfl rfl (fun x hx => ?_) rfl rfl rfl rfl
      · simp only [pending, List.filterMap_append, List.filterMap_cons, List.filterMap_nil,
          Notice.request?, List.count_append]
        omega
      · simp only [notices, List.mem_append, List.mem_singleton] at hx ⊢
        rcases hx with (hx | (hx | rfl) | hx) | hx
        · exact Or.inl (Or.inl (Or.inl hx))
        · exact Or.inl (Or.inl (Or.inr (Or.inl hx)))
        · exact Or.inr ⟨fun _ => trivial, fun _ => rfl⟩
        · exact Or.inl (Or.inl (Or.inr (Or.inr hx)))
        · exact Or.inl (Or.inr hx)
    rcases s.requests.trySend_cases ⟨s.requested.length, address⟩ with ⟨he, -⟩ | ⟨he, -⟩ | ⟨he, -⟩
    · rw [he]
      refine h.add rfl (perm_of_count fun r => ?_) rfl rfl (fun x hx => Or.inl hx) rfl rfl rfl rfl
      simp only [pending, List.count_append]
      omega
    · rw [he]
      exact hrejected _
    · rw [he]
      exact hrejected _
  · exact h

theorem good_reject {s : Client A Id R D L} (h : Good s) : Good s.reject := by
  unfold reject
  split
  · rename_i x rejections hr
    have hfirst : s.rejections = [x] ++ rejections := hr
    refine h.shift rfl rfl (perm_of_count fun r => ?_) (fun y hy => Or.inl ?_) h.bound rfl rfl rfl
    · simp only [pending, outcomes, hfirst, List.filterMap_append, List.count_append]
      omega
    · simp only [notices, hfirst, List.mem_append] at hy ⊢
      tauto
  · exact h

/-- The task ends with nothing at hand, or it is stopped, or the world is gone. -/
theorem Good.endTask {s : Client A Id R D L} (h : Good s) {stopped : Bool}
    (hlost : s.worldOpen = true → stopped = false →
      s.requests.items ++ s.attempts ++ s.task.requests = [] ∧ s.stopped = false) :
    Good { s.endTask with stopped := stopped } := by
  refine h.move _ rfl rfl (perm_of_count fun r => ?_) (fun x hx => Or.inl hx) (Nat.zero_le _) id
    h.receiving hlost
  simp only [pending, outcomes, Client.endTask, Requester.requests, List.count_append, List.count_nil]
  omega

theorem good_take {s : Client A Id R D L} (h : Good s) : Good s.take := by
  unfold take
  split
  · rename_i ht
    split
    · rename_i hroom
      rw [Mpsc.tryRecv]
      cases hitems : s.requests.items with
      | cons request rest =>
        have hfirst : s.requests.items = [request] ++ rest := hitems
        refine h.shift rfl rfl (perm_of_count fun r => ?_) (fun x hx => Or.inl hx) ?_ rfl rfl rfl
        · simp only [pending, outcomes, hfirst, List.count_append]
          omega
        · simp only [List.length_append, List.length_singleton]
          omega
      | nil =>
        simp only
        split
        · rename_i he
          simp at he
        · split
          · rename_i hempty
            refine h.endTask fun _ hs => ⟨?_, hs⟩
            simp [hitems, List.isEmpty_iff.mp hempty, ht, Requester.requests]
          · exact h
        · exact h
    · exact h
  · exact h

theorem good_connected {s : Client A Id R D L} (h : Good s) (k : ℕ) (result : Except IoError Unit) :
    Good (s.connected k result) := by
  unfold connected
  split
  · rename_i request ht hk
    have hout := flatMap_perm_eraseIdx (fun r : Request A => [r]) hk
    simp only [List.flatMap_singleton'] at hout
    refine h.shift rfl rfl (perm_of_count fun r => ?_) (fun x hx => Or.inl hx) ?_ rfl rfl rfl
    · have hc := hout.count_eq r
      simp only [pending, outcomes, ht, Requester.requests, List.count_append, List.count_nil] at hc ⊢
      omega
    · exact (List.length_eraseIdx_le s.attempts k).trans h.bound
  · exact h

theorem outcome_ofAttempt (address : A) (result : Except IoError Unit) :
    (Notice.ofAttempt address result : Notice A Id R D L).Outcome := by
  cases result <;> trivial

/-- An attempt is published: its message is sent, waits, or finds the world gone. -/
theorem good_publish {s : Client A Id R D L} (h : Good s) : Good s.publish := by
  unfold publish
  split
  · rename_i request result ht
    rcases s.incoming.trySend_cases (some request.serial, .ofAttempt request.address result) with
      ⟨he, -⟩ | ⟨he, hclosed⟩ | ⟨he, -⟩
    · rw [he]
      refine h.push ⟨fun _ => outcome_ofAttempt _ _, fun _ => rfl⟩ ?_
      rw [ht, request?_ofAttempt]
      cases result <;> rfl
    · -- the receiver is gone only with the world
      have hgone : s.worldOpen = true → False := fun hw => by
        rw [h.receiving hw] at hclosed
        cases hclosed
      rw [he]
      cases result with
      | ok => exact h.endTask fun hw => (hgone hw).elim
      | error err =>
        refine h.move [request] rfl rfl (perm_of_count fun r => ?_) (fun x hx => Or.inl hx) h.bound id
          h.receiving fun hw => (hgone hw).elim
        simp only [pending, outcomes, ht, Requester.requests, List.count_append, List.count_nil]
        omega
    · rw [he]
      exact h
  · exact h

theorem good_handed {s : Client A Id R D L} (h : Good s) : Good s.handed := by
  unfold handed
  split
  · rename_i ht
    refine h.shift rfl rfl ?_ (fun x hx => Or.inl hx) h.bound rfl rfl rfl
    simp [pending, outcomes, ht, Requester.requests]
  · exact h

theorem not_outcome_ofConnection {notice : Notice A Id R D L} (h : notice.ofConnection = true) :
    ¬ notice.Outcome := by
  cases notice with
  | established address => cases h
  | streamPacket packet => exact fun ho => ho
  | closed error address id =>
    cases id with
    | none => cases h
    | some id => cases error <;> exact fun ho => ho

theorem good_send {s : Client A Id R D L} (h : Good s) (notice : Notice A Id R D L) :
    Good (s.send notice) := by
  unfold send
  split
  · rename_i hof
    rcases s.incoming.trySend_cases (none, notice) with ⟨he, -⟩ | ⟨he, -⟩ | ⟨he, -⟩
    · rw [he]
      refine h.push ⟨fun ht => (by cases ht), fun ho => absurd ho (not_outcome_ofConnection hof)⟩ ?_
      exact (List.append_nil _).symm
    · rw [he]
      exact h
    · rw [he]
      exact h
  · exact h

/-- The frame takes a message from the queue, or applies a command. -/
theorem Good.intake {s s' : Client A Id R D L} (h : Good s) (hreq : s'.requested = s.requested)
    (hlost : s'.discarded = s.discarded) (hq : s'.requests.items = s.requests.items)
    (hattempts : s'.attempts = s.attempts) (htask : s'.task = s.task)
    (hplaces : s'.notices.Perm s.notices) (hopen : s'.worldOpen = s.worldOpen)
    (hstop : s'.stopped = s.stopped) (hrecv : s'.incoming.receiverOpen = s.incoming.receiverOpen) :
    Good s' := by
  refine h.shift hreq hlost (perm_of_count fun r => ?_) (fun x hx => Or.inl (hplaces.subset hx))
    (by rw [hattempts]; exact h.bound) hopen hrecv hstop
  have hc := (hplaces.filterMap Notice.request?).count_eq r
  simp only [notices, pending, outcomes, hq, hattempts, htask, List.filterMap_append,
    List.count_append] at hc ⊢
  omega

theorem good_advance {s : Client A Id R D L} (h : Good s) : Good s.advance := by
  unfold advance
  split
  · exact h
  · rename_i commands hi
    exact h.intake rfl rfl rfl rfl rfl (by simp [notices, hi, Intake.commands]) rfl rfl rfl
  · rename_i budget commands hi
    rw [Mpsc.tryRecv]
    cases hitems : s.incoming.items with
    | nil => exact h.intake rfl rfl rfl rfl rfl (by simp [notices, hi, Intake.commands]) rfl rfl rfl
    | cons x rest =>
      refine h.intake rfl rfl rfl rfl rfl (perm_of_count fun y => ?_) rfl rfl rfl
      have hfirst : s.incoming.items = [x] ++ rest := hitems
      simp only [notices, hi, hfirst, Intake.commands, List.count_append]
      omega
  · rename_i x commands hi
    refine h.intake rfl rfl rfl rfl rfl (perm_of_count fun y => ?_) rfl rfl rfl
    have hfirst : x :: commands = [x] ++ commands := rfl
    simp only [notices, hi, hfirst, Intake.commands, List.count_append]
    omega
  · rename_i hi
    exact h.intake rfl rfl rfl rfl rfl (by simp [notices, hi, Intake.commands]) rfl rfl rfl

theorem good_dropWorld {s : Client A Id R D L} (h : Good s) : Good s.dropWorld := by
  unfold dropWorld
  split
  · rename_i hi hr
    refine h.move _ rfl rfl (perm_of_count fun r => ?_) (fun x hx => Or.inl ?_) h.bound
      (fun hw => (by cases hw)) (fun hw => (by cases hw)) (fun hw => (by cases hw))
    · simp only [pending, outcomes, hi, hr, Intake.commands, List.filterMap_append, List.filterMap_nil,
        List.count_append, List.count_nil]
      omega
    · simp only [notices, hi, hr, List.nil_append, List.mem_append] at hx ⊢
      tauto
  · exact h

theorem good_step {s : Client A Id R D L} (h : Good s) (a : Act A Id R D L) : Good (s.step a) := by
  cases a with
  | request address => exact good_request h address
  | reject => exact good_reject h
  | take => exact good_take h
  | connected k result => exact good_connected h k result
  | publish => exact good_publish h
  | handed => exact good_handed h
  | send notice => exact good_send h notice
  | beginFrame budget =>
    simp only [step, beginFrame]
    split
    · rename_i hi
      split
      · exact h.intake rfl rfl rfl rfl rfl (by simp [notices, hi, Intake.commands]) rfl rfl rfl
      · exact h
    · exact h
  | advance => exact good_advance h
  | stop => exact h.endTask fun _ hs => (by cases hs)
  | dropWorld => exact good_dropWorld h

theorem good_run (receiveCapacity : ℕ) (as : List (Act A Id R D L)) :
    Good (run step (new receiveCapacity) as) :=
  run_inv (I := Good) (fun _ a h => good_step h a) as (good_new receiveCapacity)

end Client
end Slinet
