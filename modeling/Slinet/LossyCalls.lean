/-
# The waiting calls of the lossy queue are its operations

`Slinet.Lossy` has the queue with each operation in one piece; `Slinet.LossyWake`
has the calls as they run, in pieces, with waiters that come and go. Here the two
are put together: along a run of the pieces, `Calls` keeps the operations in the
order of their lock sections, and what the callers have seen.

The lock sections, in the order in which they happen, are a run of the queue that
ends in the same state, with the same items accepted and departed (`record_history`):
each call takes effect in one of its steps. So nothing is lost or turned round by
waiting, and a call that is dropped while it waits has had no effect: each `send`
is sent, fails, is cancelled or still holds its item, and what is in the queue or
has left it are the items sent, once each (`calls_take_effect_once`).
-/
import Slinet.LossyWake

namespace Slinet
namespace LossyWake

open Lossy

variable {T : Type*} {q : Limits}

/-- How a `send` call ends. -/
inductive SendEnd
  | sent
  | failed
  | cancelled
  deriving DecidableEq, Repr

/-- How an item leaves the queue. -/
inductive Departure
  | received
  | evicted
  | drained
  deriving DecidableEq, Repr

/-- The item that a `send` call has not placed yet. -/
def SendPc.held : SendPc T → List T
  | .top value _ _ => [value]
  | .enabled value _ _ _ => [value]
  | .waiting value _ _ => [value]
  | _ => []

/-- What one step adds to the account: the operation of its lock section, the
`send` that begins or ends, by caller, the items accepted, with the caller of
`send` if there is one, and the items that leave. -/
structure Record (T : Type*) where
  ops : List (Op T) := []
  begun : List (ℕ × T) := []
  ended : List (ℕ × T × SendEnd) := []
  accepted : List (Option ℕ × T) := []
  departed : List (Departure × T) := []

def record (s : Sys q T) : Act T → Record T
  | .clone => if s.queue.state.senders = 0 then {} else { ops := [.clone] }
  | .dropSender => if s.queue.state.senders = 0 then {} else { ops := [.dropSender] }
  | .trySendWhere value bytes canEvict =>
    match (s.queue.trySendWhere value bytes canEvict).1 with
    | .ok evicted =>
      { ops := [.trySendWhere value bytes canEvict]
        accepted := [(none, value)]
        departed := evicted.map (Prod.mk .evicted) }
    | .error _ => { ops := [.trySendWhere value bytes canEvict] }
  | .sendStart i value bytes =>
    match s.sends i with
    | .idle =>
      if q.maxItems = 0 ∨ bytes > q.maxBytes then { begun := [(i, value)], ended := [(i, value, .failed)] }
      else { begun := [(i, value)] }
    | _ => {}
  | .sendLock i =>
    match s.sends i with
    | .enabled value bytes _ _ =>
      match (s.queue.sendTurn value bytes).1 with
      | .sent =>
        { ops := [.send value bytes], ended := [(i, value, .sent)], accepted := [(some i, value)] }
      | .failed _ => { ops := [.send value bytes], ended := [(i, value, .failed)] }
      | .blocked => { ops := [.send value bytes] }
    | _ => {}
  | .sendCancel i =>
    match s.sends i with
    | .waiting value _ _ => { ended := [(i, value, .cancelled)] }
    | _ => {}
  | .recvLock =>
    match s.recv with
    | .enabled _ =>
      match s.queue.tryRecv.1 with
      | .ok item => { ops := [.tryRecvIf fun _ => true], departed := [(.received, item)] }
      | .error _ => { ops := [.tryRecvIf fun _ => true] }
    | _ => {}
  | .tryRecvIf ready =>
    match s.recv with
    | .idle =>
      match (s.queue.tryRecvIf ready).1 with
      | .ok item => { ops := [.tryRecvIf ready], departed := [(.received, item)] }
      | .error _ => { ops := [.tryRecvIf ready] }
    | _ => {}
  | .closeAndDrain =>
    match s.recv with
    | .idle =>
      { ops := [.closeAndDrain], departed := s.queue.closeAndDrain.1.map (Prod.mk .drained) }
    | _ => {}
  | _ => {}

/-- A run with its account. -/
structure Calls (q : Limits) (T : Type*) where
  sys : Sys q T
  account : Record T

namespace Calls

def new : Calls q T := ⟨Sys.new, {}⟩

def step (h : Calls q T) (a : Act T) : Calls q T where
  sys := h.sys.step a
  account :=
    { ops := h.account.ops ++ (record h.sys a).ops
      begun := h.account.begun ++ (record h.sys a).begun
      ended := h.account.ended ++ (record h.sys a).ended
      accepted := h.account.accepted ++ (record h.sys a).accepted
      departed := h.account.departed ++ (record h.sys a).departed }

/-- The account as a history of the queue in one piece. -/
def history (h : Calls q T) : History T :=
  ⟨h.sys.queue.state, h.account.accepted.map Prod.snd, h.account.departed.map Prod.snd⟩

end Calls

/-! ### The lock sections -/

section Queue

variable {s s' : Queue q T}

theorem state_trySendWhere {value : T} {bytes : ℕ} {canEvict : T → Bool}
    {result : Except (TrySendError T) (List T)} (h : s.trySendWhere value bytes canEvict = (result, s')) :
    Lossy.trySendWhere q s.state value bytes canEvict = (result, s'.state) := by
  have hfst : (Lossy.trySendWhere q s.state value bytes canEvict).1 = result := congrArg Prod.fst h
  have hsnd : (Lossy.trySendWhere q s.state value bytes canEvict).2 = s'.state := congrArg (fun x => x.2.state) h
  exact Prod.ext hfst hsnd

theorem state_sendTurn {value : T} {bytes : ℕ} {result : SendTurn T}
    (h : s.sendTurn value bytes = (result, s')) :
    Lossy.sendTurn q s.state value bytes = (result, s'.state) := by
  have hfst : (Lossy.sendTurn q s.state value bytes).1 = result := congrArg Prod.fst h
  have hsnd : (Lossy.sendTurn q s.state value bytes).2 = s'.state := congrArg (fun x => x.2.state) h
  exact Prod.ext hfst hsnd

theorem state_tryRecvIf {ready : T → Bool} {result : Except TryRecvError T}
    (h : s.tryRecvIf ready = (result, s')) : Lossy.tryRecvIf s.state ready = (result, s'.state) := by
  have hfst : (Lossy.tryRecvIf s.state ready).1 = result := congrArg Prod.fst h
  have hsnd : (Lossy.tryRecvIf s.state ready).2 = s'.state := congrArg (fun x => x.2.state) h
  exact Prod.ext hfst hsnd

end Queue

@[simp] theorem queue_setSend (s : Sys q T) (i : ℕ) (pc : SendPc T) : (s.setSend i pc).queue = s.queue := rfl

/-- **A step is its lock section**: on the queue it does what the operation does
in one piece, if it has one, and otherwise nothing. -/
theorem record_history (s : Sys q T) (a : Act T) (accepted departed : List T) :
    run (History.step q) ⟨s.queue.state, accepted, departed⟩ (record s a).ops =
      ⟨(s.step a).queue.state, accepted ++ (record s a).accepted.map Prod.snd,
        departed ++ (record s a).departed.map Prod.snd⟩ := by
  cases a with
  | clone =>
    simp only [record, Sys.step]
    split_ifs
    · simp
    · simp [History.step, Queue.clone]
  | dropSender =>
    simp only [record, Sys.step, Sys.dropSender]
    split_ifs
    · simp
    · simp [History.step, Queue.dropSender]
    · simp [History.step, Queue.dropSender]
  | trySendWhere value bytes canEvict =>
    simp only [record, Sys.step, Sys.trySendWhere]
    rcases hturn : s.queue.trySendWhere value bytes canEvict with ⟨result, queue⟩
    have hop := state_trySendWhere hturn
    cases result with
    | ok evicted => simp [History.step, hop, Function.comp_def]
    | error e => simp [History.step, hop]
  | sendLock i =>
    simp only [record, Sys.step, Sys.sendLock]
    cases s.sends i with
    | enabled value bytes woken done =>
      simp only
      rcases hturn : s.queue.sendTurn value bytes with ⟨result, queue⟩
      have hop := state_sendTurn hturn
      cases result with
      | sent => simp [History.step, hop]
      | failed e => simp [History.step, hop]
      | blocked => simp [History.step, hop]
    | _ => simp
  | recvLock =>
    simp only [record, Sys.step, Sys.recvLock, Queue.tryRecv]
    cases s.recv with
    | enabled done =>
      simp only
      rcases hturn : s.queue.tryRecvIf fun _ => true with ⟨result, queue⟩
      have hop := state_tryRecvIf hturn
      cases result with
      | ok item => simp [History.step, hop]
      | error e => cases e <;> simp [History.step, hop]
    | _ => simp
  | tryRecvIf ready =>
    simp only [record, Sys.step, Sys.tryRecvIf]
    cases s.recv with
    | idle =>
      simp only
      rcases hturn : s.queue.tryRecvIf ready with ⟨result, queue⟩
      have hop := state_tryRecvIf hturn
      cases result with
      | ok item => simp [History.step, hop]
      | error e => simp [History.step, hop]
    | _ => simp
  | closeAndDrain =>
    simp only [record, Sys.step, Sys.closeAndDrain]
    cases s.recv with
    | idle => simp [History.step, Queue.closeAndDrain, Function.comp_def]
    | _ => simp
  | fireAll =>
    simp only [record, Sys.step, Sys.fireAll]
    split_ifs <;> simp
  | fireOne =>
    simp only [record, Sys.step, Sys.fireOne]
    split_ifs <;> simp
  | sendStart i value bytes =>
    simp only [record, Sys.step, Sys.sendStart]
    cases s.sends i with
    | idle =>
      simp only
      split_ifs <;> simp
    | _ => simp
  | sendEnable i =>
    simp only [record, Sys.step, Sys.sendEnable]
    split <;> simp
  | sendNotify i =>
    simp only [record, Sys.step, Sys.sendNotify]
    split <;> simp
  | sendLeave i =>
    simp only [record, Sys.step, Sys.sendLeave]
    split <;> simp
  | sendResume i =>
    simp only [record, Sys.step, Sys.sendResume]
    split
    · simp
    · split_ifs <;> simp
    · simp
  | sendCancel i =>
    simp only [record, Sys.step, Sys.sendCancel]
    cases s.sends i with
    | waiting value bytes done => cases done <;> simp
    | _ => simp
  | recvStart =>
    simp only [record, Sys.step, Sys.recvStart]
    split <;> simp
  | recvEnable =>
    simp only [record, Sys.step, Sys.recvEnable]
    split <;> simp
  | recvNotify =>
    simp only [record, Sys.step, Sys.recvNotify]
    split <;> simp
  | recvLeave =>
    simp only [record, Sys.step, Sys.recvLeave]
    split <;> simp
  | recvResume =>
    simp only [record, Sys.step, Sys.recvResume]
    split
    · simp
    · split_ifs <;> simp
    · simp
  | recvCancel =>
    simp only [record, Sys.step, Sys.recvCancel]
    split <;> simp
  | takenNotify =>
    simp only [record, Sys.step, Sys.takenNotify]
    split <;> simp
  | closeNotifyChanged =>
    simp only [record, Sys.step, Sys.closeNotifyChanged]
    split <;> simp
  | closeNotifySpace =>
    simp only [record, Sys.step, Sys.closeNotifySpace]
    split <;> simp

/-! ### The calls of one sender -/

/-- The entries of the caller `i`. -/
def ofCaller {A : Type*} (i : ℕ) (l : List (ℕ × A)) : List A :=
  l.filterMap fun x => if x.1 = i then some x.2 else none

/-- The items that its `send` calls have placed, by their ends. -/
def sentBy (i : ℕ) (ended : List (ℕ × T × SendEnd)) : List T :=
  (ofCaller i ended).filterMap fun x => if x.2 = .sent then some x.1 else none

/-- The items that the queue has accepted from its `send` calls. -/
def acceptedFrom (i : ℕ) (accepted : List (Option ℕ × T)) : List T :=
  accepted.filterMap fun x => if x.1 = some i then some x.2 else none

/-- The caller whose `send` a step belongs to. -/
def Act.caller? : Act T → Option ℕ
  | .sendStart i _ _ => some i
  | .sendEnable i => some i
  | .sendLock i => some i
  | .sendNotify i => some i
  | .sendLeave i => some i
  | .sendResume i => some i
  | .sendCancel i => some i
  | _ => none

/-- A step of no `send` call leaves them all alone. -/
theorem record_quiet (s : Sys q T) {a : Act T} (ha : a.caller? = none) :
    (record s a).begun = [] ∧ (record s a).ended = [] ∧ (s.step a).sends = s.sends ∧
      ∀ x ∈ (record s a).accepted, x.1 = none := by
  cases a with
  | clone =>
    simp only [record, Sys.step]
    split_ifs <;> simp
  | dropSender =>
    simp only [record, Sys.step, Sys.dropSender]
    split_ifs <;> simp
  | fireAll =>
    simp only [record, Sys.step, Sys.fireAll]
    split_ifs <;> simp
  | trySendWhere value bytes canEvict =>
    simp only [record, Sys.step, Sys.trySendWhere]
    rcases s.queue.trySendWhere value bytes canEvict with ⟨result, queue⟩
    cases result <;> simp
  | fireOne =>
    simp only [record, Sys.step, Sys.fireOne]
    split_ifs <;> simp
  | recvStart =>
    simp only [record, Sys.step, Sys.recvStart]
    split <;> simp
  | recvEnable =>
    simp only [record, Sys.step, Sys.recvEnable]
    split <;> simp
  | recvLock =>
    simp only [record, Sys.step, Sys.recvLock]
    cases s.recv with
    | enabled done =>
      simp only
      rcases s.queue.tryRecv with ⟨result, queue⟩
      cases result with
      | ok item => simp
      | error e => cases e <;> simp
    | _ => simp
  | recvNotify =>
    simp only [record, Sys.step, Sys.recvNotify]
    split <;> simp
  | recvLeave =>
    simp only [record, Sys.step, Sys.recvLeave]
    split <;> simp
  | recvResume =>
    simp only [record, Sys.step, Sys.recvResume]
    split
    · simp
    · split_ifs <;> simp
    · simp
  | recvCancel =>
    simp only [record, Sys.step, Sys.recvCancel]
    split <;> simp
  | tryRecvIf ready =>
    simp only [record, Sys.step, Sys.tryRecvIf]
    cases s.recv with
    | idle =>
      simp only
      rcases s.queue.tryRecvIf ready with ⟨result, queue⟩
      cases result <;> simp
    | _ => simp
  | takenNotify =>
    simp only [record, Sys.step, Sys.takenNotify]
    split <;> simp
  | closeAndDrain =>
    simp only [record, Sys.step, Sys.closeAndDrain]
    cases s.recv <;> simp
  | closeNotifyChanged =>
    simp only [record, Sys.step, Sys.closeNotifyChanged]
    split <;> simp
  | closeNotifySpace =>
    simp only [record, Sys.step, Sys.closeNotifySpace]
    split <;> simp
  | _ => cases ha

/-- What a step of the caller `k` does to its call: the item that it holds or
begins with is placed, refused, given up, or still held. -/
structure Moves (s : Sys q T) (a : Act T) (k : ℕ) : Prop where
  account : ∃ (began : List T) (ended : List (T × SendEnd)) (accepted : List T),
    (record s a).begun = began.map (Prod.mk k) ∧
    (record s a).ended = ended.map (Prod.mk k) ∧
    (record s a).accepted = accepted.map (Prod.mk (some k)) ∧
    (s.sends k).held ++ began = ended.map Prod.fst ++ ((s.step a).sends k).held ∧
    ended.filterMap (fun x => if x.2 = .sent then some x.1 else none) = accepted
  others : ∀ i, i ≠ k → (s.step a).sends i = s.sends i

theorem moves_step (s : Sys q T) {a : Act T} {k : ℕ} (ha : a.caller? = some k) : Moves s a k := by
  have hothers : ∀ {s' : Sys q T} {pc : SendPc T}, s'.sends = (s.setSend k pc).sends →
      ∀ i, i ≠ k → s'.sends i = s.sends i := by
    intro s' pc hs' i hi
    rw [hs']
    exact setSend_sends_ne s pc hi
  cases a with
  | sendStart i value bytes =>
    obtain rfl : i = k := by simpa [Act.caller?] using ha
    cases hpc : s.sends i with
    | idle =>
      by_cases hsize : q.maxItems = 0 ∨ bytes > q.maxBytes
      · refine ⟨⟨[value], [(value, .failed)], [], ?_⟩, ?_⟩
        · simp [record, Sys.step, Sys.sendStart, hpc, hsize, SendPc.held]
        · simp [Sys.step, Sys.sendStart, hpc, hsize]
      · refine ⟨⟨[value], [], [], ?_⟩, ?_⟩
        · simp [record, Sys.step, Sys.sendStart, hpc, hsize, SendPc.held]
        · simp only [Sys.step, Sys.sendStart, hpc, hsize, if_false]
          exact hothers rfl
    | _ => exact ⟨⟨[], [], [], by simp [record, Sys.step, Sys.sendStart, hpc]⟩,
        by simp [Sys.step, Sys.sendStart, hpc]⟩
  | sendEnable i =>
    obtain rfl : i = k := by simpa [Act.caller?] using ha
    cases hpc : s.sends i with
    | top value bytes woken =>
      refine ⟨⟨[], [], [], ?_⟩, ?_⟩
      · simp [record, Sys.step, Sys.sendEnable, hpc, SendPc.held]
      · simp only [Sys.step, Sys.sendEnable, hpc]
        exact hothers rfl
    | _ => exact ⟨⟨[], [], [], by simp [record, Sys.step, Sys.sendEnable, hpc]⟩,
        by simp [Sys.step, Sys.sendEnable, hpc]⟩
  | sendLock i =>
    obtain rfl : i = k := by simpa [Act.caller?] using ha
    cases hpc : s.sends i with
    | enabled value bytes woken done =>
      rcases hturn : s.queue.sendTurn value bytes with ⟨result, queue⟩
      cases result with
      | sent =>
        refine ⟨⟨[], [(value, .sent)], [value], ?_⟩, ?_⟩
        · simp [record, Sys.step, Sys.sendLock, hpc, hturn, SendPc.held]
        · simp only [Sys.step, Sys.sendLock, hpc, hturn]
          exact hothers rfl
      | failed e =>
        refine ⟨⟨[], [(value, .failed)], [], ?_⟩, ?_⟩
        · simp [record, Sys.step, Sys.sendLock, hpc, hturn, SendPc.held]
        · simp only [Sys.step, Sys.sendLock, hpc, hturn]
          exact hothers rfl
      | blocked =>
        refine ⟨⟨[], [], [], ?_⟩, ?_⟩
        · simp [record, Sys.step, Sys.sendLock, hpc, hturn, SendPc.held]
        · simp only [Sys.step, Sys.sendLock, hpc, hturn]
          exact hothers rfl
    | _ => exact ⟨⟨[], [], [], by simp [record, Sys.step, Sys.sendLock, hpc]⟩,
        by simp [Sys.step, Sys.sendLock, hpc]⟩
  | sendNotify i =>
    obtain rfl : i = k := by simpa [Act.caller?] using ha
    cases hpc : s.sends i with
    | pushed done =>
      refine ⟨⟨[], [], [], ?_⟩, ?_⟩
      · simp [record, Sys.step, Sys.sendNotify, hpc, SendPc.held]
      · simp only [Sys.step, Sys.sendNotify, hpc]
        exact hothers rfl
    | _ => exact ⟨⟨[], [], [], by simp [record, Sys.step, Sys.sendNotify, hpc]⟩,
        by simp [Sys.step, Sys.sendNotify, hpc]⟩
  | sendLeave i =>
    obtain rfl : i = k := by simpa [Act.caller?] using ha
    cases hpc : s.sends i with
    | leaving done =>
      refine ⟨⟨[], [], [], ?_⟩, ?_⟩
      · cases done <;> simp [record, Sys.step, Sys.sendLeave, hpc, SendPc.held]
      · cases done with
        | true =>
          simp only [Sys.step, Sys.sendLeave, hpc]
          exact hothers rfl
        | false =>
          simp only [Sys.step, Sys.sendLeave, hpc]
          exact hothers rfl
    | _ => exact ⟨⟨[], [], [], by simp [record, Sys.step, Sys.sendLeave, hpc]⟩,
        by simp [Sys.step, Sys.sendLeave, hpc]⟩
  | sendResume i =>
    obtain rfl : i = k := by simpa [Act.caller?] using ha
    cases hpc : s.sends i with
    | waiting value bytes done =>
      cases done with
      | true =>
        refine ⟨⟨[], [], [], ?_⟩, ?_⟩
        · simp [record, Sys.step, Sys.sendResume, hpc, SendPc.held]
        · simp only [Sys.step, Sys.sendResume, hpc]
          exact hothers rfl
      | false =>
        by_cases hwoken : s.space.woken i = none
        · refine ⟨⟨[], [], [], ?_⟩, ?_⟩
          · simp [record, Sys.step, Sys.sendResume, hpc, hwoken]
          · simp [Sys.step, Sys.sendResume, hpc, hwoken]
        · refine ⟨⟨[], [], [], ?_⟩, ?_⟩
          · simp [record, Sys.step, Sys.sendResume, hpc, hwoken, SendPc.held]
          · simp only [Sys.step, Sys.sendResume, hpc, hwoken, if_false]
            exact hothers rfl
    | _ => exact ⟨⟨[], [], [], by simp [record, Sys.step, Sys.sendResume, hpc]⟩,
        by simp [Sys.step, Sys.sendResume, hpc]⟩
  | sendCancel i =>
    obtain rfl : i = k := by simpa [Act.caller?] using ha
    cases hpc : s.sends i with
    | waiting value bytes done =>
      refine ⟨⟨[], [(value, .cancelled)], [], ?_⟩, ?_⟩
      · cases done <;> simp [record, Sys.step, Sys.sendCancel, hpc, SendPc.held]
      · cases done with
        | true =>
          simp only [Sys.step, Sys.sendCancel, hpc]
          exact hothers rfl
        | false =>
          simp only [Sys.step, Sys.sendCancel, hpc]
          exact hothers rfl
    | _ => exact ⟨⟨[], [], [], by simp [record, Sys.step, Sys.sendCancel, hpc]⟩,
        by simp [Sys.step, Sys.sendCancel, hpc]⟩
  | _ => cases ha

/-! ### Whole runs -/

namespace Calls

/-- What every step keeps. -/
structure Good (h : Calls q T) : Prop where
  history : run (History.step q) History.new h.account.ops = h.history
  calls : ∀ i, ofCaller i h.account.begun =
    (ofCaller i h.account.ended).map Prod.fst ++ (h.sys.sends i).held
  sent : ∀ i, sentBy i h.account.ended = acceptedFrom i h.account.accepted

theorem good_new : Good (new : Calls q T) := ⟨rfl, fun _ => rfl, fun _ => rfl⟩

theorem history_step {h : Calls q T} (hg : Good h) (a : Act T) :
    run (History.step q) History.new (h.step a).account.ops = (h.step a).history := by
  rw [step, run_append, hg.history, history, record_history, history]
  simp only [List.map_append]

variable {i k : ℕ}

theorem ofCaller_map_self {A : Type*} (l : List A) : ofCaller i (l.map (Prod.mk i)) = l := by
  rw [ofCaller, List.filterMap_map]
  simp

theorem ofCaller_map_ne {A : Type*} (h : i ≠ k) (l : List A) : ofCaller i (l.map (Prod.mk k)) = [] := by
  rw [ofCaller, List.filterMap_map]
  simp [Ne.symm h]

theorem ofCaller_append {A : Type*} (l l' : List (ℕ × A)) :
    ofCaller i (l ++ l') = ofCaller i l ++ ofCaller i l' :=
  List.filterMap_append ..

theorem sentBy_append (l l' : List (ℕ × T × SendEnd)) : sentBy i (l ++ l') = sentBy i l ++ sentBy i l' := by
  rw [sentBy, ofCaller_append, List.filterMap_append, sentBy, sentBy]

theorem acceptedFrom_append (l l' : List (Option ℕ × T)) :
    acceptedFrom i (l ++ l') = acceptedFrom i l ++ acceptedFrom i l' :=
  List.filterMap_append ..

theorem calls_step {h : Calls q T} (hg : Good h) (a : Act T) (i : ℕ) :
    ofCaller i (h.step a).account.begun =
      (ofCaller i (h.step a).account.ended).map Prod.fst ++ ((h.step a).sys.sends i).held := by
  have hbefore := hg.calls i
  simp only [step, ofCaller_append, List.map_append]
  cases ha : a.caller? with
  | none =>
    obtain ⟨hbegun, hended, hsends, -⟩ := record_quiet h.sys ha
    rw [hbegun, hended, hsends]
    simpa [ofCaller] using hbefore
  | some k =>
    obtain ⟨⟨began, ended, accepted, hbegun, hended, -, hmove, -⟩, hothers⟩ := moves_step h.sys ha
    rw [hbegun, hended]
    by_cases hi : i = k
    · subst hi
      rw [ofCaller_map_self, ofCaller_map_self, hbefore, List.append_assoc, hmove, List.append_assoc]
    · rw [ofCaller_map_ne hi, ofCaller_map_ne hi, hothers i hi]
      simpa using hbefore

theorem sent_step {h : Calls q T} (hg : Good h) (a : Act T) (i : ℕ) :
    sentBy i (h.step a).account.ended = acceptedFrom i (h.step a).account.accepted := by
  have hbefore := hg.sent i
  simp only [step, sentBy_append, acceptedFrom_append, hbefore]
  congr 1
  cases ha : a.caller? with
  | none =>
    obtain ⟨-, hended, -, haccepted⟩ := record_quiet h.sys ha
    rw [hended]
    refine (List.filterMap_eq_nil_iff.mpr fun x hx => ?_).symm
    simp [haccepted x hx]
  | some k =>
    obtain ⟨⟨began, ended, accepted, -, hended, haccepted, -, hsent⟩, -⟩ := moves_step h.sys ha
    rw [hended, haccepted]
    by_cases hi : i = k
    · subst hi
      rw [sentBy, ofCaller_map_self, hsent, acceptedFrom, List.filterMap_map]
      simp
    · rw [sentBy, ofCaller_map_ne hi, acceptedFrom, List.filterMap_map]
      simp [Ne.symm hi]

theorem good_step {h : Calls q T} (hg : Good h) (a : Act T) : Good (h.step a) :=
  ⟨history_step hg a, calls_step hg a, sent_step hg a⟩

theorem sys_run : ∀ (as : List (Act T)) (h : Calls q T), (run step h as).sys = run Sys.step h.sys as
  | [], _ => rfl
  | a :: as, h => sys_run as (h.step a)

end Calls

/-- **Waiting loses nothing.** Take the queue with its waiting calls through any
steps: senders and the receiver in any interleaving, woken in any order, calls
dropped while they wait. The lock sections in their order are a run of the queue
in one piece, with the same state and the same items accepted and departed, so
what left it and what is queued are the items accepted, in that order. Of each
caller, the `send` calls begun are those that ended, in order, and the one that
still holds its item; those that ended as sent are what the queue accepted from
it, once each, and so none that failed or was dropped. -/
theorem calls_take_effect_once (q : Limits) (as : List (Act T)) :
    let h := run Calls.step (Calls.new : Calls q T) as
    h.sys = run Sys.step Sys.new as ∧
    run (History.step q) History.new h.account.ops = h.history ∧
    h.account.departed.map Prod.snd ++ h.sys.queue.values = h.account.accepted.map Prod.snd ∧
    ∀ i, ofCaller i h.account.begun = (ofCaller i h.account.ended).map Prod.fst ++ (h.sys.sends i).held ∧
      sentBy i h.account.ended = acceptedFrom i h.account.accepted := by
  intro h
  have hg : h.Good := run_inv (I := Calls.Good) (fun _ a hs => Calls.good_step hs a) as Calls.good_new
  refine ⟨Calls.sys_run as _, hg.history, ?_, fun i => ⟨hg.calls i, hg.sent i⟩⟩
  have hlaw := (History.good_run q h.account.ops).law
  rw [hg.history] at hlaw
  exact hlaw

end LossyWake
end Slinet
