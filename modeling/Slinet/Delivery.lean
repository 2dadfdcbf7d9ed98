/-
# The packets of a stream on their way to the event

The packets triggered for a connection are, in order, the first of those its
transport's reader returned (`Endpoint.Delivers`): the reader holds at most one
of them (`Link.Calm`), the others wait in one queue with the messages of all
connections, and the frames take them in that order, whatever their budgets.
Only a read adds to what the reader has returned (`Endpoint.Unread`).
-/
import Slinet.Lifecycle

namespace Slinet

/-- The packet that the reader has not passed on yet. -/
def Reader.hand {R D L : Type*} : Reader R D L → List R
  | forwarding packet => [packet]
  | offering packet => [packet]
  | _ => []

namespace Link

variable {P R D L : Type*}

/-- The packets that the transport's reader returned. -/
def received (s : Link P R D L) : List R := s.reads.filterMap Except.toOption

/-- What a step keeps that neither reads nor offers a packet. -/
structure Calm (s s' : Link P R D L) : Prop where
  reads : s'.reads = s.reads
  hand : s'.reader.Looping → s.reader.Looping ∧ s'.reader.hand = s.reader.hand

theorem calm_refl (s : Link P R D L) : Calm s s := ⟨rfl, fun h => ⟨h, rfl⟩⟩

/-- The reader's loop is over. -/
theorem calm_over {s s' : Link P R D L} (hreads : s'.reads = s.reads) (h : ¬ s'.reader.Looping) :
    Calm s s' :=
  ⟨hreads, fun hl => absurd hl h⟩

theorem calm_advance (s : Link P R D L) : Calm s s.advance := by
  unfold advance
  split
  · rename_i off hr
    split
    · exact ⟨rfl, fun _ => by simp [hr, Reader.Looping, Reader.hand]⟩
    split
    · exact calm_over rfl fun h => h
    split
    · exact ⟨rfl, fun _ => by simp [hr, Reader.Looping, Reader.hand]⟩
    · exact calm_over rfl fun h => h
    · exact ⟨rfl, fun _ => by simp [hr, Reader.Looping, Reader.hand]⟩
  · rename_i off hr
    split
    · exact calm_over rfl fun h => h
    · exact ⟨rfl, fun _ => by simp [hr, Reader.Looping, Reader.hand]⟩
  · rename_i packet hr
    split
    · exact calm_over rfl fun h => h
    · exact ⟨rfl, fun _ => by simp [hr, Reader.Looping, Reader.hand]⟩
  · split
    · exact calm_over rfl fun h => h
    · exact calm_over rfl fun h => h
  · exact calm_over rfl fun h => h
  · exact calm_over rfl fun h => h
  · exact calm_refl s

theorem calm_step (s : Link P R D L) (a : Act P R D L) (hread : ∀ result, a ≠ .read result)
    (hoffer : ∀ o, a ≠ .offer o) : Calm s (s.step a) := by
  cases a with
  | conn a =>
    simp only [step]
    split
    · obtain ⟨-, hr, -, -, -, hreads, -⟩ := note_fields (canceller a) s { s with conn := s.conn.step a }
      exact ⟨hreads, fun hl => by rw [hr] at hl ⊢; exact ⟨hl, rfl⟩⟩
    · exact calm_refl s
  | poll =>
    simp only [step, poll]
    split
    · rename_i hr
      exact ⟨rfl, fun _ => by simp [hr, Reader.Looping, Reader.hand]⟩
    · rename_i hr
      exact ⟨rfl, fun _ => by simp [hr, Reader.Looping, Reader.hand]⟩
    · exact calm_refl s
  | advance =>
    obtain ⟨-, hr, -, -, -, hreads, -⟩ := note_fields Canceller.reader s s.advance
    have hc := calm_advance s
    exact ⟨hreads.trans hc.reads, fun hl => by
      simp only [step, hr] at hl ⊢
      exact hc.hand hl⟩
  | read result => exact absurd rfl (hread result)
  | offer o => exact absurd rfl (hoffer o)
  | report delivered =>
    simp only [step, report]
    split
    · split
      · exact calm_refl s
      · split
        · exact calm_over rfl fun h => h
        · exact calm_over rfl fun h => h
    · exact calm_refl s
  | notified =>
    simp only [step, notified]
    split
    · exact calm_over rfl fun h => h
    · exact calm_refl s
  | stopReader =>
    simp only [step, stopReader]
    split
    · split
      · exact calm_over rfl fun h => h
      · exact calm_over rfl fun h => h
      · exact calm_over rfl fun h => h
      · exact calm_over rfl fun h => h
      · exact calm_over rfl fun h => h
      · exact calm_refl s
    · exact calm_refl s
  | frame =>
    simp only [step, frame]
    split
    · split
      · exact ⟨rfl, fun h => ⟨h, rfl⟩⟩
      · exact calm_refl s
    · exact calm_refl s
  | dropWorld => exact ⟨rfl, fun h => ⟨h, rfl⟩⟩

/-- A packet that is not accepted stays in hand, or the loop is over. -/
theorem calm_offer (s : Link P R D L) {o : Offer} (ho : o ≠ .accepted) : Calm s (s.step (.offer o)) := by
  simp only [step, offer]
  split
  · rename_i packet hr
    cases o with
    | accepted => exact absurd rfl ho
    | pending =>
      dsimp only
      split
      · exact calm_refl s
      · exact ⟨rfl, fun _ => by simp [hr, Reader.Looping, Reader.hand]⟩
    | refused =>
      dsimp only
      split
      · exact calm_refl s
      · exact calm_over rfl fun h => h
  · exact calm_refl s

/-- Only a read adds to what was received, and a loop that is over stays so. -/
theorem looping_step (s : Link P R D L) (a : Act P R D L) (ha : ∀ result, a ≠ .read result) :
    (s.step a).received = s.received ∧ ((s.step a).reader.Looping → s.reader.Looping) := by
  by_cases ho : a = .offer .accepted
  · subst ho
    simp only [step, offer]
    split
    · rename_i packet hr
      exact ⟨rfl, fun _ => by rw [hr]; trivial⟩
    · exact ⟨rfl, fun h => h⟩
  · have hc : Calm s (s.step a) := by
      cases a with
      | offer o => exact calm_offer s fun h => ho (by rw [h])
      | _ => exact calm_step s _ ha fun _ h => by cases h
    exact ⟨by rw [received, hc.reads, received], fun h => (hc.hand h).1⟩

end Link

section Packets

variable {Id R D L : Type*} [DecidableEq Id]

def Message.packet? (id : Id) : Message Id R D L → Option R
  | streamPacket k packet => if k = id then some packet else none
  | _ => none

theorem Message.packet?_eq_none {message : Message Id R D L}
    (h : ∀ k packet, message ≠ .streamPacket k packet) (id : Id) : message.packet? id = none := by
  cases message with
  | streamPacket k packet => exact absurd rfl (h k packet)
  | established k => rfl
  | closed k error => rfl

def Event.packet? (id : Id) : Event Id R D L → Option R
  | packet k x _ => if k = id then some x else none
  | _ => none

/-- A frame of a stream's endpoint has no datagram packets. -/
def Frame.Streaming : Frame Id R D L → Prop
  | packets _ _ _ => False
  | delivering _ _ => False
  | _ => True

end Packets

namespace Endpoint

variable {c : Plugin} {Id P R D L : Type*} [DecidableEq Id]

/-- The packets triggered for the connection. -/
def triggered (s : Endpoint c Id P R D L) (id : Id) : List R :=
  s.events.filterMap (Event.packet? id)

/-- Those on their way in the lifecycle queue. -/
def waiting (s : Endpoint c Id P R D L) (id : Id) : List R :=
  (s.frame.commands ++ s.incoming.items).filterMap (Message.packet? id)

/-- What every step keeps of a stream's packets. -/
structure Delivers (s : Endpoint c Id P R D L) (id : Id) : Prop where
  behind : s.triggered id ++ s.waiting id <+: (s.peers id).link.received
  whole : (s.peers id).link.reader.Looping → s.incoming.receiverOpen = true →
    s.triggered id ++ s.waiting id ++ (s.peers id).link.reader.hand = (s.peers id).link.received
  streaming : s.frame.Streaming

theorem delivers_new (c : Plugin) (id : Id) : (new c Id P R D L).Delivers id :=
  ⟨by simp [new, triggered, waiting, Frame.commands, Mpsc.new],
    fun _ _ => by simp [new, triggered, waiting, Frame.commands, Mpsc.new, newLink, Link.new,
      Reader.hand, Link.received], trivial⟩

/-- A step that moves no packet of the connection. -/
theorem Delivers.keep {s s' : Endpoint c Id P R D L} {id : Id} (h : s.Delivers id)
    (hpath : s'.triggered id ++ s'.waiting id = s.triggered id ++ s.waiting id)
    (hopen : s'.incoming.receiverOpen = true → s.incoming.receiverOpen = true)
    (hlink : Link.Calm (s.peers id).link (s'.peers id).link) (hframe : s'.frame.Streaming) :
    s'.Delivers id := by
  have hreceived : (s'.peers id).link.received = (s.peers id).link.received := by
    rw [Link.received, hlink.reads, Link.received]
  refine ⟨?_, fun hl ho => ?_, hframe⟩
  · rw [hpath, hreceived]
    exact h.behind
  · obtain ⟨hl', hhand⟩ := hlink.hand hl
    rw [hpath, hhand, hreceived]
    exact h.whole hl' (hopen ho)

theorem Delivers.update {s : Endpoint c Id P R D L} {id k : Id} {f : Peer P R D L → Peer P R D L}
    (h : s.Delivers id) (hf : Link.Calm (s.peers k).link (f (s.peers k)).link) :
    (s.update k f).Delivers id := by
  refine h.keep rfl (fun ho => ho) ?_ h.streaming
  by_cases hk : id = k
  · subst hk
    rw [peers_update_self]
    exact hf
  · rw [peers_update_ne s hk]
    exact Link.calm_refl _

theorem link_act_self (s : Endpoint c Id P R D L) (id : Id) (a : Link.Act P R D L) :
    ((s.act id a).peers id).link = (s.peers id).link.step a := by
  rw [act, peers_update_self]

/-- A step of some connection's tasks that neither reads nor offers a packet. -/
theorem Delivers.act {s : Endpoint c Id P R D L} {id : Id} (h : s.Delivers id) (k : Id)
    (a : Link.Act P R D L) (hread : ∀ result, a ≠ .read result) (hoffer : ∀ o, a ≠ .offer o) :
    (s.act k a).Delivers id :=
  h.update (Link.calm_step _ a hread hoffer)

/-- A step of another connection's tasks. -/
theorem Delivers.act_ne {s : Endpoint c Id P R D L} {id k : Id} (h : s.Delivers id) (hk : id ≠ k)
    (a : Link.Act P R D L) : (s.act k a).Delivers id := by
  refine h.keep rfl (fun ho => ho) ?_ h.streaming
  rw [Endpoint.act, peers_update_ne s hk]
  exact Link.calm_refl _

theorem Delivers.moveTo {s : Endpoint c Id P R D L} {id : Id} (h : s.Delivers id) (k : Id)
    (setup : Setup D L) : (s.moveTo k setup).Delivers id :=
  h.update (Link.calm_refl _)

/-- A message that is no packet of the connection joins the queue. -/
theorem Delivers.push {s : Endpoint c Id P R D L} {id : Id} (h : s.Delivers id)
    {message : Message Id R D L} (hm : message.packet? id = none) :
    Delivers { s with incoming := { s.incoming with items := s.incoming.items ++ [message] } } id := by
  refine h.keep ?_ (fun ho => ho) (Link.calm_refl _) h.streaming
  simp [triggered, waiting, hm]

/-- The transport's reader returns a packet. -/
theorem Delivers.read {s : Endpoint c Id P R D L} {id : Id} (h : s.Delivers id)
    (result : Option (Except (ReceiveError D L) R)) : (s.act id (.read result)).Delivers id := by
  have hpeers : ((s.act id (.read result)).peers id).link = (s.peers id).link.read result :=
    link_act_self s id _
  cases hr : (s.peers id).link.reader with
  | reading off =>
    have hhand : (s.peers id).link.reader.hand = [] := by rw [hr]; rfl
    have hloop : (s.peers id).link.reader.Looping := by rw [hr]; trivial
    cases result with
    | none =>
      refine h.update ⟨?_, fun _ => ⟨hloop, ?_⟩⟩
      · simp [Link.step, Link.read, hr]
      · simp [Link.step, Link.read, hr, Reader.hand]
    | some result =>
      cases result with
      | ok packet =>
        have hrecv : ((s.act id (.read (some (.ok packet)))).peers id).link.received =
            (s.peers id).link.received ++ [packet] := by
          rw [hpeers, Link.received, Link.read, hr]
          simp [Link.received, Except.toOption]
        refine ⟨?_, fun _ ho => ?_, h.streaming⟩
        · rw [hrecv]
          exact h.behind.trans (List.prefix_append _ _)
        · have hw := h.whole hloop ho
          rw [hhand, List.append_nil] at hw
          rw [hrecv, ← hw, hpeers, Link.read, hr]
          rfl
      | error error =>
        have hrecv : ((s.act id (.read (some (.error error)))).peers id).link.received =
            (s.peers id).link.received := by
          rw [hpeers, Link.received, Link.read, hr]
          simp [Link.received, Except.toOption]
        refine ⟨?_, fun hl => ?_, h.streaming⟩
        · rw [hrecv]
          exact h.behind
        · rw [hpeers, Link.read, hr] at hl
          exact absurd hl fun h => h
  | _ =>
    refine h.update ?_
    simp only [Link.step, Link.read, hr]
    exact Link.calm_refl _

theorem delivers_link {s : Endpoint c Id P R D L} {id : Id} (h : s.Delivers id) (k : Id)
    (a : Link.Act P R D L) : (s.link k a).Delivers id := by
  unfold Endpoint.link
  split
  · rename_i ha
    cases a with
    | read result =>
      by_cases hk : id = k
      · subst hk
        exact h.read result
      · exact h.act_ne hk _
    | offer o => cases hs : (s.peers k).setup <;> simp [hs, Setup.Allows] at ha
    | _ => exact h.act k _ (fun _ h => by cases h) fun _ h => by cases h
  · exact h

/-- The reader's packet joins the queue. -/
theorem Delivers.accept {s : Endpoint c Id P R D L} {id : Id} (h : s.Delivers id) {packet : R}
    (hopen : s.incoming.receiverOpen = true) (hr : (s.peers id).link.reader = .offering packet) :
    Delivers ({ s with incoming := { s.incoming with
      items := s.incoming.items ++ [Message.streamPacket id packet] } }.act id (.offer .accepted)) id := by
  have hw := h.whole (by rw [hr]; trivial) hopen
  rw [hr] at hw
  have hlink := link_act_self { s with incoming := { s.incoming with
    items := s.incoming.items ++ [Message.streamPacket id packet] } } id (.offer .accepted)
  have hpath : s.triggered id ++ (s.frame.commands ++ (s.incoming.items ++
      [Message.streamPacket id packet])).filterMap (Message.packet? id) =
      (s.peers id).link.received := by
    rw [← hw]
    simp [waiting, Message.packet?, Reader.hand]
  have hrecv : ((s.peers id).link.step (.offer .accepted)).received = (s.peers id).link.received := by
    simp [Link.received, Link.step, Link.offer, hr]
  refine ⟨?_, fun _ _ => ?_, h.streaming⟩
  · rw [hlink]
    exact (hpath.trans hrecv.symm) ▸ List.prefix_refl _
  · have hhand : ((s.peers id).link.step (.offer .accepted)).reader.hand = [] := by
      simp [Link.step, Link.offer, hr, Reader.hand]
    rw [hlink, hrecv, hhand, List.append_nil]
    exact hpath

theorem delivers_offer {s : Endpoint c Id P R D L} {id : Id} (hc : c.datagram = false)
    (h : s.Delivers id) (k : Id) : (s.offer k).Delivers id := by
  unfold Endpoint.offer
  split
  · rename_i packet hs hr
    rw [if_neg (by simp [hc])]
    rcases s.incoming.trySend_cases (.streamPacket k packet) with ⟨he, ho⟩ | ⟨he, ho⟩ | ⟨he, ho⟩
    · rw [he]
      by_cases hk : id = k
      · subst hk
        exact h.accept ho hr
      · have hm : (.streamPacket k packet : Message Id R D L).packet? id = none := by
          simp [Message.packet?, Ne.symm hk]
        exact (h.push hm).act_ne hk _
    · rw [he]
      exact h.update (Link.calm_offer _ (o := .refused) fun h => by cases h)
    · rw [he]
      exact h.update (Link.calm_offer _ (o := .pending) fun h => by cases h)
  · exact h

theorem delivers_report {s : Endpoint c Id P R D L} {id : Id} (h : s.Delivers id) (k : Id) :
    (s.report k).Delivers id := by
  have hact : ∀ (t : Endpoint c Id P R D L) (delivered : Bool), t.Delivers id →
      (t.act k (.report delivered)).Delivers id :=
    fun t delivered ht => ht.act k _ (fun _ h => by cases h) fun _ h => by cases h
  unfold Endpoint.report
  split
  · exact sendIncoming_rule (I := fun s => s.Delivers id) h
      (fun _ => hact _ true (h.push rfl)) (hact s false h)
  · exact h

theorem delivers_setup {s : Endpoint c Id P R D L} {id k : Id} (h : s.Delivers id)
    {a : Act Id P R D L} (ha : a.setup? = some k) : (s.step a).Delivers id :=
  setup_rule (I := fun s => s.Delivers id) (fun _ setup h => h.moveTo k setup)
    (fun _ h => h.act k (.conn .disconnect) (fun _ h => by cases h) fun _ h => by cases h)
    (fun _ _ hm h => h.push (Message.packet?_eq_none hm id)) h ha

/-- The frame goes on, with the same messages on the way. -/
theorem Delivers.goto {s : Endpoint c Id P R D L} {id : Id} (h : s.Delivers id)
    {frame : Frame Id R D L} (hc : frame.commands = s.frame.commands) (hs : frame.Streaming) :
    (s.goto frame).Delivers id := by
  refine h.keep ?_ (fun ho => ho) (Link.calm_refl _) hs
  simp only [triggered, waiting, Endpoint.goto, hc]

/-- A command triggers what the message says. -/
theorem delivers_execute {s : Endpoint c Id P R D L} {id : Id} (h : s.Delivers id)
    {message : Message Id R D L} {commands : List (Message Id R D L)}
    (hframe : s.frame = .applying (message :: commands)) :
    ((s.execute message).goto (.applying commands)).Delivers id := by
  have hwait : s.waiting id = (message.packet? id).toList ++
      (commands ++ s.incoming.items).filterMap (Message.packet? id) := by
    rw [waiting, hframe]
    cases hm : message.packet? id <;> simp [Frame.commands, hm]
  cases message with
  | established k =>
    refine h.keep ?_ (fun ho => ho) ?_ trivial
    · rw [hwait]
      simp [triggered, waiting, Endpoint.goto, execute, establish, trigger, Endpoint.update,
        Event.packet?, Message.packet?, Frame.commands]
    · show Link.Calm _ ((s.establish k).peers id).link
      rw [peers_establish]
      split
      · rename_i hk
        subst hk
        exact Link.calm_refl _
      · exact Link.calm_refl _
  | streamPacket k packet =>
    refine h.keep ?_ (fun ho => ho) (Link.calm_refl _) trivial
    rw [hwait]
    by_cases hk : k = id
    · simp [triggered, waiting, Endpoint.goto, execute, trigger, Event.packet?, Message.packet?,
        Frame.commands, hk]
    · simp [triggered, waiting, Endpoint.goto, execute, trigger, Event.packet?, Message.packet?,
        Frame.commands, hk]
  | closed k error =>
    cases k with
    | none =>
      refine h.keep ?_ (fun ho => ho) (Link.calm_refl _) trivial
      rw [hwait]
      simp [triggered, waiting, Endpoint.goto, execute, trigger, Event.packet?, Message.packet?,
        Frame.commands]
    | some k =>
      refine h.keep ?_ (fun ho => ho) (Link.calm_refl _) trivial
      rw [hwait]
      simp [triggered, waiting, Endpoint.goto, execute, remove, trigger, Event.packet?,
        Message.packet?, Frame.commands]

theorem delivers_advance {s : Endpoint c Id P R D L} {id : Id} (h : s.Delivers id) :
    s.advance.Delivers id := by
  unfold advance
  split
  · exact h
  · rename_i commands hframe
    exact h.goto (by rw [hframe]; rfl) trivial
  · rename_i budget commands hframe
    rw [Mpsc.tryRecv]
    cases hitems : s.incoming.items with
    | cons message rest =>
      refine h.keep ?_ (fun ho => ho) (Link.calm_refl _) trivial
      simp [triggered, waiting, Endpoint.goto, hframe, hitems, Frame.commands]
    | nil => exact h.goto (by rw [hframe]; rfl) trivial
  · rename_i message commands hframe
    exact delivers_execute h hframe
  · rename_i hframe
    split
    · exact h
    · exact h.goto (by rw [hframe]; rfl) trivial
  -- a stream's frames have no datagram packets
  all_goals
    rename_i hframe
    have hs := h.streaming
    rw [hframe] at hs
    exact hs.elim

/-- What the queue still held is lost with the world. -/
theorem delivers_dropWorld {s : Endpoint c Id P R D L} {id : Id} (h : s.Delivers id) :
    s.dropWorld.Delivers id := by
  unfold dropWorld
  split
  · rename_i hframe
    refine ⟨?_, fun _ ho => (by cases ho), h.streaming⟩
    have hb := (List.prefix_append (s.triggered id) (s.waiting id)).trans h.behind
    have hw : (s.frame.commands ++ []).filterMap (Message.packet? id) = [] := by rw [hframe]; rfl
    show s.triggered id ++ (s.frame.commands ++ []).filterMap (Message.packet? id) <+:
      ((s.peers id).link.step .dropWorld).received
    rw [hw, List.append_nil]
    exact hb
  · exact h

/-- What every step of a stream's endpoint keeps. -/
theorem delivers_step {s : Endpoint c Id P R D L} {id : Id} (hc : c.datagram = false)
    (h : s.Delivers id) (a : Act Id P R D L) : (s.step a).Delivers id := by
  cases a with
  | create k => exact delivers_setup h (k := k) rfl
  | publish k => exact delivers_setup h (k := k) rfl
  | hand k arrives => exact delivers_setup h (k := k) rfl
  | split k result => exact delivers_setup h (k := k) rfl
  | abandon k => exact delivers_setup h (k := k) rfl
  | stopSetup k => exact delivers_setup h (k := k) rfl
  | link k a => exact delivers_link h k a
  | offer k => exact delivers_offer hc h k
  | report k => exact delivers_report h k
  | refuse error =>
    simp only [step, refuse]
    split
    · exact sendIncoming_rule (I := fun s => s.Delivers id) h (fun _ => h.push rfl) h
    · exact h
  | reject error =>
    simp only [step, reject]
    split
    · refine h.keep ?_ (fun ho => ho) (Link.calm_refl _) h.streaming
      simp [triggered, waiting, trigger, Event.packet?]
    · exact h
  | beginFrame budget =>
    simp only [step, beginFrame]
    split
    · rename_i hframe
      split
      · exact h.goto (by rw [hframe]; rfl) trivial
      · exact h
    · exact h
  | beginPackets budget =>
    simp only [step, beginPackets]
    split
    · rw [if_neg (by simp [hc])]
      exact h
    · exact h
  | advance => exact delivers_advance h
  | dropWorld => exact delivers_dropWorld h

/-- The step does not read for the connection. -/
structure Unread (id : Id) (s s' : Endpoint c Id P R D L) : Prop where
  received : (s'.peers id).link.received = (s.peers id).link.received
  looping : (s'.peers id).link.reader.Looping → (s.peers id).link.reader.Looping

omit [DecidableEq Id] in
theorem Unread.trans {id : Id} {s s' s'' : Endpoint c Id P R D L} (h : Unread id s s')
    (h' : Unread id s' s'') : Unread id s s'' :=
  ⟨h'.received.trans h.received, fun hl => h.looping (h'.looping hl)⟩

omit [DecidableEq Id] in
theorem unread_of_link {id : Id} {s s' : Endpoint c Id P R D L}
    (h : (s'.peers id).link = (s.peers id).link) : Unread id s s' :=
  ⟨by rw [h], fun hl => by rwa [h] at hl⟩

theorem unread_moveTo (s : Endpoint c Id P R D L) (id k : Id) (setup : Setup D L) :
    Unread id s (s.moveTo k setup) := by
  refine unread_of_link ?_
  by_cases hk : id = k
  · subst hk
    rw [moveTo, peers_update_self]
  · rw [moveTo, peers_update_ne s hk]

theorem unread_act (s : Endpoint c Id P R D L) {id k : Id} {a : Link.Act P R D L}
    (ha : id = k → ∀ result, a ≠ .read result) : Unread id s (s.act k a) := by
  by_cases hk : id = k
  · subst hk
    obtain ⟨hrecv, hloop⟩ := Link.looping_step (s.peers id).link a (ha rfl)
    exact ⟨by rw [link_act_self, hrecv], fun hl => hloop (by rwa [link_act_self] at hl)⟩
  · refine unread_of_link ?_
    rw [Endpoint.act, peers_update_ne s hk]

theorem unread_offer (s : Endpoint c Id P R D L) (id k : Id) : Unread id s (s.offer k) := by
  have hact : ∀ (t : Endpoint c Id P R D L) (o : Link.Offer), (t.peers id).link = (s.peers id).link →
      Unread id s (t.act k (.offer o)) :=
    fun t o ht => (unread_of_link ht).trans (unread_act t fun _ _ h => by cases h)
  unfold Endpoint.offer
  split
  · split
    · unfold forward
      split
      · exact hact _ .accepted rfl
      · exact hact _ .accepted rfl
      · exact hact s .refused rfl
    · split
      · exact hact _ .accepted rfl
      · exact hact s .refused rfl
      · exact hact s .pending rfl
  · exact unread_of_link rfl

theorem unread_setup (s : Endpoint c Id P R D L) (id : Id) {k : Id} {a : Act Id P R D L}
    (ha : a.setup? = some k) : Unread id s (s.step a) :=
  setup_rule (I := Unread id s) (fun t setup h => h.trans (unread_moveTo t id k setup))
    (fun t h => h.trans (unread_act t fun _ _ h => by cases h))
    (fun _ _ _ h => h.trans (unread_of_link rfl)) (unread_of_link rfl) ha

/-- The frames touch no link. -/
theorem link_advance (s : Endpoint c Id P R D L) (id : Id) :
    (s.advance.peers id).link = (s.peers id).link := by
  unfold advance
  split
  · rfl
  · rfl
  · split
    · rfl
    · rfl
  · rename_i message commands _
    cases message with
    | established k =>
      show ((s.establish k).peers id).link = _
      rw [peers_establish]
      split
      · rename_i hk
        rw [hk]
      · rfl
    | streamPacket k packet => rfl
    | closed k error => cases k <;> rfl
  · split
    · rfl
    · rfl
  · split
    · rfl
    · rfl
  · rfl
  · split
    · rfl
    · rfl
  · split
    · rfl
    · rfl
  · rfl
  · rfl

/-- Only the transport's reader reads for a connection. -/
theorem unread_step (s : Endpoint c Id P R D L) (id : Id) (a : Act Id P R D L)
    (ha : ∀ result, a ≠ .link id (.read result)) : Unread id s (s.step a) := by
  have hsame : Unread id s s := unread_of_link rfl
  cases a with
  | create k => exact unread_setup s id (k := k) rfl
  | publish k => exact unread_setup s id (k := k) rfl
  | hand k arrives => exact unread_setup s id (k := k) rfl
  | split k result => exact unread_setup s id (k := k) rfl
  | abandon k => exact unread_setup s id (k := k) rfl
  | stopSetup k => exact unread_setup s id (k := k) rfl
  | link k a =>
    simp only [step, Endpoint.link]
    split
    · refine unread_act s fun hk result hr => ha result ?_
      rw [hr, hk]
    · exact hsame
  | offer k => exact unread_offer s id k
  | report k =>
    have hact : ∀ (t : Endpoint c Id P R D L) (delivered : Bool), (t.peers id).link = (s.peers id).link →
        Unread id s (t.act k (.report delivered)) :=
      fun t delivered ht => (unread_of_link ht).trans (unread_act t fun _ _ h => by cases h)
    simp only [step, Endpoint.report]
    split
    · exact sendIncoming_rule hsame (fun _ => hact _ true rfl) (hact s false rfl)
    · exact hsame
  | refuse error =>
    simp only [step, refuse]
    split
    · exact sendIncoming_rule hsame (fun _ => unread_of_link rfl) hsame
    · exact hsame
  | reject error =>
    simp only [step, reject]
    split
    · exact unread_of_link rfl
    · exact hsame
  | beginFrame budget =>
    simp only [step, beginFrame]
    split
    · split
      · exact unread_of_link rfl
      · exact hsame
    · exact hsame
  | beginPackets budget =>
    simp only [step, beginPackets]
    split
    · split
      · exact unread_of_link rfl
      · exact hsame
    · exact hsame
  | advance => exact unread_of_link (link_advance s id)
  | dropWorld =>
    simp only [step, dropWorld]
    split
    · obtain ⟨hrecv, hloop⟩ := Link.looping_step (s.peers id).link .dropWorld fun _ h => by cases h
      exact ⟨hrecv, hloop⟩
    · exact hsame

/-- The packets triggered are the first of those the reader returned. -/
theorem Delivers.triggered {s : Endpoint c Id P R D L} {id : Id} (h : s.Delivers id) :
    s.triggered id <+: (s.peers id).link.received :=
  (List.prefix_append _ _).trans h.behind

end Endpoint
end Slinet
