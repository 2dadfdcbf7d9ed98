/-
# The order of the datagrams

A datagram endpoint passes on what its readers decode, or drops it, but it never
turns it round: the queue is a queue, an eviction takes its oldest packets, a
frame takes packets from its front and leaves its commands in that order. So the
packets triggered, those that the frame holds and those queued, in this order,
are a subsequence of the packets forwarded (`Endpoint.Lined`), whatever was
dropped in between; and of each connection they are a subsequence of what its
transport's reader returned (`Endpoint.InLine`). That is all the order that a
datagram transport has, and it survives a world that is dropped.
-/
import Slinet.Datagrams

namespace Slinet

variable {Id P R D L : Type*}

/-- The packets that the frame has taken, oldest first. -/
def Frame.inOrder : Frame Id R D L → List (Id × R)
  | packets _ taken commands => commands ++ taken.toList
  | delivering _ commands => commands
  | _ => []

namespace Endpoint

variable {c : Plugin}

/-- The packets triggered, those with the frame and those queued. -/
def line (s : Endpoint c Id P R D L) : List (Id × R) :=
  s.received ++ s.frame.inOrder ++ s.datagrams.values

/-- **What every step keeps** of the order, for the packets forwarded so far. -/
structure Lined (forwarded : List (Id × R)) (s : Endpoint c Id P R D L) : Prop where
  order : s.line.Sublist forwarded
  lifecycle : ∀ message ∈ s.frame.commands ++ s.incoming.items,
    ∀ id packet, message ≠ .streamPacket id packet

theorem lined_new (c : Plugin) (Id P R D L : Type*) : Lined [] (new c Id P R D L) :=
  ⟨List.Sublist.refl _, fun _ h => (by cases h)⟩

section Steps

variable {forwarded : List (Id × R)} {s s' : Endpoint c Id P R D L}

/-- A step that moves packets on, or drops some. -/
theorem Lined.move (h : Lined forwarded s) (hline : s'.line.Sublist s.line)
    (hlife : ∀ message ∈ s'.frame.commands ++ s'.incoming.items,
      ∀ id packet, message ≠ .streamPacket id packet) : Lined forwarded s' :=
  ⟨hline.trans h.order, hlife⟩

theorem line_keep (hrec : s'.received = s.received) (hframe : s'.frame.inOrder.Sublist s.frame.inOrder)
    (hqueue : s'.datagrams.values.Sublist s.datagrams.values) : s'.line.Sublist s.line := by
  rw [line, line, hrec]
  exact ((List.Sublist.refl _).append hframe).append hqueue

/-- A message that is no packet is sent. -/
theorem Lined.push (h : Lined forwarded s) {message : Message Id R D L}
    (hm : ∀ id packet, message ≠ .streamPacket id packet) :
    Lined forwarded { s with
      incoming := { s.incoming with items := s.incoming.items ++ [message] } } := by
  refine h.move (List.Sublist.refl _) fun other hother => ?_
  simp only [← List.append_assoc] at hother
  rcases List.mem_append.mp hother with hother | hother
  · exact h.lifecycle other hother
  · rw [List.mem_singleton.mp hother]
    exact hm

/-- The frame goes on, with the same lifecycle commands. -/
theorem Lined.goto (h : Lined forwarded s) {frame : Frame Id R D L}
    (hcommands : frame.commands = s.frame.commands) (hheld : frame.inOrder.Sublist s.frame.inOrder) :
    Lined forwarded (s.goto frame) := by
  refine h.move (line_keep rfl hheld (List.Sublist.refl _)) ?_
  rw [Endpoint.goto, hcommands]
  exact h.lifecycle

/-- More packets are forwarded, and dropped. -/
theorem Lined.later (h : Lined forwarded s) (more : List (Id × R)) : Lined (forwarded ++ more) s :=
  ⟨h.order.trans (List.sublist_append_left _ _), h.lifecycle⟩

variable [DecidableEq Id]

theorem Lined.update (h : Lined forwarded s) (id : Id) (f : Peer P R D L → Peer P R D L) :
    Lined forwarded (s.update id f) :=
  h.move (List.Sublist.refl _) h.lifecycle

/-- **A packet is forwarded**: it is the last, or it is dropped. -/
theorem lined_forward (h : Lined forwarded s) (id : Id) (packet : R) :
    Lined (forwarded ++ [(id, packet)]) (s.forward id packet) := by
  unfold forward
  rcases s.datagrams.trySend_spec (id, packet) 1 with
    ⟨evicted, queue, he, -, -, -, hv, -⟩ | ⟨he, -⟩ | ⟨he, -⟩
  · rw [he]
    refine Lined.update ?_ id _
    refine ⟨?_, h.lifecycle⟩
    have hqueue : queue.values.Sublist (s.datagrams.values ++ [(id, packet)]) := by
      rw [← hv]
      exact List.sublist_append_right _ _
    have hline := ((List.Sublist.refl (s.received ++ s.frame.inOrder)).append hqueue)
    rw [← List.append_assoc] at hline
    exact hline.trans (h.order.append (List.Sublist.refl _))
  · rw [he]
    exact Lined.update (h.later _) id _
  · rw [he]
    have hdrop : Lined forwarded (s.drop .receiveQueueFull (id, packet)) :=
      h.move (List.Sublist.refl _) h.lifecycle
    exact (hdrop.later _).update id _

theorem lined_advance (hc : c.datagram = true) (h : Lined forwarded s) : Lined forwarded s.advance := by
  unfold advance
  split
  · exact h
  · rename_i hframe
    exact h.goto (by rw [hframe]; rfl) (by rw [hframe]; exact List.Sublist.refl _)
  · rename_i budget commands hframe
    rw [Mpsc.tryRecv]
    have hlife := h.lifecycle
    rw [hframe] at hlife
    cases hitems : s.incoming.items with
    | nil => exact h.goto (by rw [hframe]; rfl) (by rw [hframe]; exact List.Sublist.refl _)
    | cons message rest =>
      refine h.move (line_keep rfl ?_ (List.Sublist.refl _)) fun other ho => hlife other ?_
      · rw [hframe]
        exact List.Sublist.refl _
      · simpa [Endpoint.goto, Frame.commands, hitems] using ho
  · rename_i message commands hframe
    have hlife := h.lifecycle
    rw [hframe] at hlife
    obtain ⟨hrec, hq, -, hin⟩ := s.execute_fields (hlife message List.mem_cons_self)
    refine h.move (line_keep hrec ?_ ?_) fun other ho => ?_
    · rw [hframe]
      exact List.Sublist.refl _
    · rw [Endpoint.goto, hq]
    · rw [show ((s.execute message).goto (.applying commands)).incoming = s.incoming from hin] at ho
      exact hlife other (List.mem_cons_of_mem _ ho)
  · rw [if_pos hc]
    exact h
  · rename_i budget x commands hframe
    split
    · refine Lined.goto (show Lined forwarded (s.drop .closedBeforeDelivery x) from
        h.move (List.Sublist.refl _) h.lifecycle)
        (by rw [drop, hframe]; rfl) ?_
      rw [drop, hframe, Frame.inOrder, Frame.inOrder, Option.toList_none, List.append_nil]
      exact List.sublist_append_left _ _
    · refine h.goto (by rw [hframe]; rfl) ?_
      rw [hframe, Frame.inOrder, Frame.inOrder]
      simp
  · rename_i hframe
    refine h.goto (by rw [hframe]; rfl) ?_
    rw [hframe, Frame.inOrder, Frame.inOrder]
    simp
  · rename_i budget commands hframe
    rcases s.datagrams.tryRecvIf_spec s.ready with ⟨x, queue, he, -, -, -, hv⟩ | ⟨e, he, -⟩
    · rw [he]
      have hlife := h.lifecycle
      rw [hframe] at hlife
      refine h.move ?_ hlife
      show (s.received ++ (commands ++ [x]) ++ queue.values).Sublist s.line
      rw [line, ← hv, hframe, Frame.inOrder]
      simp
    · rw [he]
      refine h.goto (by rw [hframe]; rfl) ?_
      rw [hframe, Frame.inOrder, Frame.inOrder]
      simp
  · rename_i x commands hframe
    split
    · refine Lined.goto (show Lined forwarded (s.drop .closedBeforeDelivery x) from
        h.move (List.Sublist.refl _) h.lifecycle)
        (by rw [drop, hframe]; rfl) ?_
      rw [drop, hframe]
      exact List.sublist_cons_self _ _
    · refine h.goto (by rw [hframe]; rfl) ?_
      rw [hframe]
      exact List.Sublist.refl _
  · rename_i x commands hframe
    have hlife := h.lifecycle
    rw [hframe] at hlife
    refine h.move ?_ hlife
    rw [line, line, hframe]
    simp [received, Endpoint.goto, trigger, Event.received?, Frame.inOrder]
  · rename_i hframe
    refine h.goto (by rw [hframe]; rfl) ?_
    rw [hframe]
    exact List.nil_sublist _

omit [DecidableEq Id] in
theorem lined_dropWorld (h : Lined forwarded s) : Lined forwarded s.dropWorld := by
  unfold dropWorld
  split
  · rename_i hframe
    refine h.move ?_ fun message hmem => ?_
    · refine line_keep rfl (List.Sublist.refl _) ?_
      exact List.nil_sublist _
    · rw [hframe] at hmem
      cases hmem
  · exact h

/-- **Every step**, with the packet that it forwards. -/
theorem lined_step (hc : c.datagram = true) (h : Lined forwarded s) (a : Act Id P R D L) :
    Lined (forwarded ++ (Forwards.forwards? s a).toList) (s.step a) := by
  by_cases hoffer : ∃ id, a = .offer id
  · obtain ⟨id, rfl⟩ := hoffer
    simp only [step, offer]
    split
    · rename_i packet hs hr
      rw [if_pos hc]
      simp only [Forwards.forwards?, hs, hr]
      exact lined_forward h id packet
    · exact h.later _
  have hnone : Forwards.forwards? s a = none := by
    cases a with
    | offer id => exact absurd ⟨id, rfl⟩ hoffer
    | _ => rfl
  rw [hnone, Option.toList_none, List.append_nil]
  have hsetup : ∀ id, a.setup? = some id → Lined forwarded (s.step a) := fun id ha =>
    setup_rule (I := Lined forwarded) (fun _ _ hs => hs.update id _) (fun _ hs => hs.update id _)
      (fun _ _ hm hs => hs.push hm) h ha
  cases a with
  | create id => exact hsetup id rfl
  | publish id => exact hsetup id rfl
  | hand id arrives => exact hsetup id rfl
  | split id result => exact hsetup id rfl
  | abandon id => exact hsetup id rfl
  | stopSetup id => exact hsetup id rfl
  | link id a =>
    simp only [step, link]
    split
    · exact h.update id _
    · exact h
  | offer id => exact absurd ⟨id, rfl⟩ hoffer
  | report id =>
    simp only [step, report]
    split
    · exact sendIncoming_rule (I := Lined forwarded) h (fun _ => (h.push (by simp)).update id _)
        (h.update id _)
    · exact h
  | refuse error =>
    simp only [step, refuse]
    split
    · exact sendIncoming_rule (I := Lined forwarded) h (fun _ => h.push (by simp)) h
    · exact h
  | reject error =>
    simp only [step, reject]
    split
    · refine h.move (line_keep ?_ (List.Sublist.refl _) (List.Sublist.refl _)) h.lifecycle
      simp [received, trigger, Event.received?]
    · exact h
  | beginFrame budget =>
    simp only [step, beginFrame]
    split
    · rename_i hframe
      split
      · exact h.goto (by rw [hframe]; rfl) (by rw [hframe]; exact List.Sublist.refl _)
      · exact h
    · exact h
  | beginPackets budget =>
    simp only [step, beginPackets, if_pos hc]
    split
    · rename_i hframe
      exact h.goto (by rw [hframe]; rfl) (by rw [hframe]; exact List.Sublist.refl _)
    · exact h
  | advance => exact lined_advance hc h
  | dropWorld => exact lined_dropWorld h

end Steps

/-! ### The readers -/

/-- The transport's reader returns: nothing, what it has in hand now, or the end
of the loop. -/
theorem Link.read_spec (s : Link P R D L) (result : Option (Except (ReceiveError D L) R)) :
    s.read result = s ∨ ∃ more, (s.read result).received = s.received ++ more ∧ s.reader.Looping ∧
      s.reader.hand = [] ∧ ((s.read result).reader.Looping → (s.read result).reader.hand = more) := by
  cases hr : s.reader with
  | reading off =>
    right
    cases result with
    | none => exact ⟨[], by simp [Link.read, hr, Link.received], trivial, rfl, fun _ => by
        simp [Link.read, hr, Reader.hand]⟩
    | some result =>
      cases result with
      | ok packet => exact ⟨[packet], by simp [Link.read, hr, Link.received, Except.toOption], trivial,
          rfl, fun _ => by simp [Link.read, hr, Reader.hand]⟩
      | error error =>
        refine ⟨[], by simp [Link.read, hr, Link.received, Except.toOption], trivial, rfl, fun hl => ?_⟩
        rw [Link.read, hr] at hl
        exact absurd hl fun h => h
  | _ =>
    left
    rw [Link.read, hr]

variable [DecidableEq Id] {s : Endpoint c Id P R D L}

omit [DecidableEq Id] in
theorem calm_of_link {id : Id} {s' : Endpoint c Id P R D L}
    (h : (s'.peers id).link = (s.peers id).link) : Link.Calm (s.peers id).link (s'.peers id).link := by
  rw [h]
  exact Link.calm_refl _

theorem Link.Calm.trans {s s' s'' : Link P R D L} (h : Link.Calm s s') (h' : Link.Calm s' s'') :
    Link.Calm s s'' :=
  ⟨h'.reads.trans h.reads, fun hl =>
    ⟨(h.hand (h'.hand hl).1).1, (h'.hand hl).2.trans (h.hand (h'.hand hl).1).2⟩⟩

theorem calm_act (s : Endpoint c Id P R D L) {id k : Id} {a : Link.Act P R D L}
    (hread : ∀ result, a ≠ .read result) (hoffer : ∀ o, a ≠ .offer o) :
    Link.Calm (s.peers id).link ((s.act k a).peers id).link := by
  by_cases hk : id = k
  · subst hk
    rw [link_act_self]
    exact Link.calm_step _ a hread hoffer
  · refine calm_of_link ?_
    rw [Endpoint.act, peers_update_ne s hk]

theorem calm_moveTo (s : Endpoint c Id P R D L) (id k : Id) (setup : Setup D L) :
    Link.Calm (s.peers id).link ((s.moveTo k setup).peers id).link := by
  refine calm_of_link ?_
  by_cases hk : id = k
  · subst hk
    rw [moveTo, peers_update_self]
  · rw [moveTo, peers_update_ne s hk]

/-- The link of a connection that is not the one whose reader offers. -/
theorem link_offer_ne (s : Endpoint c Id P R D L) {id k : Id} (hk : id ≠ k) :
    ((s.offer k).peers id).link = (s.peers id).link := by
  have hact : ∀ (t : Endpoint c Id P R D L) (o : Link.Offer), t.peers id = s.peers id →
      ((t.act k (.offer o)).peers id).link = (s.peers id).link := by
    intro t o ht
    rw [Endpoint.act, peers_update_ne t hk, ht]
  unfold Endpoint.offer
  split
  · split
    · unfold forward
      split
      · exact hact _ .accepted rfl
      · exact hact _ .accepted rfl
      · exact hact s .refused rfl
    · split
      · exact hact _ .accepted rfl
      · exact hact s .refused rfl
      · exact hact s .pending rfl
  · rfl

/-- A step that neither reads nor offers for the connection. -/
theorem calm_step (s : Endpoint c Id P R D L) (id : Id) (a : Act Id P R D L)
    (hread : ∀ result, a ≠ .link id (.read result)) (hoffer : a ≠ .offer id) :
    Link.Calm (s.peers id).link ((s.step a).peers id).link := by
  have hsetup : ∀ k, a.setup? = some k → Link.Calm (s.peers id).link ((s.step a).peers id).link :=
    fun k ha => setup_rule (I := fun t : Endpoint c Id P R D L =>
        Link.Calm (s.peers id).link (t.peers id).link)
      (fun t setup h => Link.Calm.trans h (calm_moveTo t id k setup))
      (fun t h => Link.Calm.trans h (calm_act t (fun _ h => by cases h) fun _ h => by cases h))
      (fun _ _ _ h => h) (Link.calm_refl _) ha
  cases a with
  | create k => exact hsetup k rfl
  | publish k => exact hsetup k rfl
  | hand k arrives => exact hsetup k rfl
  | split k result => exact hsetup k rfl
  | abandon k => exact hsetup k rfl
  | stopSetup k => exact hsetup k rfl
  | link k a =>
    simp only [step, Endpoint.link]
    split
    · rename_i hallows
      by_cases hk : id = k
      · subst hk
        refine calm_act s (fun result hr => hread result (by rw [hr])) fun o ho => ?_
        subst ho
        cases hs : (s.peers id).setup <;> simp [hs, Setup.Allows] at hallows
      · refine calm_of_link ?_
        rw [Endpoint.act, peers_update_ne s hk]
    · exact Link.calm_refl _
  | offer k => exact calm_of_link (link_offer_ne s fun hk => hoffer (by rw [hk]))
  | report k =>
    have hact : ∀ (t : Endpoint c Id P R D L) (delivered : Bool), t.peers id = s.peers id →
        Link.Calm (s.peers id).link ((t.act k (.report delivered)).peers id).link := by
      intro t delivered ht
      rw [← ht]
      exact calm_act t (fun _ h => by cases h) fun _ h => by cases h
    simp only [step, Endpoint.report]
    split
    · exact sendIncoming_rule (I := fun t : Endpoint c Id P R D L =>
        Link.Calm (s.peers id).link (t.peers id).link) (Link.calm_refl _) (fun _ => hact _ true rfl)
        (hact s false rfl)
    · exact Link.calm_refl _
  | refuse error =>
    simp only [step, refuse]
    split
    · exact sendIncoming_rule (I := fun t : Endpoint c Id P R D L =>
        Link.Calm (s.peers id).link (t.peers id).link) (Link.calm_refl _)
        (fun _ => Link.calm_refl _) (Link.calm_refl _)
    · exact Link.calm_refl _
  | reject error =>
    simp only [step, reject]
    split
    · exact Link.calm_refl _
    · exact Link.calm_refl _
  | beginFrame budget =>
    simp only [step, beginFrame]
    split
    · split
      · exact Link.calm_refl _
      · exact Link.calm_refl _
    · exact Link.calm_refl _
  | beginPackets budget =>
    simp only [step, beginPackets]
    split
    · split
      · exact Link.calm_refl _
      · exact Link.calm_refl _
    · exact Link.calm_refl _
  | advance => exact calm_of_link (link_advance s id)
  | dropWorld =>
    simp only [step, dropWorld]
    split
    · exact Link.calm_step _ .dropWorld (fun _ h => by cases h) fun _ h => by cases h
    · exact Link.calm_refl _

/-! ### One connection's packets -/

/-- **What every step keeps** of one connection's packets: they are in the order
in which its transport's reader returned them, and the one in the reader's hand
comes after them. -/
structure InLine (s : Endpoint c Id P R D L) (id : Id) : Prop where
  behind : (ofConnection id s.line).Sublist (s.peers id).link.received
  whole : (s.peers id).link.reader.Looping →
    (ofConnection id s.line ++ (s.peers id).link.reader.hand).Sublist (s.peers id).link.received
  lifecycle : ∀ message ∈ s.frame.commands ++ s.incoming.items,
    ∀ id packet, message ≠ .streamPacket id packet

theorem inLine_new (c : Plugin) (id : Id) : (new c Id P R D L).InLine id :=
  ⟨List.Sublist.refl _, fun _ => List.Sublist.refl _, fun _ h => (by cases h)⟩

omit [DecidableEq Id] in
/-- What a step adds to the line. -/
theorem line_step [DecidableEq Id] (hc : c.datagram = true)
    (hlife : ∀ message ∈ s.frame.commands ++ s.incoming.items,
      ∀ id packet, message ≠ .streamPacket id packet) (a : Act Id P R D L) :
    Lined (s.line ++ (Forwards.forwards? s a).toList) (s.step a) :=
  lined_step hc ⟨List.Sublist.refl _, hlife⟩ a

omit [DecidableEq Id] in
theorem forwards?_eq_some {id : Id} {x : Id × R} (h : Forwards.forwards? s (.offer id) = some x) :
    x.1 = id ∧ (s.peers id).setup = .running ∧ (s.peers id).link.reader = .offering x.2 := by
  simp only [Forwards.forwards?] at h
  split at h
  · rename_i packet hs hr
    cases h
    exact ⟨rfl, hs, hr⟩
  · cases h

theorem offer_of_none {id : Id} (h : Forwards.forwards? s (.offer id) = none) : s.offer id = s := by
  unfold offer
  split
  · rename_i packet hs hr
    simp [Forwards.forwards?, hs, hr] at h
  · rfl

/-- **The reader's packet is forwarded**: it joins the queue or is dropped, or
the world is gone. -/
theorem InLine.forward {id : Id} (hc : c.datagram = true) (h : s.InLine id) {packet : R}
    (hs : (s.peers id).setup = .running) (hr : (s.peers id).link.reader = .offering packet) :
    (s.offer id).InLine id := by
  have hforwards : Forwards.forwards? s (.offer id) = some (id, packet) := by
    simp [Forwards.forwards?, hs, hr]
  obtain ⟨hline, hlife⟩ := line_step hc h.lifecycle (.offer id)
  rw [hforwards] at hline
  have hof : (ofConnection id (s.offer id).line).Sublist (ofConnection id s.line ++ [packet]) := by
    have hsub := hline.filterMap fun x => if x.1 = id then some x.2 else none
    rw [List.filterMap_append] at hsub
    simpa [ofConnection, Endpoint.step] using hsub
  have hwhole := h.whole (by rw [hr]; trivial)
  rw [hr] at hwhole
  have heq : s.offer id = s.forward id packet := by
    rw [offer, hs, hr]
    exact if_pos hc
  have haccepted : ∀ t : Endpoint c Id P R D L, t.peers id = s.peers id →
      ((t.act id (.offer .accepted)).peers id).link.received = (s.peers id).link.received ∧
        ((t.act id (.offer .accepted)).peers id).link.reader.hand = [] := by
    intro t ht
    rw [link_act_self, ht]
    simp [Link.step, Link.offer, hr, Link.received, Reader.hand]
  have hjoin : ((s.offer id).peers id).link.received = (s.peers id).link.received ∧
      ((s.offer id).peers id).link.reader.hand = [] → (s.offer id).InLine id := by
    rintro ⟨hreceived, hhand⟩
    refine ⟨?_, fun _ => ?_, hlife⟩
    · rw [hreceived]
      exact hof.trans hwhole
    · rw [hreceived, hhand, List.append_nil]
      exact hof.trans hwhole
  rcases s.datagrams.trySend_spec (id, packet) 1 with ⟨evicted, queue, he, -⟩ | ⟨he, -⟩ | ⟨he, -⟩
  · refine hjoin ?_
    rw [heq, Endpoint.forward, he]
    exact haccepted _ rfl
  · have hrefused : s.offer id = s.act id (.offer .refused) := by
      rw [heq, Endpoint.forward, he]
    have hcalm := Link.calm_offer (s.peers id).link (o := .refused) fun h => by cases h
    rw [← link_act_self s id, ← hrefused] at hcalm
    have hsame : (s.offer id).line = s.line := by
      rw [hrefused]
      rfl
    have hreceived : ((s.offer id).peers id).link.received = (s.peers id).link.received := by
      rw [Link.received, hcalm.reads, Link.received]
    refine ⟨?_, fun hl => ?_, hlife⟩
    · rw [hsame, hreceived]
      exact h.behind
    · obtain ⟨hl', hhand⟩ := hcalm.hand hl
      rw [hsame, hreceived, hhand]
      exact h.whole hl'
  · refine hjoin ?_
    rw [heq, Endpoint.forward, he]
    exact haccepted _ rfl

theorem inLine_step {id : Id} (hc : c.datagram = true) (h : s.InLine id) (a : Act Id P R D L) :
    (s.step a).InLine id := by
  obtain ⟨hline, hlife⟩ := line_step hc h.lifecycle a
  have hof : (ofConnection id (s.step a).line).Sublist
      (ofConnection id s.line ++ ofConnection id (Forwards.forwards? s a).toList) := by
    rw [ofConnection, ofConnection, ofConnection, ← List.filterMap_append]
    exact hline.filterMap _
  by_cases hoffer : a = .offer id
  · subst hoffer
    cases hf : Forwards.forwards? s (.offer id) with
    | none =>
      rw [step, offer_of_none hf]
      exact h
    | some x =>
      obtain ⟨-, hs, hr⟩ := forwards?_eq_some hf
      exact h.forward hc hs hr
  have hnone : ofConnection id (Forwards.forwards? s a).toList = [] := by
    cases a with
    | offer k =>
      have hk : k ≠ id := fun hk => hoffer (by rw [hk])
      cases hf : Forwards.forwards? s (.offer k) with
      | none => rfl
      | some x =>
        obtain ⟨hx, -, -⟩ := forwards?_eq_some hf
        simp [ofConnection, hx, hk]
    | _ => rfl
  rw [hnone, List.append_nil] at hof
  by_cases hread : ∃ result, a = .link id (.read result)
  · obtain ⟨result, rfl⟩ := hread
    simp only [step, Endpoint.link] at hof hlife ⊢
    split at hof
    · rename_i hallows
      rw [if_pos hallows] at hlife ⊢
      rcases Link.read_spec (s.peers id).link result with he | ⟨more, hreceived, hl, hhand, hnext⟩
      · have hsame : ((s.act id (.read result)).peers id).link = (s.peers id).link := by
          rw [link_act_self]
          exact he
        exact ⟨by rw [hsame]; exact h.behind, by rw [hsame]; exact h.whole, hlife⟩
      · rw [← show ((s.act id (.read result)).peers id).link = (s.peers id).link.read result from
          link_act_self s id _] at hreceived hnext
        have hwhole := h.whole hl
        rw [hhand, List.append_nil] at hwhole
        refine ⟨?_, fun hl' => ?_, hlife⟩
        · rw [hreceived]
          exact hwhole.trans (List.sublist_append_left _ _)
        · rw [hreceived, hnext hl']
          exact hwhole.append (List.Sublist.refl _)
    · rename_i hallows
      rw [if_neg hallows]
      exact h
  have hcalm := calm_step s id a (fun result hr => hread ⟨result, hr⟩) hoffer
  have hreceived : ((s.step a).peers id).link.received = (s.peers id).link.received := by
    rw [Link.received, hcalm.reads, Link.received]
  refine ⟨?_, fun hl => ?_, hlife⟩
  · rw [hreceived]
    exact hof.trans h.behind
  · obtain ⟨hl', hhand⟩ := hcalm.hand hl
    rw [hreceived, hhand]
    exact (hof.append (List.Sublist.refl _)).trans (h.whole hl')

theorem InLine.triggered {id : Id} (h : s.InLine id) :
    (s.triggered id).Sublist (s.peers id).link.received := by
  refine List.Sublist.trans ?_ h.behind
  rw [← ofConnection_received, line, List.append_assoc]
  exact (List.sublist_append_left _ _).filterMap _

namespace Forwards

theorem lined_run (hc : c.datagram = true) (as : List (Act Id P R D L)) :
    Lined (run step (new c Id P R D L) as).forwarded (run step (new c Id P R D L) as).endpoint :=
  run_inv (I := fun h : Forwards c Id P R D L => Lined h.forwarded h.endpoint)
    (fun _ a h => lined_step hc h a) as (lined_new c Id P R D L)

end Forwards

/-- **Datagrams are not reordered.** After any steps, of any connections, handles
and frames, and with the world there or gone: the packets triggered, those that
the frame has taken and those queued are, in this order, a subsequence of all
packets forwarded. For each connection they are a subsequence of what its
transport's reader returned, and so are its packets triggered. -/
theorem datagrams_in_order (c : Plugin) (hc : c.datagram = true) (as : List (Act Id P R D L)) :
    let h := run Forwards.step (Forwards.new c Id P R D L) as
    let s := h.endpoint
    s = run step (new c Id P R D L) as ∧
    (s.received ++ s.frame.inOrder ++ s.datagrams.values).Sublist h.forwarded ∧
    ∀ id, (ofConnection id (s.received ++ s.frame.inOrder ++ s.datagrams.values)).Sublist
        (s.peers id).link.received ∧
      (s.triggered id).Sublist (s.peers id).link.received := by
  intro h s
  have hrun : s = run step (new c Id P R D L) as := Forwards.endpoint_run as _
  refine ⟨hrun, (Forwards.lined_run hc as).order, fun id => ?_⟩
  have hline : s.InLine id := by
    rw [hrun]
    exact run_inv (I := fun s : Endpoint c Id P R D L => s.InLine id)
      (fun _ a h => inLine_step hc h a) as (inLine_new c id)
  exact ⟨hline.behind, hline.triggered⟩

/-- Of three packets of a connection the oldest is evicted, and the others come
in their order. -/
theorem datagrams_in_order_two :
    let c : Plugin := ⟨.client, true, .bits64, 1, .dropNewest, 2, .dropOldest⟩
    let receive (packet : ℕ) : List (Act ℕ ℕ ℕ ℕ ℕ) := [.link 0 (.read (some (.ok packet))),
      .link 0 .advance, .offer 0, .link 0 .advance, .link 0 .advance]
    let as : List (Act ℕ ℕ ℕ ℕ ℕ) := [.create 0, .publish 0, .hand 0 true, .split 0 (.ok ()),
      .link 0 .poll, .link 0 .advance, .link 0 .advance] ++ receive 7 ++ receive 8 ++ receive 9 ++
      [.beginFrame 8, .advance, .advance, .advance, .beginPackets 8] ++ List.replicate 10 .advance
    let h := run Forwards.step (Forwards.new c ℕ ℕ ℕ ℕ ℕ) as
    h.forwarded = [(0, 7), (0, 8), (0, 9)] ∧ h.endpoint.received = [(0, 8), (0, 9)] ∧
      (h.endpoint.received ++ h.endpoint.frame.inOrder ++ h.endpoint.datagrams.values).Sublist
        h.forwarded := by
  intro c receive as h
  exact ⟨by decide +kernel, by decide +kernel, (datagrams_in_order c rfl as).2.1⟩

end Endpoint
end Slinet
