/-
# The lifecycle grammar

The events of a connection are established, packets, disconnected, in this
order, the first and the last at most once (`Life`). For a stream that is the
order of one queue. A datagram packet takes another way, and is kept between
the two by three things: it leaves its queue only when its connection is
published or cancelled; the token is cancelled before `Closed` is sent; and the
command that triggers it looks at the token once more.

`Orderly` follows the events of one connection with those that are on their
way, in the commands of the frame and in the queue: together they are a word
of the grammar, and the state in which it ends is what the connection's task
may send next. The registry holds a connection exactly while its events are
between the two ends. `events_grammar` is the result over all runs.
-/
import Slinet.Endpoint

namespace Slinet

/-! ### The grammar -/

inductive Kind
  | established
  | packet
  | disconnected
  deriving DecidableEq, Repr

/-- The state of a connection's events. -/
inductive Life
  | start
  | up
  | down
  deriving DecidableEq, Repr

namespace Life

def next : Life → Kind → Option Life
  | start, .established => some up
  | up, .packet => some up
  | up, .disconnected => some down
  | _, _ => none

/-- The state after the events, if they are in order. -/
def after : Life → List Kind → Option Life
  | st, [] => some st
  | st, k :: ks => (st.next k).bind fun st' => st'.after ks

theorem after_append (st : Life) (a b : List Kind) :
    st.after (a ++ b) = (st.after a).bind fun st' => st'.after b := by
  induction a generalizing st with
  | nil => rfl
  | cons k ks ih =>
    simp only [List.cons_append, after, Option.bind_assoc]
    congr 1
    funext st'
    exact ih st'

theorem after_concat {st st' : Life} {l : List Kind} (h : st.after l = some st') (k : Kind) :
    st.after (l ++ [k]) = st'.next k := by
  rw [after_append, h]
  simp [after]

/-- What is in order is in order up to any point. -/
theorem after_left {st st' : Life} {a b : List Kind} (h : st.after (a ++ b) = some st') :
    ∃ mid, st.after a = some mid ∧ mid.after b = some st' := by
  rw [after_append] at h
  exact Option.bind_eq_some_iff.mp h

theorem after_start {l : List Kind} (h : start.after l = some start) : l = [] := by
  have hne : ∀ (l : List Kind) (st : Life), st ≠ start → st.after l ≠ some start := by
    intro l
    induction l with
    | nil =>
      intro st hst h
      exact hst (Option.some.inj h)
    | cons k ks ih =>
      intro st hst h
      obtain ⟨st', hn, ha⟩ := Option.bind_eq_some_iff.mp h
      refine ih st' ?_ ha
      rintro rfl
      cases st <;> cases k <;> cases hn
  cases l with
  | nil => rfl
  | cons k ks =>
    obtain ⟨st', hn, ha⟩ := Option.bind_eq_some_iff.mp h
    refine absurd ha (hne ks st' ?_)
    rintro rfl
    cases k <;> cases hn

/-- Only a disconnection ends the packets. -/
theorem disconnected_mem {l : List Kind} {st : Life} (h : st.after l = some down) (hst : st ≠ down) :
    .disconnected ∈ l := by
  induction l generalizing st with
  | nil => exact absurd (Option.some.inj h) hst
  | cons k ks ih =>
    obtain ⟨st', hn, ha⟩ := Option.bind_eq_some_iff.mp h
    cases k with
    | disconnected => exact List.mem_cons_self
    | established =>
      refine List.mem_cons_of_mem _ (ih ha ?_)
      rintro rfl
      cases st <;> cases hn
    | packet =>
      refine List.mem_cons_of_mem _ (ih ha ?_)
      rintro rfl
      cases st <;> cases hn

theorem after_down {l : List Kind} {st : Life} (h : down.after l = some st) : l = [] := by
  cases l with
  | nil => rfl
  | cons k ks =>
    obtain ⟨st', hn, -⟩ := Option.bind_eq_some_iff.mp h
    cases k <;> cases hn

theorem grammar_up {l : List Kind} {st : Life} (h : up.after l = some st) :
    ∃ n, l <+: List.replicate n .packet ++ [.disconnected] := by
  induction l with
  | nil => exact ⟨0, List.nil_prefix⟩
  | cons k ks ih =>
    obtain ⟨st', hn, ha⟩ := Option.bind_eq_some_iff.mp h
    cases k with
    | established => cases hn
    | packet =>
      cases hn
      obtain ⟨n, hn⟩ := ih ha
      exact ⟨n + 1, List.prefix_cons_inj _ |>.mpr hn⟩
    | disconnected =>
      cases hn
      rw [after_down ha]
      exact ⟨0, List.prefix_rfl⟩

/-- Events in order are the beginning of a word of the grammar. -/
theorem grammar {l : List Kind} {st : Life} (h : start.after l = some st) :
    ∃ n, l <+: .established :: List.replicate n .packet ++ [.disconnected] := by
  cases l with
  | nil => exact ⟨0, List.nil_prefix⟩
  | cons k ks =>
    obtain ⟨st', hn, ha⟩ := Option.bind_eq_some_iff.mp h
    cases k with
    | established =>
      cases hn
      obtain ⟨n, hn⟩ := grammar_up ha
      exact ⟨n, List.prefix_cons_inj _ |>.mpr hn⟩
    | packet => cases hn
    | disconnected => cases hn

end Life

/-! ### What a connection's task may still send -/

/-- The reader's last message is behind it. -/
def Reader.Reported {R D L : Type*} : Reader R D L → Prop
  | notifying => True
  | done => True
  | _ => False

namespace Link

variable {P R D L : Type*}

/-- No step of a link undoes the cancellation. -/
theorem token_step (s : Link P R D L) (a : Act P R D L) (h : s.conn.token = true) :
    (s.step a).conn.token = true := by
  cases a with
  | conn a =>
    simp only [step]
    split
    · rw [(note_fields _ _ _).1]
      exact Conn.token_step s.conn a h
    · exact h
  | poll =>
    simp only [step, poll]
    split <;> exact h
  | advance =>
    simp only [step, (note_fields _ _ _).1]
    by_cases hr : ∃ error, s.reader = .closing error
    · obtain ⟨error, hr⟩ := hr
      simp [advance, hr]
    · rw [token_advance (not_exists.mp hr)]
      exact h
  | read result =>
    simp only [step, read]
    split
    · split <;> exact h
    · exact h
  | offer o =>
    simp only [step, offer]
    split
    · split
      · exact h
      · split <;> exact h
      · split <;> exact h
    · exact h
  | report delivered =>
    simp only [step, report]
    split
    · split
      · exact h
      · split <;> exact h
    · exact h
  | notified =>
    simp only [step, notified]
    split <;> exact h
  | stopReader =>
    simp only [step, stopReader, h, if_true]
    split <;> exact h
  | frame =>
    simp only [step, frame]
    split
    · split <;> exact h
    · exact h
  | dropWorld => exact h

/-- A reader that has reported reports no more. -/
theorem reported_step (s : Link P R D L) (a : Act P R D L) (h : s.reader.Reported) :
    (s.step a).reader.Reported := by
  have hcases : s.reader = .notifying ∨ s.reader = .done := by
    cases hr : s.reader <;> simp [hr, Reader.Reported] at h ⊢
  cases a with
  | conn a =>
    simp only [step]
    split
    · rw [(note_fields _ _ _).2.1]
      exact h
    · exact h
  | poll => rcases hcases with hr | hr <;> simpa [step, poll, hr] using h
  | advance =>
    simp only [step]
    rw [(note_fields _ _ _).2.1]
    rcases hcases with hr | hr <;> simpa [advance, hr] using h
  | read result => rcases hcases with hr | hr <;> simpa [step, read, hr] using h
  | offer o => rcases hcases with hr | hr <;> simpa [step, offer, hr] using h
  | report delivered => rcases hcases with hr | hr <;> simpa [step, report, hr] using h
  | notified =>
    rcases hcases with hr | hr
    · simp [step, notified, hr, finish, Reader.Reported]
    · simpa [step, notified, hr] using h
  | stopReader =>
    simp only [step, stopReader]
    split
    · rcases hcases with hr | hr
      · simp [hr, finish, Reader.Reported]
      · simpa [hr] using h
    · exact h
  | frame =>
    simp only [step, frame]
    split
    · split <;> exact h
    · exact h
  | dropWorld => exact h

end Link

/-! ### The words of a connection -/

section Words

variable {Id R D L : Type*} [DecidableEq Id]

/-- What a message says of the connection `id`. -/
def Message.kind? (id : Id) : Message Id R D L → Option Kind
  | established k => if k = id then some .established else none
  | streamPacket k _ => if k = id then some .packet else none
  | closed (some k) _ => if k = id then some .disconnected else none
  | closed none _ => none

def Event.kind? (id : Id) : Event Id R D L → Option Kind
  | established k => if k = id then some .established else none
  | packet k _ _ => if k = id then some .packet else none
  | disconnected (some k) _ => if k = id then some .disconnected else none
  | disconnected none _ => none

/-- The lifecycle commands still to be applied. -/
def Frame.commands : Frame Id R D L → List (Message Id R D L)
  | lifecycle _ commands => commands
  | applying commands => commands
  | _ => []

/-- The datagram packets that the frame has taken from their queue. -/
def Frame.datagrams : Frame Id R D L → List (Id × R)
  | packets _ taken commands => taken.toList ++ commands
  | delivering _ commands => commands
  | _ => []

/-- The datagram packet that has passed its last test. -/
def Frame.passing : Frame Id R D L → Option Id
  | delivering true (x :: _) => some x.1
  | _ => none

end Words

/-- The connection's task may still send a message. -/
def Peer.Live {P R D L : Type*} (p : Peer P R D L) : Prop :=
  match p.setup with
  | .handing => True
  | .splitting => True
  | .unsplit _ => True
  | .closing _ => True
  | .running => ¬ p.link.reader.Reported
  | _ => False

/-- Nothing has been sent for the connection yet. -/
def Peer.Silent {P R D L : Type*} (p : Peer P R D L) : Prop :=
  match p.setup with
  | .unborn => True
  | .publishing => True
  | _ => False

namespace Endpoint

variable {c : Plugin} {Id P R D L : Type*} [DecidableEq Id]

/-- The connection's events so far. -/
def past (s : Endpoint c Id P R D L) (id : Id) : List Kind := s.events.filterMap (Event.kind? id)

/-- Those on their way to it through the lifecycle queue. -/
def pending (s : Endpoint c Id P R D L) (id : Id) : List Kind :=
  (s.frame.commands ++ s.incoming.items).filterMap (Message.kind? id)

/-- What every step keeps of a connection. -/
structure Orderly (s : Endpoint c Id P R D L) (id : Id) : Prop where
  line : ∃ st, Life.start.after (s.past id ++ s.pending id) = some st ∧
    ((s.peers id).Silent → st = .start) ∧
    ((s.peers id).Live → s.incoming.receiverOpen = true → st = .up)
  registry : id ∈ s.registry ↔ Life.start.after (s.past id) = some .up
  published : (s.peers id).published = true ↔ s.past id ≠ []
  ended : .disconnected ∈ s.past id ++ s.pending id → s.cancelled id = true
  closing : ∀ error, (s.peers id).setup = .closing error → s.cancelled id = true
  link : (s.peers id).link.Good ∧ (s.peers id).link.Cause
  taken : ∀ x ∈ s.frame.datagrams, x.1 = id → s.ready x = true
  passing : s.frame.passing = some id → Life.start.after (s.past id) = some .up

/-- What every step keeps. -/
structure Good (s : Endpoint c Id P R D L) : Prop where
  orderly : ∀ id, s.Orderly id
  seen : ∀ id packet registry, .packet id packet registry ∈ s.events → id ∈ registry

theorem good_new (c : Plugin) (Id P R D L : Type*) [DecidableEq Id] : Good (new c Id P R D L) := by
  refine ⟨fun id => ?_, by simp [new]⟩
  refine ⟨⟨.start, rfl, fun _ => rfl, fun h => h.elim⟩, ?_, ?_, ?_, ?_, ?_, ?_, ?_⟩
  · simp [new, past, Life.after]
  · simp [new, past]
  · simp [new, past, pending, Frame.commands, Mpsc.new]
  · simp [new]
  · exact ⟨Link.good_new _ _ _ _ _, Link.cause_new _ _ _ _ _⟩
  · simp [new, Frame.datagrams]
  · simp [new, Frame.passing]

/-! ### Steps that send nothing -/

theorem peers_update_self (s : Endpoint c Id P R D L) (id : Id) (f : Peer P R D L → Peer P R D L) :
    (s.update id f).peers id = f (s.peers id) := Function.update_self _ _ _

theorem peers_update_ne (s : Endpoint c Id P R D L) {id k : Id} (h : k ≠ id)
    (f : Peer P R D L → Peer P R D L) : (s.update id f).peers k = s.peers k :=
  Function.update_of_ne h _ _

end Endpoint

/-- What a step keeps of a peer that sends nothing. -/
structure Peer.Quiet {P R D L : Type*} (p p' : Peer P R D L) : Prop where
  published : p'.published = p.published
  silent : p'.Silent → p.Silent
  live : p'.Live → p.Live
  token : p.link.conn.token = true → p'.link.conn.token = true
  closing : ∀ error, p'.setup = .closing error → p'.link.conn.token = true
  link : p'.link.Good ∧ p'.link.Cause

namespace Endpoint

variable {c : Plugin} {Id P R D L : Type*} [DecidableEq Id]

theorem Orderly.quiet_refl {s : Endpoint c Id P R D L} {id : Id} (h : s.Orderly id) :
    Peer.Quiet (s.peers id) (s.peers id) :=
  ⟨rfl, fun hs => hs, fun hl => hl, fun ht => ht, h.closing, h.link⟩

omit [DecidableEq Id] in
theorem ready_mono {s s' : Endpoint c Id P R D L} {x : Id × R}
    (hp : (s'.peers x.1).published = (s.peers x.1).published)
    (ht : s.cancelled x.1 = true → s'.cancelled x.1 = true) (h : s.ready x = true) :
    s'.ready x = true := by
  simp only [ready, Bool.or_eq_true, hp] at h ⊢
  exact h.imp_right ht

/-- A step that triggers nothing, sends nothing and takes nothing. -/
theorem Orderly.keep {s s' : Endpoint c Id P R D L} {id : Id} (h : s.Orderly id)
    (hpast : s'.past id = s.past id) (hpend : s'.pending id = s.pending id)
    (hopen : s'.incoming.receiverOpen = true → s.incoming.receiverOpen = true)
    (hreg : id ∈ s'.registry ↔ id ∈ s.registry) (hq : Peer.Quiet (s.peers id) (s'.peers id))
    (htaken : ∀ x ∈ s'.frame.datagrams, x.1 = id → s.ready x = true)
    (hpass : s'.frame.passing = some id → Life.start.after (s.past id) = some .up) :
    s'.Orderly id := by
  obtain ⟨st, hst, hsilent, hlive⟩ := h.line
  refine ⟨⟨st, ?_, fun hs => hsilent (hq.silent hs), fun hl ho => hlive (hq.live hl) (hopen ho)⟩,
    ?_, ?_, fun hd => hq.token (h.ended ?_), hq.closing, hq.link, fun x hx hid => ?_, ?_⟩
  · rw [hpast, hpend]
    exact hst
  · rw [hreg, hpast]
    exact h.registry
  · rw [hq.published, hpast]
    exact h.published
  · rw [hpast, hpend] at hd
    exact hd
  · subst hid
    exact ready_mono hq.published hq.token (htaken x hx rfl)
  · rw [hpast]
    exact hpass

/-- A step of one connection that sends nothing. -/
theorem Good.update {s : Endpoint c Id P R D L} (h : Good s) {id : Id}
    {f : Peer P R D L → Peer P R D L} (hf : Peer.Quiet (s.peers id) (f (s.peers id))) :
    Good (s.update id f) := by
  refine ⟨fun k => ?_, h.seen⟩
  refine (h.orderly k).keep rfl rfl (fun ho => ho) Iff.rfl ?_ (h.orderly k).taken (h.orderly k).passing
  by_cases hk : k = id
  · subst hk
    rw [peers_update_self]
    exact hf
  · rw [peers_update_ne s hk]
    exact (h.orderly k).quiet_refl

theorem quiet_act {s : Endpoint c Id P R D L} {id : Id} (h : s.Orderly id) (a : Link.Act P R D L) :
    Peer.Quiet (s.peers id) { s.peers id with link := (s.peers id).link.step a } := by
  refine ⟨rfl, fun hs => hs, fun hl => ?_, fun ht => Link.token_step _ a ht, fun error he => ?_,
    Link.good_step h.link.1 h.link.2 a, Link.cause_step h.link.1 h.link.2 a⟩
  · simp only [Peer.Live] at hl ⊢
    split
    · trivial
    · trivial
    · trivial
    · trivial
    · rename_i hr
      simp only [hr] at hl
      exact fun hrep => hl (Link.reported_step _ a hrep)
    · rename_i h1 h2 h3 h4 h5
      split at hl <;> simp_all
  · exact Link.token_step _ a (h.closing error he)

theorem good_act {s : Endpoint c Id P R D L} (h : Good s) (id : Id) (a : Link.Act P R D L) :
    Good (s.act id a) :=
  h.update (quiet_act (h.orderly id) a)

theorem quiet_moveTo {s : Endpoint c Id P R D L} {id : Id} (h : s.Orderly id) {setup : Setup D L}
    (hsilent : Peer.Silent { s.peers id with setup := setup } → (s.peers id).Silent)
    (hlive : Peer.Live { s.peers id with setup := setup } → (s.peers id).Live)
    (hclosing : ∀ error, setup = .closing error → s.cancelled id = true) :
    Peer.Quiet (s.peers id) { s.peers id with setup := setup } :=
  ⟨rfl, hsilent, hlive, fun ht => ht, hclosing, h.link⟩

/-- The task ends. -/
theorem good_gone {s : Endpoint c Id P R D L} (h : Good s) (id : Id) : Good (s.moveTo id .gone) :=
  h.update (quiet_moveTo (h.orderly id) (fun hs => hs.elim) (fun hl => hl.elim)
    fun error he => by cases he)

theorem good_create {s : Endpoint c Id P R D L} (h : Good s) (id : Id) : Good (s.create id) := by
  unfold create
  split
  · rename_i hs
    refine h.update (quiet_moveTo (h.orderly id) (fun _ => ?_) (fun hl => hl.elim)
      fun error he => by cases he)
    simp [Peer.Silent, hs]
  · exact h

theorem good_hand {s : Endpoint c Id P R D L} (h : Good s) (id : Id) (arrives : Bool) :
    Good (s.hand id arrives) := by
  unfold hand
  split
  · rename_i hs
    cases arrives with
    | false => exact good_gone h id
    | true =>
      refine h.update (quiet_moveTo (h.orderly id) (fun hs => hs.elim) (fun _ => ?_)
        fun error he => by cases he)
      simp [Peer.Live, hs]
  · exact h

theorem good_split {s : Endpoint c Id P R D L} (h : Good s) (id : Id)
    (result : Except IoError Unit) : Good (s.split id result) := by
  unfold split
  split
  · rename_i hs
    have hlive : (s.peers id).Live := by simp [Peer.Live, hs]
    split
    · exact h.update (quiet_moveTo (h.orderly id) (fun hs => hs.elim) (fun _ => hlive)
        fun error he => by cases he)
    · exact h.update (quiet_moveTo (h.orderly id) (fun hs => hs.elim) (fun _ => hlive)
        fun error he => by cases he)
  · exact h

theorem good_stopSetup {s : Endpoint c Id P R D L} (h : Good s) (id : Id) : Good (s.stopSetup id) := by
  unfold stopSetup
  split
  · exact good_gone h id
  · exact good_gone h id
  · exact good_gone h id
  · exact good_gone h id
  · exact h

theorem good_link {s : Endpoint c Id P R D L} (h : Good s) (id : Id) (a : Link.Act P R D L) :
    Good (s.link id a) := by
  unfold link
  split
  · exact good_act h id a
  · exact h

/-! ### Steps that send -/

/-- The connection's task sends a message that its word allows. -/
theorem Good.push {s : Endpoint c Id P R D L} (h : Good s) {id : Id} {message : Message Id R D L}
    {kind : Kind} {st st' : Life} {f : Peer P R D L → Peer P R D L}
    (hopen : s.incoming.receiverOpen = true)
    (hkind : ∀ k, message.kind? k = if k = id then some kind else none)
    (hold : (s.peers id).Silent ∧ st = .start ∨ (s.peers id).Live ∧ st = .up)
    (hnext : st.next kind = some st') (hd : kind = .disconnected → s.cancelled id = true)
    (hpub : (f (s.peers id)).published = (s.peers id).published)
    (hsilent : ¬ (f (s.peers id)).Silent) (hlive : (f (s.peers id)).Live → st' = .up)
    (htok : s.cancelled id = true → (f (s.peers id)).link.conn.token = true)
    (hclosing : ∀ error, (f (s.peers id)).setup ≠ .closing error)
    (hlink : (f (s.peers id)).link.Good ∧ (f (s.peers id)).link.Cause) :
    Good ({ s with incoming := { s.incoming with items := s.incoming.items ++ [message] } }.update
      id f) := by
  refine ⟨fun k => ?_, h.seen⟩
  by_cases hk : k = id
  · subst hk
    have ho := h.orderly k
    obtain ⟨st₀, hst, hs, hl⟩ := ho.line
    have hpeers := peers_update_self
      { s with incoming := { s.incoming with items := s.incoming.items ++ [message] } } k f
    have hst₀ : st₀ = st := by
      rcases hold with ⟨hsil, rfl⟩ | ⟨hliv, rfl⟩
      · exact hs hsil
      · exact hl hliv hopen
    subst hst₀
    have hpend : (s.frame.commands ++ (s.incoming.items ++ [message])).filterMap (Message.kind? k) =
        s.pending k ++ [kind] := by
      simp [pending, hkind k]
    have hcancel : ({ s with incoming := { s.incoming with
        items := s.incoming.items ++ [message] } }.update k f).cancelled k =
        (f (s.peers k)).link.conn.token := by
      rw [cancelled, hpeers]
    refine ⟨⟨st', ?_, ?_, ?_⟩, ho.registry, ?_, ?_, ?_, ?_, ?_, ho.passing⟩
    · show Life.start.after (s.past k ++ _) = some st'
      rw [pending]
      simp only [Endpoint.update]
      rw [hpend, ← List.append_assoc, Life.after_concat hst]
      exact hnext
    · rw [hpeers]
      exact fun hs => absurd hs hsilent
    · rw [hpeers]
      exact fun hl _ => hlive hl
    · rw [hpeers, hpub]
      exact ho.published
    · intro hmem
      rw [hcancel]
      simp only [pending, Endpoint.update] at hmem
      rw [hpend, ← List.append_assoc] at hmem
      rcases List.mem_append.mp hmem with hmem | hmem
      · exact htok (ho.ended hmem)
      · exact htok (hd (List.mem_singleton.mp hmem).symm)
    · rw [hpeers]
      exact fun error he => absurd he (hclosing error)
    · rw [hpeers]
      exact hlink
    · intro x hx hid
      subst hid
      refine ready_mono (s := s) ?_ ?_ (ho.taken x hx rfl)
      · rw [hpeers, hpub]
      · rw [hcancel]
        exact htok
  · have ho := h.orderly k
    refine ho.keep rfl ?_ (fun ho => ho) Iff.rfl ?_ ho.taken ho.passing
    · simp [pending, Endpoint.update, hkind k, hk]
    · rw [peers_update_ne _ hk]
      exact ho.quiet_refl

theorem kind?_established (id k : Id) :
    (.established id : Message Id R D L).kind? k = if k = id then some .established else none := by
  simp [Message.kind?, eq_comm]

theorem kind?_streamPacket (id : Id) (packet : R) (k : Id) :
    (.streamPacket id packet : Message Id R D L).kind? k = if k = id then some .packet else none := by
  simp [Message.kind?, eq_comm]

theorem kind?_closed (id : Id) (error : ReceiveError D L) (k : Id) :
    (.closed (some id) error : Message Id R D L).kind? k =
      if k = id then some .disconnected else none := by
  simp [Message.kind?, eq_comm]

theorem good_publish {s : Endpoint c Id P R D L} (h : Good s) (id : Id) : Good (s.publish id) := by
  unfold publish
  split
  · rename_i hs
    have hsilent : (s.peers id).Silent := by simp [Peer.Silent, hs]
    refine sendIncoming_rule h (fun ho => ?_) (good_gone h id)
    exact h.push ho (kind?_established id) (Or.inl ⟨hsilent, rfl⟩) rfl (fun hk => by cases hk) rfl
      (fun hs => hs.elim) (fun _ => rfl) (fun ht => ht) (fun error he => by cases he)
      (h.orderly id).link
  · exact h

theorem good_abandon {s : Endpoint c Id P R D L} (h : Good s) (id : Id) : Good (s.abandon id) := by
  unfold abandon
  split
  · rename_i error hs
    have h' := good_act h id (.conn .disconnect)
    refine h'.update (quiet_moveTo (h'.orderly id) (fun hs => hs.elim) (fun _ => ?_) fun _ _ => ?_)
    · simp [act, peers_update_self, Peer.Live, hs]
    · rw [cancelled, act, peers_update_self]
      simp [Link.step, Link.Allowed, (Link.note_fields _ _ _).1, Conn.step, Conn.disconnect]
  · rename_i error hs
    have hlive : (s.peers id).Live := by simp [Peer.Live, hs]
    refine sendIncoming_rule h (fun ho => ?_) (good_gone h id)
    exact h.push ho (kind?_closed id error) (Or.inr ⟨hlive, rfl⟩) rfl
      (fun _ => (h.orderly id).closing error hs) rfl (fun hs => hs.elim) (fun hl => hl.elim)
      (fun ht => ht) (fun error he => by cases he) (h.orderly id).link
  · exact h

/-- The datagram queue and the counters are no part of the invariant. -/
theorem Good.queues {s : Endpoint c Id P R D L} (h : Good s) (datagrams : Lossy.Queue c.limits (Id × R))
    (drops : List (QueueDropReason × Id × R)) :
    Good { s with datagrams := datagrams, drops := drops } :=
  ⟨fun id => (h.orderly id).keep rfl rfl (fun ho => ho) Iff.rfl (h.orderly id).quiet_refl
    (h.orderly id).taken (h.orderly id).passing, h.seen⟩

theorem good_forward {s : Endpoint c Id P R D L} (h : Good s) (id : Id) (packet : R) :
    Good (s.forward id packet) := by
  unfold forward
  split
  · exact good_act (h.queues _ _) id _
  · exact good_act (h.queues s.datagrams _) id _
  · exact good_act h id _

theorem good_offer {s : Endpoint c Id P R D L} (h : Good s) (id : Id) : Good (s.offer id) := by
  unfold offer
  split
  · rename_i packet hs hr
    split
    · exact good_forward h id packet
    rcases s.incoming.trySend_cases (.streamPacket id packet) with ⟨he, ho⟩ | ⟨he, ho⟩ | ⟨he, ho⟩
    · rw [he]
      have hq := quiet_act (h.orderly id) (.offer .accepted)
      refine h.push ho (kind?_streamPacket id packet) (Or.inr ⟨?_, rfl⟩) rfl
        (fun hk => by cases hk) rfl (fun hsil => ?_) (fun _ => rfl) hq.token (fun error he => ?_) hq.link
      · simp [Peer.Live, hs, hr, Reader.Reported]
      · simp [Peer.Silent, hs] at hsil
      · simp [hs] at he
    · rw [he]
      exact good_act h id _
    · rw [he]
      exact good_act h id _
  · exact h

theorem good_report {s : Endpoint c Id P R D L} (h : Good s) (id : Id) : Good (s.report id) := by
  unfold report
  split
  · rename_i error hs hr
    have hq := quiet_act (h.orderly id) (.report true)
    -- the reader cancels the token before it reports
    have hended : s.cancelled id = true :=
      (h.orderly id).link.1.ended (by simp [hr, Reader.Ended])
    refine sendIncoming_rule h (fun ho => ?_) (good_act h id (.report false))
    refine h.push ho (kind?_closed id error) (Or.inr ⟨?_, rfl⟩) rfl
      (fun _ => hended) rfl (fun hsil => ?_) (fun hl => absurd hl ?_) hq.token (fun error he => ?_)
      hq.link
    · simp [Peer.Live, hs, hr, Reader.Reported]
    · simp [Peer.Silent, hs] at hsil
    · simp only [Peer.Live, hs, Link.step, Link.report, hr]
      cases (s.peers id).link.side <;> simp [Link.finish, Reader.Reported]
    · simp [hs] at he
  · exact h

theorem good_refuse {s : Endpoint c Id P R D L} (h : Good s) (error : IoError) :
    Good (s.refuse error) := by
  unfold refuse
  split
  · refine sendIncoming_rule (I := Good) h (fun _ => ⟨fun k => ?_, h.seen⟩) h
    have hk := h.orderly k
    refine hk.keep rfl ?_ (fun ho => ho) Iff.rfl hk.quiet_refl hk.taken hk.passing
    simp [pending, Message.kind?]
  · exact h

theorem good_reject {s : Endpoint c Id P R D L} (h : Good s) (error : IoError) :
    Good (s.reject error) := by
  unfold reject
  split
  · refine ⟨fun k => ?_, fun id packet registry hmem => h.seen id packet registry ?_⟩
    · have hk := h.orderly k
      have hpast : (s.trigger (.disconnected none (.noConnection error))).past k = s.past k := by
        simp [past, trigger, Event.kind?]
      exact hk.keep hpast rfl (fun ho => ho) Iff.rfl hk.quiet_refl hk.taken hk.passing
    · simpa [trigger] using hmem
  · exact h

/-! ### The frames -/

/-- The first event on the way is one that the connection's events allow. -/
theorem Orderly.front {s : Endpoint c Id P R D L} {id : Id} (h : s.Orderly id) {kind : Kind}
    {rest : List Kind} (hp : s.pending id = kind :: rest) :
    ∃ mid mid', Life.start.after (s.past id) = some mid ∧ mid.next kind = some mid' ∧
      Life.start.after (s.past id ++ [kind]) = some mid' := by
  obtain ⟨st, hst, -, -⟩ := h.line
  rw [hp] at hst
  obtain ⟨mid, hmid, hafter⟩ := Life.after_left hst
  obtain ⟨mid', hn, -⟩ := Option.bind_eq_some_iff.mp hafter
  exact ⟨mid, mid', hmid, hn, (Life.after_concat hmid kind).trans hn⟩

/-- **A lifecycle command** triggers the first event on the way. -/
theorem Good.command {s s' : Endpoint c Id P R D L} (h : Good s) {message : Message Id R D L}
    {commands : List (Message Id R D L)} (event : Event Id R D L)
    (hframe : s.frame = .applying (message :: commands)) (hframe' : s'.frame = .applying commands)
    (hin : s'.incoming = s.incoming) (hev : s'.events = s.events ++ [event])
    (hkind : ∀ k, event.kind? k = message.kind? k)
    (hpeer : ∀ k, (s'.peers k).setup = (s.peers k).setup ∧ (s'.peers k).link = (s.peers k).link)
    (hpub : ∀ k, (s'.peers k).published = true ↔
      (s.peers k).published = true ∨ message.kind? k = some .established)
    (hreg : ∀ k, k ∈ s'.registry ↔ (k ∈ s.registry ∨ message.kind? k = some .established) ∧
      message.kind? k ≠ some .disconnected)
    (hseen : ∀ id packet registry, event = .packet id packet registry → registry = s.registry) :
    Good s' := by
  have hpend : ∀ k, s.pending k = (message.kind? k).toList ++ s'.pending k := by
    intro k
    rw [pending, pending, hframe, hframe', hin]
    cases hm : message.kind? k <;> simp [Frame.commands, hm]
  have hpast : ∀ k, s'.past k = s.past k ++ (message.kind? k).toList := by
    intro k
    rw [past, past, hev, List.filterMap_append]
    cases hm : message.kind? k <;> simp [hkind k, hm]
  have htok : ∀ k, s'.cancelled k = s.cancelled k := fun k => by rw [cancelled, cancelled, (hpeer k).2]
  refine ⟨fun k => ?_, fun id packet registry hmem => ?_⟩
  · have hk := h.orderly k
    have hlive : (s'.peers k).Live → (s.peers k).Live := by
      simp [Peer.Live, (hpeer k).1, (hpeer k).2]
    have hsilent : (s'.peers k).Silent → (s.peers k).Silent := by
      simp [Peer.Silent, (hpeer k).1]
    have hline : s'.past k ++ s'.pending k = s.past k ++ s.pending k := by
      rw [hpast, hpend, List.append_assoc]
    obtain ⟨st, hst, hs, hl⟩ := hk.line
    refine ⟨⟨st, by rw [hline]; exact hst, fun h => hs (hsilent h),
      fun h ho => hl (hlive h) (by rw [hin] at ho; exact ho)⟩, ?_, ?_, ?_, ?_, ?_, ?_, ?_⟩
    · rw [hreg, hk.registry, hpast]
      cases hm : message.kind? k with
      | none => simp
      | some kind =>
        have hp := hpend k
        rw [hm] at hp
        obtain ⟨mid, mid', hmid, hn, hafter⟩ := hk.front hp
        simp only [Option.toList_some, hafter, hmid]
        cases kind <;> cases mid <;> cases hn <;> simp
    · rw [hpub, hk.published, hpast]
      cases hm : message.kind? k with
      | none => simp
      | some kind =>
        have hp := hpend k
        rw [hm] at hp
        obtain ⟨mid, mid', hmid, hn, -⟩ := hk.front hp
        have hne : kind ≠ .established → s.past k ≠ [] := by
          intro hkind hnil
          rw [hnil] at hmid
          cases hmid
          cases kind <;> first | exact hkind rfl | cases hn
        by_cases he : kind = .established
        · simp [he]
        · simp [hne he]
    · rw [hline, htok]
      exact hk.ended
    · rw [htok, (hpeer k).1]
      exact hk.closing
    · rw [(hpeer k).2]
      exact hk.link
    · rw [hframe']
      exact fun x hx => absurd hx List.not_mem_nil
    · rw [hframe']
      exact fun hp => by cases hp
  · rw [hev] at hmem
    rcases List.mem_append.mp hmem with hmem | hmem
    · exact h.seen id packet registry hmem
    · have heq := (List.mem_singleton.mp hmem).symm
      rw [hseen id packet registry heq]
      have hp := hpend id
      have hm : message.kind? id = some .packet := by
        rw [← hkind, heq]
        simp [Event.kind?]
      rw [hm] at hp
      obtain ⟨mid, mid', hmid, hn, -⟩ := (h.orderly id).front hp
      rw [(h.orderly id).registry, hmid]
      cases mid <;> cases hn
      rfl

theorem peers_establish (s : Endpoint c Id P R D L) (id k : Id) :
    (s.establish id).peers k = if k = id then { s.peers id with published := true } else s.peers k :=
  Function.update_apply _ _ _ _

theorem good_execute {s : Endpoint c Id P R D L} (h : Good s) {message : Message Id R D L}
    {commands : List (Message Id R D L)} (hframe : s.frame = .applying (message :: commands)) :
    Good ((s.execute message).goto (.applying commands)) := by
  cases message with
  | established id =>
    refine h.command (.established id) hframe rfl rfl rfl (fun k => rfl) (fun k => ?_)
      (fun k => ?_) (fun k => ?_) (fun id packet registry he => by cases he)
    · show ((s.establish id).peers k).setup = _ ∧ ((s.establish id).peers k).link = _
      rw [peers_establish]
      split
      · rename_i hk
        subst hk
        exact ⟨rfl, rfl⟩
      · exact ⟨rfl, rfl⟩
    · show ((s.establish id).peers k).published = true ↔ _
      rw [peers_establish]
      split
      · rename_i hk
        simp [Message.kind?, hk]
      · rename_i hk
        simp [Message.kind?, Ne.symm hk]
    · show k ∈ s.registry ++ [id] ↔ _
      by_cases hk : k = id
      · simp [Message.kind?, hk]
      · simp [Message.kind?, hk, Ne.symm hk]
  | streamPacket id packet =>
    refine h.command (.packet id packet s.registry) hframe rfl rfl rfl (fun k => rfl)
      (fun k => ⟨rfl, rfl⟩) (fun k => ?_) (fun k => ?_) (fun id packet registry he => ?_)
    · show (s.peers k).published = true ↔ _
      by_cases hk : k = id
      · simp [Message.kind?, hk]
      · simp [Message.kind?, Ne.symm hk]
    · show k ∈ s.registry ↔ _
      by_cases hk : k = id
      · simp [Message.kind?, hk]
      · simp [Message.kind?, Ne.symm hk]
    · cases he
      rfl
  | closed id error =>
    cases id with
    | none =>
      refine h.command (.disconnected none error) hframe rfl rfl rfl (fun k => rfl)
        (fun k => ⟨rfl, rfl⟩) (fun k => ?_) (fun k => ?_) (fun id packet registry he => by cases he)
      · show (s.peers k).published = true ↔ _
        simp [Message.kind?]
      · show k ∈ s.registry ↔ _
        simp [Message.kind?]
    | some id =>
      refine h.command (.disconnected (some id) error) hframe rfl rfl rfl (fun k => rfl)
        (fun k => ⟨rfl, rfl⟩) (fun k => ?_) (fun k => ?_) (fun id packet registry he => by cases he)
      · show (s.peers k).published = true ↔ _
        by_cases hk : k = id
        · simp [Message.kind?, hk]
        · simp [Message.kind?, Ne.symm hk]
      · show k ∈ s.registry.filter (· ≠ id) ↔ _
        by_cases hk : k = id
        · simp [Message.kind?, hk]
        · simp [Message.kind?, hk, Ne.symm hk]

/-- The frame goes on, with the same messages on the way. -/
theorem Good.goto {s : Endpoint c Id P R D L} (h : Good s) {frame : Frame Id R D L}
    (hcommands : frame.commands = s.frame.commands)
    (htaken : ∀ x ∈ frame.datagrams, s.ready x = true)
    (hpass : ∀ id, frame.passing = some id → Life.start.after (s.past id) = some .up) :
    Good (s.goto frame) := by
  refine ⟨fun k => ?_, h.seen⟩
  have hk := h.orderly k
  refine hk.keep rfl ?_ (fun ho => ho) Iff.rfl hk.quiet_refl (fun x hx _ => htaken x hx) (hpass k)
  rw [pending, pending, show (s.goto frame).frame = frame from rfl, hcommands]
  rfl

/-- A packet that is ready and not cancelled is of a connection that is up. -/
theorem Good.up_of_ready {s : Endpoint c Id P R D L} (h : Good s) {x : Id × R}
    (hr : s.ready x = true) (hc : s.cancelled x.1 = false) :
    Life.start.after (s.past x.1) = some .up := by
  have hk := h.orderly x.1
  have hpub : (s.peers x.1).published = true := by simpa [ready, hc] using hr
  obtain ⟨st, hst, -, -⟩ := hk.line
  obtain ⟨mid, hmid, -⟩ := Life.after_left hst
  rw [hmid]
  cases mid with
  | up => rfl
  | start => exact absurd (Life.after_start hmid) (hk.published.mp hpub)
  | down =>
    have hd := Life.disconnected_mem hmid (by decide)
    rw [hk.ended (List.mem_append_left _ hd)] at hc
    cases hc

/-- **A datagram command** triggers its packet. -/
theorem good_deliver {s : Endpoint c Id P R D L} (h : Good s) {x : Id × R} {commands : List (Id × R)}
    (hframe : s.frame = .delivering true (x :: commands)) :
    Good ((s.trigger (.packet x.1 x.2 s.registry)).goto (.delivering false commands)) := by
  have hpass : s.frame.passing = some x.1 := by rw [hframe]; rfl
  have hup := (h.orderly x.1).passing hpass
  have hreg := (h.orderly x.1).registry.mpr hup
  have htaken : ∀ y ∈ commands, s.ready y = true := by
    intro y hy
    refine (h.orderly y.1).taken y ?_ rfl
    rw [hframe]
    exact List.mem_cons_of_mem _ hy
  have hpend : ∀ k, s.pending k =
      ((s.trigger (.packet x.1 x.2 s.registry)).goto (.delivering false commands)).pending k := by
    intro k
    rw [pending, pending, hframe]
    rfl
  refine ⟨fun k => ?_, fun id packet registry hmem => ?_⟩
  · have hk := h.orderly k
    by_cases hkx : k = x.1
    · subst hkx
      have hpast : ((s.trigger (.packet x.1 x.2 s.registry)).goto (.delivering false commands)).past x.1 =
          s.past x.1 ++ [.packet] := by
        simp [past, trigger, Endpoint.goto, Event.kind?]
      obtain ⟨st, hst, hs, hl⟩ := hk.line
      -- the packet comes before all that is on the way, and leaves the state as it is
      have hline : Life.start.after (s.past x.1 ++ [.packet] ++ s.pending x.1) = some st := by
        rw [Life.after_append, Life.after_concat hup]
        rw [Life.after_append, hup] at hst
        exact hst
      refine ⟨⟨st, ?_, hs, hl⟩, ?_, ?_, ?_, hk.closing, hk.link, fun y hy _ => htaken y hy,
        fun hp => by cases hp⟩
      · rw [hpast, ← hpend]
        exact hline
      · rw [hpast, Life.after_concat hup]
        exact iff_of_true hreg rfl
      · rw [hpast]
        refine iff_of_true (hk.published.mpr fun hnil => ?_) (by simp)
        rw [hnil] at hup
        cases hup
      · rw [hpast, ← hpend]
        intro hd
        refine hk.ended ?_
        simpa using hd
    · refine hk.keep ?_ (hpend k).symm (fun ho => ho) Iff.rfl hk.quiet_refl
        (fun y hy _ => htaken y hy) fun hp => by cases hp
      simp [past, trigger, Endpoint.goto, Event.kind?, Ne.symm hkx]
  · rcases List.mem_append.mp hmem with hmem | hmem
    · exact h.seen id packet registry hmem
    · cases List.mem_singleton.mp hmem
      exact hreg

theorem good_beginFrame {s : Endpoint c Id P R D L} (h : Good s) (budget : ℕ) :
    Good (s.beginFrame budget) := by
  unfold beginFrame
  split
  · rename_i hframe
    split
    · exact h.goto (by rw [hframe]; rfl) (fun x hx => by cases hx) fun id hp => by cases hp
    · exact h
  · exact h

theorem good_beginPackets {s : Endpoint c Id P R D L} (h : Good s) (budget : ℕ) :
    Good (s.beginPackets budget) := by
  unfold beginPackets
  split
  · rename_i hframe
    split
    · exact h.goto (by rw [hframe]; rfl) (fun x hx => by cases hx) fun id hp => by cases hp
    · exact h
  · exact h

/-- The loop of `incoming_system` takes a message. -/
theorem good_take {s : Endpoint c Id P R D L} (h : Good s) {budget : ℕ}
    {commands rest : List (Message Id R D L)} {message : Message Id R D L}
    (hcommands : s.frame.commands = commands) (hitems : s.incoming.items = message :: rest) :
    Good ({ s with incoming := { s.incoming with items := rest } }.goto
      (.lifecycle budget (commands ++ [message]))) := by
  refine ⟨fun k => ?_, h.seen⟩
  have hk := h.orderly k
  refine hk.keep rfl ?_ (fun ho => ho) Iff.rfl hk.quiet_refl (fun x hx => by cases hx)
    fun hp => by cases hp
  rw [pending, pending, hcommands, hitems]
  simp [Endpoint.goto, Frame.commands]

theorem good_advance {s : Endpoint c Id P R D L} (h : Good s) : Good s.advance := by
  have htaken : ∀ x ∈ s.frame.datagrams, s.ready x = true :=
    fun x hx => (h.orderly x.1).taken x hx rfl
  unfold advance
  split
  · exact h
  · rename_i commands hframe
    exact h.goto (by rw [hframe]; rfl) (fun x hx => by cases hx) fun id hp => by cases hp
  · rename_i budget commands hframe
    have hcommands : s.frame.commands = commands := by rw [hframe]; rfl
    rw [Mpsc.tryRecv]
    cases hitems : s.incoming.items with
    | cons message rest => exact good_take h hcommands hitems
    | nil => exact h.goto hcommands.symm (fun x hx => by cases hx) fun id hp => by cases hp
  · rename_i message commands hframe
    exact good_execute h hframe
  · rename_i hframe
    split
    · exact h
    · exact h.goto (by rw [hframe]; rfl) (fun x hx => by cases hx) fun id hp => by cases hp
  · rename_i budget x commands hframe
    rw [hframe] at htaken
    split
    · refine (h.queues s.datagrams _).goto (by rw [hframe]; rfl) (fun y hy => htaken y ?_)
        fun id hp => by cases hp
      exact List.mem_cons_of_mem _ hy
    · refine h.goto (by rw [hframe]; rfl) (fun y hy => htaken y ?_) fun id hp => by cases hp
      simp only [Frame.datagrams, Option.toList_none, Option.toList_some, List.nil_append,
        List.mem_append, List.mem_singleton] at hy ⊢
      exact hy.symm
  · rename_i commands hframe
    rw [hframe] at htaken
    exact h.goto (by rw [hframe]; rfl) htaken fun id hp => by cases hp
  · rename_i budget commands hframe
    rw [hframe] at htaken
    rcases s.datagrams.tryRecvIf_spec s.ready with ⟨x, datagrams, he, hr, -⟩ | ⟨e, he, -⟩
    · rw [he]
      refine (h.queues datagrams s.drops).goto (by rw [hframe]; rfl) (fun y hy => ?_)
        fun id hp => by cases hp
      rcases List.mem_cons.mp hy with rfl | hy
      · exact hr
      · exact htaken y hy
    · rw [he]
      exact h.goto (by rw [hframe]; rfl) htaken fun id hp => by cases hp
  · rename_i x commands hframe
    rw [hframe] at htaken
    split
    · exact (h.queues s.datagrams _).goto (by rw [hframe]; rfl)
        (fun y hy => htaken y (List.mem_cons_of_mem _ hy)) fun id hp => by cases hp
    · rename_i hc
      refine h.goto (by rw [hframe]; rfl) htaken fun id hp => ?_
      cases hp
      exact h.up_of_ready (htaken x List.mem_cons_self) (Bool.eq_false_iff.mpr hc)
  · rename_i x commands hframe
    exact good_deliver h hframe
  · rename_i passed hframe
    exact h.goto (by rw [hframe]; rfl) (fun x hx => by cases hx) fun id hp => by cases hp

theorem good_dropWorld {s : Endpoint c Id P R D L} (h : Good s) : Good s.dropWorld := by
  unfold dropWorld
  split
  · rename_i hframe
    refine ⟨fun k => ?_, h.seen⟩
    have hk := h.orderly k
    have hq := quiet_act hk .dropWorld
    obtain ⟨st, hst, hs, -⟩ := hk.line
    obtain ⟨mid, hmid, -⟩ := Life.after_left hst
    have hpend : (s.frame.commands ++ []).filterMap (Message.kind? k) = [] := by rw [hframe]; rfl
    refine ⟨⟨mid, ?_, fun hsil => ?_, fun _ ho => by cases ho⟩, hk.registry, hk.published, ?_,
      hq.closing, hq.link, ?_, ?_⟩
    · show Life.start.after (s.past k ++ (s.frame.commands ++ []).filterMap (Message.kind? k)) = some mid
      rw [hpend, List.append_nil]
      exact hmid
    · rw [hs hsil] at hst
      rw [(List.append_eq_nil_iff.mp (Life.after_start hst)).1] at hmid
      exact (Option.some.inj hmid).symm
    · show _ ∈ s.past k ++ (s.frame.commands ++ []).filterMap (Message.kind? k) → _
      rw [hpend, List.append_nil]
      exact fun hd => hq.token (hk.ended (List.mem_append_left _ hd))
    · intro x hx
      have hx : x ∈ s.frame.datagrams := hx
      rw [hframe] at hx
      cases hx
    · intro hp
      have hp : s.frame.passing = some k := hp
      rw [hframe] at hp
      cases hp
  · exact h

theorem good_step {s : Endpoint c Id P R D L} (h : Good s) (a : Act Id P R D L) : Good (s.step a) := by
  cases a with
  | create id => exact good_create h id
  | publish id => exact good_publish h id
  | hand id arrives => exact good_hand h id arrives
  | split id result => exact good_split h id result
  | abandon id => exact good_abandon h id
  | stopSetup id => exact good_stopSetup h id
  | link id a => exact good_link h id a
  | offer id => exact good_offer h id
  | report id => exact good_report h id
  | refuse error => exact good_refuse h error
  | reject error => exact good_reject h error
  | beginFrame budget => exact good_beginFrame h budget
  | beginPackets budget => exact good_beginPackets h budget
  | advance => exact good_advance h
  | dropWorld => exact good_dropWorld h

theorem good_run (c : Plugin) (as : List (Act Id P R D L)) : Good (run step (new c Id P R D L) as) :=
  run_inv (I := Good) (fun _ a h => good_step h a) as (good_new c Id P R D L)

/-- **The lifecycle grammar.** After any steps of any tasks, handles and frames,
on either side and for either kind of protocol: the events of a connection are
the beginning of established, packets, disconnected, and each of its packets
was triggered while the connection was in the registry. -/
theorem events_grammar (c : Plugin) (as : List (Act Id P R D L)) (id : Id) :
    let s := run step (new c Id P R D L) as
    (∃ n, s.events.filterMap (Event.kind? id) <+:
      .established :: List.replicate n .packet ++ [.disconnected]) ∧
    ∀ packet registry, .packet id packet registry ∈ s.events → id ∈ registry := by
  intro s
  have h : Good s := good_run c as
  obtain ⟨st, hst, -, -⟩ := (h.orderly id).line
  obtain ⟨mid, hmid, -⟩ := Life.after_left hst
  exact ⟨Life.grammar hmid, h.seen id⟩

/-- A client's datagram connection, from its creation to the frame that hears of
its end. -/
example :
    let c : Plugin := ⟨.client, true, .bits64, 1, .dropNewest, 1, .dropNewest⟩
    let tick : Act ℕ ℕ ℕ ℕ ℕ := .link 0 .advance
    let as : List (Act ℕ ℕ ℕ ℕ ℕ) := [.create 0, .publish 0, .hand 0 true, .split 0 (.ok ()),
      .link 0 .poll, tick, tick, .link 0 (.read (some (.ok 5))), tick, .offer 0,
      .beginFrame 8, .advance, .advance, .advance, .beginPackets 8, .advance, .advance, .advance,
      .advance, .advance, .advance, .link 0 (.conn .disconnect), tick, tick, tick, tick, tick,
      .report 0, .beginFrame 8, .advance, .advance, .advance]
    (run step (new c ℕ ℕ ℕ ℕ ℕ) as).events.filterMap (Event.kind? 0) =
      [.established, .packet, .disconnected] := by
  decide +kernel

end Endpoint
end Slinet
