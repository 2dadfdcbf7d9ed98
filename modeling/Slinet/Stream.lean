/-
# From `send` to the event

Two ends of a stream connection joined by a byte channel. At the sending end
the packets go from the calls of `EcsConnection::send` through the queue to the
task `send_packets` (`Slinet.Connection`), whose writer encodes and frames each
(`Slinet.Framing`) and writes the buffer in pieces; at the receiving end the
reader collects the frames from the channel (`Slinet.Wire`), decodes them, and
the packets go through the queue and the frames of the ECS, among those of all
other connections, to the event (`Slinet.Endpoint`). The codecs may have state;
the opposite direction runs beside, for it uses them too.

Each stage hands on a first part of what it was given and stops for good when
anything goes wrong, so the packets triggered are the first of those accepted
(`triggered_isPrefix`). What the writer has framed of the packets it dequeued
is followed by `Stream.Writes`.
-/
import Slinet.Codec
import Slinet.Delivery
import Slinet.Fifo
import Slinet.Wire

namespace Slinet

/-- The codecs of both ends; `a` sends `P` and `b` receives it. -/
structure Ends (t t' : Target) (σ τ P S EncA DecA EncB DecB : Type*) where
  endian : Endian
  number : Number
  a : Serializer t σ S P EncA DecA
  a₀ : σ
  b : Serializer t' τ P S EncB DecB
  b₀ : τ

/-- The connection's two ends. `buffered` says that the packet being written is
framed; `callsA` and `callsB` list the calls of the codecs; the last two say
that the opposite direction's writer and reader go on. -/
structure Stream (c : Plugin) (Id σ τ P S D : Type*) where
  sender : Conn P
  buffered : Bool
  forward : Wire
  a : σ
  callsA : List (CodecCall P)
  receiver : Endpoint c Id S P D PacketTooLargeError
  backward : Wire
  b : τ
  callsB : List (CodecCall S)
  answering : Bool
  hearing : Bool

namespace Stream

variable {c : Plugin} {t : Target} {Id σ τ P S EncA DecA EncB DecB : Type*}

def new (e : Ends t c.target σ τ P S EncA DecA EncB DecB) (Id : Type*) (sendCapacity : ℕ)
    (overflow : OverflowPolicy) : Stream c Id σ τ P S DecB where
  sender := Conn.new (Outgoing.channel t sendCapacity overflow false)
  buffered := false
  forward := Wire.new (builtIn c.target e.endian e.number)
  a := e.a₀
  callsA := []
  receiver := Endpoint.new c Id S P DecB PacketTooLargeError
  backward := Wire.new (builtIn t e.endian e.number)
  b := e.b₀
  callsB := []
  answering := true
  hearing := true

/-! ### The sending end -/

/-- A step of the task or of its callers; only the writer returns from a write. -/
def send (s : Stream c Id σ τ P S DecB) : Conn.Act P → Stream c Id σ τ P S DecB
  | .write _ => s
  | a => { s with sender := s.sender.step a }

/-- `FramedWriter::send` up to its `write_all`. -/
def encode [ToString EncA] (e : Ends t c.target σ τ P S EncA DecA EncB DecB)
    (s : Stream c Id σ τ P S DecB) : Stream c Id σ τ P S DecB :=
  match s.sender.task with
  | .polled (.writing packet) =>
    if s.buffered then s
    else
      match Framing.frame e.a (builtIn t e.endian e.number) s.a packet with
      | (.error error, a) =>
        { s with
          a := a
          callsA := s.callsA ++ [.serialize packet]
          sender := s.sender.write (.error error) }
      | (.ok buf, a) =>
        { s with
          a := a
          callsA := s.callsA ++ [.serialize packet]
          forward := s.forward.push buf
          buffered := true }
  | _ => s

/-- `write_all` is at work: it moves some bytes, returns, or fails. -/
def writing (s : Stream c Id σ τ P S DecB) : Bool :=
  match s.sender.task with
  | .polled (.writing _) => s.buffered
  | _ => false

def write (s : Stream c Id σ τ P S DecB) (k : ℕ) : Stream c Id σ τ P S DecB :=
  if s.writing then { s with forward := s.forward.write k } else s

def wrote (s : Stream c Id σ τ P S DecB) : Stream c Id σ τ P S DecB :=
  if s.writing ∧ s.forward.unwritten = [] then
    { s with sender := s.sender.write (.ok ()), buffered := false }
  else s

def writeFails (s : Stream c Id σ τ P S DecB) (error : IoError) : Stream c Id σ τ P S DecB :=
  if s.writing then { s with sender := s.sender.write (.error error), buffered := false } else s

/-! ### The receiving end -/

variable [DecidableEq Id]

/-- A step of the endpoint; only the connection's own reader returns from a read. -/
def receive (me : Id) (s : Stream c Id σ τ P S DecB) :
    Endpoint.Act Id S P DecB PacketTooLargeError → Stream c Id σ τ P S DecB
  | .link id (.read result) =>
    if id = me then s else { s with receiver := s.receiver.step (.link id (.read result)) }
  | a => { s with receiver := s.receiver.step a }

/-- The poll of the reader's task has come to the transport. -/
def polled (me : Id) (s : Stream c Id σ τ P S DecB) : Bool :=
  match (s.receiver.peers me).setup, (s.receiver.peers me).link.reader with
  | .running, .reading _ => true
  | _, _ => false

/-- `receive` is pending, or returns. -/
def yield (me : Id) (s : Stream c Id σ τ P S DecB)
    (result : Option (Except (ReceiveError DecB PacketTooLargeError) P)) : Stream c Id σ τ P S DecB :=
  { s with receiver := s.receiver.step (.link me (.read result)) }

def feed (me : Id) (s : Stream c Id σ τ P S DecB) (k : ℕ) : Stream c Id σ τ P S DecB :=
  if s.polled me then { s with forward := s.forward.feed k } else s

def readPends (me : Id) (s : Stream c Id σ τ P S DecB) : Stream c Id σ τ P S DecB :=
  if s.polled me then s.yield me none else s

def readFails (me : Id) (s : Stream c Id σ τ P S DecB) (error : IoError) : Stream c Id σ τ P S DecB :=
  if s.polled me then s.yield me (some (.error (.io error))) else s

/-- The calls that a step of `receive` makes. -/
def decoding (w : Wire) : List (CodecCall S) := w.reading.body?.toList.map .deserialize

/-- `FramedReader::receive` between two of its reads, under the limit of the
moment. -/
def parse (e : Ends t c.target σ τ P S EncA DecA EncB DecB) (me : Id) (s : Stream c Id σ τ P S DecB)
    (limit : ℕ) : Stream c Id σ τ P S DecB :=
  if s.polled me then
    match s.forward.parse e.b (builtIn c.target e.endian e.number) limit s.b with
    | (none, b, forward) => { s with b := b, forward := forward }
    | (some result, b, forward) =>
      { s with b := b, forward := forward, callsB := s.callsB ++ decoding s.forward }.yield me result
  else s

/-! ### The opposite direction -/

/-- Its writer encodes and frames some packet. -/
def answer [ToString EncB] (e : Ends t c.target σ τ P S EncA DecA EncB DecB)
    (s : Stream c Id σ τ P S DecB) (packet : S) : Stream c Id σ τ P S DecB :=
  if s.answering ∧ s.backward.unwritten = [] then
    match Framing.frame e.b (builtIn c.target e.endian e.number) s.b packet with
    | (.error _, b) => { s with b := b, callsB := s.callsB ++ [.serialize packet], answering := false }
    | (.ok buf, b) =>
      { s with b := b, callsB := s.callsB ++ [.serialize packet], backward := s.backward.push buf }
  else s

/-- Its reader goes on as long as `receive` does not fail. -/
def hear (e : Ends t c.target σ τ P S EncA DecA EncB DecB) (s : Stream c Id σ τ P S DecB)
    (limit : ℕ) : Stream c Id σ τ P S DecB :=
  if s.hearing then
    match s.backward.parse e.a (builtIn t e.endian e.number) limit s.a with
    | (none, a, backward) => { s with a := a, backward := backward }
    | (some result, a, backward) =>
      { s with
        a := a
        backward := backward
        callsA := s.callsA ++ decoding s.backward
        hearing := result.isOk }
  else s

inductive Act (Id P S D : Type*)
  | send (a : Conn.Act P)
  | encode
  | write (k : ℕ)
  | wrote
  | writeFails (error : IoError)
  | receive (a : Endpoint.Act Id S P D PacketTooLargeError)
  | feed (k : ℕ)
  | readPends
  | readFails (error : IoError)
  | parse (limit : ℕ)
  | answer (packet : S)
  | answerWrite (k : ℕ)
  | answerStops
  | hearFeed (k : ℕ)
  | hear (limit : ℕ)
  | hearStops

def step [ToString EncA] [ToString EncB] (e : Ends t c.target σ τ P S EncA DecA EncB DecB) (me : Id)
    (s : Stream c Id σ τ P S DecB) : Act Id P S DecB → Stream c Id σ τ P S DecB
  | .send a => s.send a
  | .encode => s.encode e
  | .write k => s.write k
  | .wrote => s.wrote
  | .writeFails error => s.writeFails error
  | .receive a => s.receive me a
  | .feed k => s.feed me k
  | .readPends => s.readPends me
  | .readFails error => s.readFails me error
  | .parse limit => s.parse e me limit
  | .answer packet => s.answer e packet
  | .answerWrite k => { s with backward := s.backward.write k }
  | .answerStops => { s with answering := false }
  | .hearFeed k => if s.hearing then { s with backward := s.backward.feed k } else s
  | .hear limit => s.hear e limit
  | .hearStops => { s with hearing := false }

end Stream

/-! ### One direction -/

section Flow

variable {t : Target} {σ X Y EncErr DecErr : Type*} {enc : Serializer t σ Y X EncErr DecErr} {st₀ : σ}
  {endian : Endian} {number : Number} {calls : List (CodecCall X)} {later : List (CodecCall Y)}
  {w : Wire} {alive : Prop} {framed : List (X × List UInt8)}

/-- The packets framed are the first of those encoded, the payloads read are the
first of those framed, and the other end's codec has had just them. -/
structure Flow (enc : Serializer t σ Y X EncErr DecErr) (st₀ : σ) (endian : Endian) (number : Number)
    (calls : List (CodecCall X)) (later : List (CodecCall Y)) (w : Wire) (alive : Prop)
    (framed : List (X × List UInt8)) : Prop where
  encoded : framed <+: enc.encoded st₀ calls
  carries : alive → w.Carries endian number (framed.map Prod.snd)
  had : w.payloads <+: framed.map Prod.snd
  inputs : later.filterMap CodecCall.data? = w.payloads

/-- What the codec of the receiving end has had was encoded by the other. -/
theorem Flow.inputs_encoded (h : Flow enc st₀ endian number calls later w alive framed) :
    later.filterMap CodecCall.data? <+: (enc.encoded st₀ calls).map Prod.snd := by
  rw [h.inputs]
  exact h.had.trans (h.encoded.map Prod.snd)

/-- The reader stops, or goes on. -/
theorem Flow.mono (h : Flow enc st₀ endian number calls later w alive framed) {alive' : Prop}
    (ha : alive' → alive) : Flow enc st₀ endian number calls later w alive' framed :=
  ⟨h.encoded, fun hl => h.carries (ha hl), h.had, h.inputs⟩

/-- A call of the sending end's codec that frames nothing. -/
theorem Flow.call (h : Flow enc st₀ endian number calls later w alive framed)
    (more : List (CodecCall X)) : Flow enc st₀ endian number (calls ++ more) later w alive framed :=
  ⟨h.encoded.trans (enc.encoded_isPrefix st₀ calls more), h.carries, h.had, h.inputs⟩

/-- The receiving end's codec encodes for the opposite direction. -/
theorem Flow.callback (h : Flow enc st₀ endian number calls later w alive framed) (packet : Y) :
    Flow enc st₀ endian number calls (later ++ [.serialize packet]) w alive framed :=
  ⟨h.encoded, h.carries, h.had, by rw [List.filterMap_append, h.inputs]; exact List.append_nil _⟩

theorem Flow.write (h : Flow enc st₀ endian number calls later w alive framed) (k : ℕ) :
    Flow enc st₀ endian number calls later (w.write k) alive framed :=
  ⟨h.encoded, fun hl => (h.carries hl).write k, h.had, h.inputs⟩

theorem Flow.feed (h : Flow enc st₀ endian number calls later w alive framed) (k : ℕ) :
    Flow enc st₀ endian number calls later (w.feed k) alive framed :=
  ⟨h.encoded, fun hl => (h.carries hl).feed k, h.had, h.inputs⟩

/-- What a send that succeeds has encoded and framed. -/
theorem frame_ok [ToString EncErr] {st st' : σ} {packet : X} {buf : List UInt8}
    (h : Framing.frame enc (builtIn t endian number) st packet = (.ok buf, st')) :
    ∃ payload, enc.serialize st packet = (.ok payload, st') ∧
      payload.1.length < 256 ^ number.size ∧ buf = Wire.framed endian number payload.1 := by
  simp only [Framing.frame] at h
  cases hs : enc.serialize st packet with
  | mk result st'' =>
    cases result with
    | error err => simp [hs] at h
    | ok payload =>
      simp only [hs] at h
      cases hl : (builtIn t endian number).serializePacketLength payload.1.length with
      | error err => simp [hl] at h
      | ok pre =>
        simp only [hl, Prod.mk.injEq, Except.ok.injEq] at h
        obtain ⟨rfl, rfl⟩ := h
        obtain ⟨hfit, hpre⟩ := builtIn_serialize hl
        exact ⟨payload, rfl, hfit, by rw [hpre, Wire.framed]⟩

/-- The state after a send is the state after its call. -/
theorem frame_state [ToString EncErr] (st : σ) (packet : X) :
    (Framing.frame enc (builtIn t endian number) st packet).2 = (enc.serialize st packet).2 := by
  simp only [Framing.frame]
  split
  · rename_i hs
    rw [hs]
  · rename_i hs
    rw [hs]
    split <;> rfl

/-- **A packet is framed**, when all before it were. -/
theorem Flow.push [ToString EncErr] (h : Flow enc st₀ endian number calls later w alive framed)
    (hall : enc.Encodes st₀ calls) (heq : framed = enc.encoded st₀ calls) (hidle : w.unwritten = [])
    {packet : X} {buf : List UInt8} {st' : σ}
    (hf : Framing.frame enc (builtIn t endian number) (enc.after st₀ calls) packet = (.ok buf, st')) :
    ∃ payload, Flow enc st₀ endian number (calls ++ [.serialize packet]) later (w.push buf) alive
        (framed ++ [(packet, payload)]) ∧
      enc.Encodes st₀ (calls ++ [.serialize packet]) ∧
      framed ++ [(packet, payload)] = enc.encoded st₀ (calls ++ [.serialize packet]) := by
  obtain ⟨payload, hs, hfit, rfl⟩ := frame_ok hf
  have henc : enc.encoded st₀ (calls ++ [.serialize packet]) = framed ++ [(packet, payload.1)] := by
    rw [enc.encoded_append hall, heq]
    simp [Serializer.encoded, hs]
  refine ⟨payload.1, ⟨henc ▸ List.prefix_rfl, fun hl => ?_, ?_, h.inputs⟩, ?_, henc.symm⟩
  · rw [List.map_append]
    exact (h.carries hl).push hidle hfit
  · rw [List.map_append]
    exact h.had.trans (List.prefix_append _ _)
  · rw [enc.encodes_append]
    exact ⟨hall, ⟨payload, by rw [hs]⟩, trivial⟩

/-- **A step of the reader**: it waits on, hands the next framed payload to its
codec, or fails and is not asked again. -/
theorem Flow.parse {t' : Target} {τ EncErr' DecErr' : Type*}
    (h : Flow enc st₀ endian number calls later w alive framed) (ha : alive)
    (dec : Serializer t' τ X Y EncErr' DecErr') (st : τ) (limit : ℕ) :
    (∃ w', w.parse dec (builtIn t' endian number) limit st = (none, st, w') ∧
      w'.payloads = w.payloads ∧ w'.unwritten = w.unwritten ∧
      Flow enc st₀ endian number calls later w' alive framed) ∨
    (∃ payload w' result, w.parse dec (builtIn t' endian number) limit st =
        (some result, (dec.deserialize st payload).2, w') ∧
      result = (dec.deserialize st payload).1.mapError .deserialization ∧
      w.reading.body? = some payload ∧ w'.payloads = w.payloads ++ [payload] ∧
      w'.unwritten = w.unwritten ∧
      Flow enc st₀ endian number calls (later ++ [.deserialize payload]) w' alive framed) ∨
    (∃ error w', w.parse dec (builtIn t' endian number) limit st = (some (.error error), st, w') ∧
      w.reading.body? = none ∧ w'.payloads = w.payloads ∧ w'.unwritten = w.unwritten ∧
      Flow enc st₀ endian number calls later w' False framed) := by
  rcases (h.carries ha).parse limit dec st with
    ⟨w', he, hp, hu, hc⟩ | ⟨payload, w', result, he, hres, hb, hp, hpre, hu, hc⟩ |
    ⟨error, w', he, hb, hp, hu⟩
  · refine Or.inl ⟨w', he, hp, hu, h.encoded, fun _ => hc, hp ▸ h.had, ?_⟩
    rw [hp]
    exact h.inputs
  · refine Or.inr (Or.inl ⟨payload, w', result, he, hres, hb, hp, hu, h.encoded, fun _ => hc, hpre, ?_⟩)
    rw [hp, List.filterMap_append, h.inputs]
    rfl
  · refine Or.inr (Or.inr ⟨error, w', he, hb, hp, hu, h.encoded, False.elim, hp ▸ h.had, ?_⟩)
    rw [hp]
    exact h.inputs

end Flow

/-! ### What every step keeps -/

namespace Stream

variable {c : Plugin} {t : Target} {Id σ τ P S EncA DecA EncB DecB : Type*}

/-- Every call has encoded its packet, and all of them are framed. -/
def Ready (e : Ends t c.target σ τ P S EncA DecA EncB DecB) (s : Stream c Id σ τ P S DecB)
    (framed : List (P × List UInt8)) : Prop :=
  e.a.Encodes e.a₀ s.callsA ∧ framed = e.a.encoded e.a₀ s.callsA

/-- What the writer has framed of the packets its task dequeued. -/
def Writes (e : Ends t c.target σ τ P S EncA DecA EncB DecB) (s : Stream c Id σ τ P S DecB)
    (framed : List (P × List UInt8)) : Prop :=
  match s.sender.task.phase with
  | .idle =>
    s.Ready e framed ∧ s.sender.dequeued = framed.map Prod.fst ∧ s.buffered = false ∧
      s.forward.unwritten = []
  | .holding packet =>
    s.Ready e framed ∧
      (s.buffered = false → s.sender.dequeued = framed.map Prod.fst ++ [packet] ∧
        s.forward.unwritten = []) ∧
      (s.buffered = true → s.sender.dequeued = framed.map Prod.fst)
  | .off => True

/-- The reader of the connection has not left its loop. -/
def Listens (me : Id) (s : Stream c Id σ τ P S DecB) : Prop :=
  (s.receiver.peers me).link.reader.Looping

variable [DecidableEq Id]

/-- What every step keeps, for the packets framed in each direction. -/
structure Good (e : Ends t c.target σ τ P S EncA DecA EncB DecB) (me : Id)
    (s : Stream c Id σ τ P S DecB) (framed : List (P × List UInt8))
    (answers : List (S × List UInt8)) : Prop where
  conn : s.sender.Good
  fifo : s.sender.Fifo
  delivers : s.receiver.Delivers me
  stateA : s.a = e.a.after e.a₀ s.callsA
  stateB : s.b = e.b.after e.b₀ s.callsB
  ahead : Flow e.a e.a₀ e.endian e.number s.callsA s.callsB s.forward (s.Listens me) framed
  back : Flow e.b e.b₀ e.endian e.number s.callsB s.callsA s.backward (s.hearing = true) answers
  dequeued : framed.map Prod.fst <+: s.sender.dequeued
  writes : s.Writes e framed
  received : (s.receiver.peers me).link.received =
    (framed.map Prod.fst).take s.forward.payloads.length
  answering : s.answering = true →
    e.b.Encodes e.b₀ s.callsB ∧ answers = e.b.encoded e.b₀ s.callsB

/-- Good for the packets framed so far in either direction. -/
def Sound (e : Ends t c.target σ τ P S EncA DecA EncB DecB) (me : Id)
    (s : Stream c Id σ τ P S DecB) : Prop :=
  ∃ framed answers, s.Good e me framed answers

theorem sound_new (e : Ends t c.target σ τ P S EncA DecA EncB DecB) (me : Id) (sendCapacity : ℕ)
    (overflow : OverflowPolicy) : (new e Id sendCapacity overflow).Sound e me := by
  refine ⟨[], [], Conn.good_new _, Conn.fifo_new trivial, Endpoint.delivers_new c me, rfl, rfl,
    ⟨List.nil_prefix, fun _ => Wire.carries_new _ _ _, List.nil_prefix, rfl⟩,
    ⟨List.nil_prefix, fun _ => Wire.carries_new _ _ _, List.nil_prefix, rfl⟩, List.nil_prefix,
    ⟨⟨trivial, rfl⟩, rfl, rfl, rfl⟩, rfl, fun _ => ⟨trivial, rfl⟩⟩

/-! ### The steps of the sending end -/

variable {e : Ends t c.target σ τ P S EncA DecA EncB DecB} {me : Id} {s : Stream c Id σ τ P S DecB}
  {framed : List (P × List UInt8)} {answers : List (S × List UInt8)}

omit [DecidableEq Id] in
/-- A step between the writes keeps what the writer has framed. -/
theorem Writes.paces {sender : Conn P} (h : s.Writes e framed) (hp : s.sender.Paces sender) :
    Writes e { s with sender := sender } framed := by
  rcases hp with ⟨hphase, hdeq⟩ | ⟨hphase, hdeq⟩ | ⟨packet, hidle, hphase, hdeq⟩
  · simp only [Writes, hphase, hdeq]
    exact h
  · simp only [Writes, hphase]
  · simp only [Writes, hidle] at h
    obtain ⟨hready, hd, hb, hu⟩ := h
    simp only [Writes, hphase]
    refine ⟨hready, fun _ => ⟨by rw [hdeq, hd], hu⟩, fun hb' => ?_⟩
    rw [hb] at hb'
    cases hb'

theorem dequeued_paces {sender sender' : Conn P} (hp : sender.Paces sender') :
    sender.dequeued <+: sender'.dequeued := by
  rcases hp with ⟨-, hdeq⟩ | ⟨-, hdeq⟩ | ⟨packet, -, -, hdeq⟩
  · rw [hdeq]
  · rw [hdeq]
  · rw [hdeq]
    exact List.prefix_append _ _

theorem Good.sender (h : s.Good e me framed answers) (a : Conn.Act P) (ha : ∀ result, a ≠ .write result) :
    Good e me { s with sender := s.sender.step a } framed answers := by
  have hp := s.sender.paces_step a ha
  exact { h with
    conn := Conn.good_step h.conn a
    fifo := Conn.fifo_step h.conn h.fifo a
    dequeued := h.dequeued.trans (dequeued_paces hp)
    writes := h.writes.paces hp }

theorem sound_send (h : s.Sound e me) (a : Conn.Act P) : (s.send a).Sound e me := by
  obtain ⟨framed, answers, h⟩ := h
  cases a with
  | write result => exact ⟨framed, answers, h⟩
  | _ => exact ⟨framed, answers, h.sender _ fun _ h => by cases h⟩

/-- The write of the packet returns. -/
theorem Good.finish (h : s.Good e me framed answers) {packet : P}
    (ht : s.sender.task = .polled (.writing packet)) (result : Except IoError Unit) (buffered : Bool)
    (hok : result = .ok () → s.Ready e framed ∧ s.sender.dequeued = framed.map Prod.fst ∧
      buffered = false ∧ s.forward.unwritten = []) :
    Good e me { s with sender := s.sender.write result, buffered := buffered } framed answers := by
  have hdeq : (s.sender.write result).dequeued = s.sender.dequeued := by simp [Conn.write, ht]
  have htask : (s.sender.write result).task = .written packet result := by simp [Conn.write, ht]
  have hwrites : Writes e { s with sender := s.sender.write result, buffered := buffered } framed := by
    cases result with
    | ok u =>
      obtain ⟨hready, hd, hb, hu⟩ := hok rfl
      simp only [Writes, htask, Task.phase, hdeq]
      exact ⟨hready, hd, hb, hu⟩
    | error error => simp only [Writes, htask, Task.phase]
  exact { h with
    conn := Conn.good_step h.conn (.write result)
    fifo := Conn.fifo_step h.conn h.fifo (.write result)
    dequeued := by rw [hdeq]; exact h.dequeued
    writes := hwrites }

omit [DecidableEq Id] in
theorem writing_iff (h : s.writing = true) :
    ∃ packet, s.sender.task = .polled (.writing packet) ∧ s.buffered = true := by
  simp only [writing] at h
  split at h
  · rename_i packet ht
    exact ⟨packet, ht, h⟩
  · cases h

/-- The packet being written is framed. -/
theorem Good.written (h : s.Good e me framed answers) {packet : P}
    (ht : s.sender.task = .polled (.writing packet)) (hb : s.buffered = true) :
    s.Ready e framed ∧ s.sender.dequeued = framed.map Prod.fst := by
  have hw := h.writes
  simp only [Writes, ht, Task.phase] at hw
  exact ⟨hw.1, hw.2.2 hb⟩

theorem sound_write (h : s.Sound e me) (k : ℕ) : (s.write k).Sound e me := by
  obtain ⟨framed, answers, h⟩ := h
  unfold write
  split
  · rename_i hw
    obtain ⟨packet, ht, hb⟩ := writing_iff hw
    obtain ⟨hready, hd⟩ := h.written ht hb
    have hwrites : Writes e { s with forward := s.forward.write k } framed := by
      simp only [Writes, ht, Task.phase]
      refine ⟨hready, fun hb' => ?_, fun _ => hd⟩
      rw [hb] at hb'
      cases hb'
    exact ⟨framed, answers, { h with ahead := h.ahead.write k, writes := hwrites }⟩
  · exact ⟨framed, answers, h⟩

theorem sound_wrote (h : s.Sound e me) : s.wrote.Sound e me := by
  obtain ⟨framed, answers, h⟩ := h
  unfold wrote
  split
  · rename_i hw
    obtain ⟨packet, ht, hb⟩ := writing_iff hw.1
    obtain ⟨hready, hd⟩ := h.written ht hb
    exact ⟨framed, answers, h.finish ht (.ok ()) false fun _ => ⟨hready, hd, rfl, hw.2⟩⟩
  · exact ⟨framed, answers, h⟩

theorem sound_writeFails (h : s.Sound e me) (error : IoError) : (s.writeFails error).Sound e me := by
  obtain ⟨framed, answers, h⟩ := h
  unfold writeFails
  split
  · rename_i hw
    obtain ⟨packet, ht, -⟩ := writing_iff hw
    exact ⟨framed, answers, h.finish ht (.error error) false fun hr => (by cases hr)⟩
  · exact ⟨framed, answers, h⟩

/-- A call of the sending end's codec for a packet. -/
theorem Good.stateA_serialize [ToString EncA] (h : s.Good e me framed answers) (packet : P) :
    (Framing.frame e.a (builtIn t e.endian e.number) s.a packet).2 =
      e.a.after e.a₀ (s.callsA ++ [.serialize packet]) := by
  rw [frame_state, e.a.after_concat, h.stateA]
  rfl

/-- **The writer frames the packet**, or stops. -/
theorem sound_encode [ToString EncA] (h : s.Sound e me) : (s.encode e).Sound e me := by
  obtain ⟨framed, answers, h⟩ := h
  unfold encode
  split
  · rename_i packet ht
    split
    · exact ⟨framed, answers, h⟩
    rename_i hb
    have hw := h.writes
    simp only [Writes, ht, Task.phase] at hw
    obtain ⟨⟨hall, heq⟩, hfirst, -⟩ := hw
    obtain ⟨hd, hidle⟩ := hfirst (Bool.eq_false_iff.mpr hb)
    have hstate := h.stateA_serialize packet
    split
    · rename_i error a hf
      rw [hf] at hstate
      have hfin := h.finish ht (.error error) s.buffered fun hr => (by cases hr)
      exact ⟨framed, answers, { hfin with
        stateA := hstate
        ahead := h.ahead.call _
        back := h.back.callback _
        writes := by simp [Writes, Conn.write, ht, Task.phase] }⟩
    · rename_i buf a hf
      rw [hf] at hstate
      rw [h.stateA] at hf
      obtain ⟨payload, hflow, hall', heq'⟩ := h.ahead.push hall heq hidle hf
      have hd' : s.sender.dequeued = (framed ++ [(packet, payload)]).map Prod.fst := by
        rw [hd]
        simp
      -- the payloads read so far are among those framed before
      have hle : s.forward.payloads.length ≤ (framed.map Prod.fst).length := by
        have := h.ahead.had.length_le
        rwa [List.length_map] at this ⊢
      have hrecv : (s.receiver.peers me).link.received =
          ((framed ++ [(packet, payload)]).map Prod.fst).take s.forward.payloads.length := by
        rw [List.map_append, List.take_append_of_le_length hle]
        exact h.received
      exact ⟨framed ++ [(packet, payload)], answers, { h with
        stateA := hstate
        ahead := hflow
        back := h.back.callback _
        dequeued := by rw [hd']
        writes := by
          simp only [Writes, ht, Task.phase]
          exact ⟨⟨hall', heq'⟩, fun hb' => (by cases hb'), fun _ => hd'⟩
        received := hrecv }⟩
  · exact ⟨framed, answers, h⟩

/-! ### The steps of the receiving end -/

/-- The endpoint takes a step that does not read for the connection. -/
theorem Good.unread (hc : c.datagram = false) (h : s.Good e me framed answers)
    (a : Endpoint.Act Id S P DecB PacketTooLargeError)
    (ha : ∀ result, a ≠ .link me (.read result)) :
    Good e me { s with receiver := s.receiver.step a } framed answers := by
  obtain ⟨hrecv, hloop⟩ := s.receiver.unread_step me a ha
  exact { h with
    delivers := Endpoint.delivers_step hc h.delivers a
    ahead := h.ahead.mono hloop
    received := hrecv.trans h.received }

theorem sound_receive (hc : c.datagram = false) (h : s.Sound e me)
    (a : Endpoint.Act Id S P DecB PacketTooLargeError) : (s.receive me a).Sound e me := by
  obtain ⟨framed, answers, h⟩ := h
  cases a with
  | link id b =>
    cases b with
    | read result =>
      simp only [receive]
      split
      · exact ⟨framed, answers, h⟩
      · rename_i hid
        refine ⟨framed, answers, h.unread hc _ fun result' hr => ?_⟩
        cases hr
        exact hid rfl
    | _ => exact ⟨framed, answers, h.unread hc _ fun _ hr => (by cases hr)⟩
  | _ => exact ⟨framed, answers, h.unread hc _ fun _ hr => (by cases hr)⟩

omit [DecidableEq Id] in
theorem polled_iff (h : s.polled me = true) :
    (s.receiver.peers me).setup = .running ∧ ∃ off, (s.receiver.peers me).link.reader = .reading off := by
  simp only [polled] at h
  split at h
  · rename_i off hs hr
    exact ⟨hs, off, hr⟩
  · cases h

/-- What the reader's task makes of the result of `receive`. -/
theorem link_yield (h : s.polled me = true)
    (result : Option (Except (ReceiveError DecB PacketTooLargeError) P)) :
    ((s.receiver.step (.link me (.read result))).peers me).link =
      (s.receiver.peers me).link.read result := by
  obtain ⟨hs, -, -⟩ := polled_iff h
  simp only [Endpoint.step, Endpoint.link, hs, Endpoint.Setup.Allows, if_true]
  exact Endpoint.link_act_self s.receiver me _

omit [DecidableEq Id] in
theorem listens_of_polled (h : s.polled me = true) : s.Listens me := by
  obtain ⟨-, off, hr⟩ := polled_iff h
  rw [Listens, hr]
  trivial

/-- `receive` is pending, or fails. -/
theorem Good.idle (hc : c.datagram = false) (h : s.Good e me framed answers) (hp : s.polled me = true)
    {result : Option (Except (ReceiveError DecB PacketTooLargeError) P)}
    (hr : ∀ packet, result ≠ some (.ok packet)) : Good e me (s.yield me result) framed answers := by
  have hlink := link_yield hp result
  obtain ⟨-, off, hoff⟩ := polled_iff hp
  have hrecv : ((s.receiver.peers me).link.read result).received =
      (s.receiver.peers me).link.received := by
    match result, hr with
    | none, _ => simp [Link.read, hoff, Link.received]
    | some (.error error), _ => simp [Link.read, hoff, Link.received, Except.toOption]
    | some (.ok packet), hr => exact absurd rfl (hr packet)
  exact { h with
    delivers := Endpoint.delivers_step hc h.delivers (.link me (.read result))
    ahead := h.ahead.mono fun _ => listens_of_polled hp
    received := by
      show ((s.receiver.step _).peers me).link.received = _
      rw [hlink, hrecv]
      exact h.received }

theorem sound_readPends (hc : c.datagram = false) (h : s.Sound e me) : (s.readPends me).Sound e me := by
  obtain ⟨framed, answers, h⟩ := h
  unfold readPends
  split
  · rename_i hp
    exact ⟨framed, answers, h.idle hc hp fun _ hr => by cases hr⟩
  · exact ⟨framed, answers, h⟩

theorem sound_readFails (hc : c.datagram = false) (h : s.Sound e me) (error : IoError) :
    (s.readFails me error).Sound e me := by
  obtain ⟨framed, answers, h⟩ := h
  unfold readFails
  split
  · rename_i hp
    exact ⟨framed, answers, h.idle hc hp fun _ hr => by cases hr⟩
  · exact ⟨framed, answers, h⟩

theorem sound_feed (h : s.Sound e me) (k : ℕ) : (s.feed me k).Sound e me := by
  obtain ⟨framed, answers, h⟩ := h
  unfold feed
  split
  · exact ⟨framed, answers, { h with ahead := h.ahead.feed k }⟩
  · exact ⟨framed, answers, h⟩

/-- **The next packet.** Decoding the next framed payload gives its packet. -/
theorem Good.decodes (hin : InOrder e.a e.a₀ e.b e.b₀) (h : s.Good e me framed answers)
    {payload : List UInt8} {forward : Wire} {alive : Prop}
    (hflow : Flow e.a e.a₀ e.endian e.number s.callsA (s.callsB ++ [.deserialize payload]) forward
      alive framed) :
    ∃ packet, (e.b.deserialize s.b payload).1 = .ok packet ∧
      (framed.map Prod.fst).take (s.forward.payloads.length + 1) =
        (framed.map Prod.fst).take s.forward.payloads.length ++ [packet] := by
  have hback : s.callsA.filterMap CodecCall.data? <+:
      (e.b.encoded e.b₀ (s.callsB ++ [.deserialize payload])).map Prod.snd :=
    h.back.inputs_encoded.trans ((e.b.encoded_isPrefix e.b₀ s.callsB _).map Prod.snd)
  have hall := hin s.callsA (s.callsB ++ [.deserialize payload]) hback hflow.inputs_encoded
  have hbefore := hin s.callsA s.callsB h.back.inputs_encoded h.ahead.inputs_encoded
  have hn : (s.callsB.filterMap CodecCall.data?).length = s.forward.payloads.length := by
    rw [h.ahead.inputs]
  have hn' : ((s.callsB ++ [CodecCall.deserialize payload]).filterMap CodecCall.data?).length =
      s.forward.payloads.length + 1 := by
    rw [List.filterMap_append, List.length_append, hn]
    rfl
  rw [hn'] at hall
  rw [hn] at hbefore
  -- the framed packets are the first of those encoded, and long enough
  have hlen : s.forward.payloads.length + 1 ≤ framed.length := by
    have hle := hflow.had.length_le
    rw [← hflow.inputs, hn', List.length_map] at hle
    exact hle
  obtain ⟨rest, hrest⟩ := h.ahead.encoded
  have htake : ∀ n ≤ framed.length, ((e.a.encoded e.a₀ s.callsA).map Prod.fst).take n =
      (framed.map Prod.fst).take n := by
    intro n hle
    rw [← hrest, List.map_append, List.take_append_of_le_length (by simpa using hle)]
  rw [htake _ hlen, e.b.decoded_append, hbefore, htake _ (by omega), ← h.stateB] at hall
  have hget : s.forward.payloads.length < (framed.map Prod.fst).length := by
    rw [List.length_map]
    omega
  have hsucc := List.take_succ_eq_append_getElem hget
  refine ⟨(framed.map Prod.fst)[s.forward.payloads.length], ?_, hsucc⟩
  rw [hsucc, List.map_append] at hall
  have hlast := List.append_cancel_left hall
  simpa [Serializer.decoded] using hlast

omit [DecidableEq Id] in
/-- The writer looks only at its own end of the channel. -/
theorem Writes.forward (h : s.Writes e framed) {s' : Stream c Id σ τ P S DecB}
    (hsender : s'.sender = s.sender) (hbuf : s'.buffered = s.buffered) (hcalls : s'.callsA = s.callsA)
    (hu : s'.forward.unwritten = s.forward.unwritten) : s'.Writes e framed := by
  simp only [Writes, Ready, hsender, hbuf, hcalls, hu] at h ⊢
  exact h

/-- A call that decodes changes nothing of what is encoded. -/
theorem Good.answering_decode (h : s.Good e me framed answers) (payload : List UInt8)
    (ha : s.answering = true) :
    e.b.Encodes e.b₀ (s.callsB ++ [.deserialize payload]) ∧
      answers = e.b.encoded e.b₀ (s.callsB ++ [.deserialize payload]) := by
  obtain ⟨hall, heq⟩ := h.answering ha
  refine ⟨(e.b.encodes_append _ _ _).mpr ⟨hall, trivial⟩, ?_⟩
  rw [e.b.encoded_append hall, ← heq]
  exact (List.append_nil _).symm

/-- **The reader goes on**: to its next wait, with the next packet, or to its
end. -/
theorem sound_parse (hc : c.datagram = false) (hin : InOrder e.a e.a₀ e.b e.b₀) (h : s.Sound e me)
    (limit : ℕ) : (s.parse e me limit).Sound e me := by
  obtain ⟨framed, answers, h⟩ := h
  unfold parse
  split
  case isFalse => exact ⟨framed, answers, h⟩
  rename_i hp
  obtain ⟨-, off, hoff⟩ := polled_iff hp
  rcases h.ahead.parse (listens_of_polled hp) e.b s.b limit with
    ⟨w, he, hpay, hu, hflow⟩ | ⟨payload, w, result, he, hres, hb, hpay, hu, hflow⟩ |
    ⟨error, w, he, hb, hpay, hu, hflow⟩
  · rw [he]
    exact ⟨framed, answers, { h with
      ahead := hflow
      writes := h.writes.forward rfl rfl rfl hu
      received := by rw [hpay]; exact h.received }⟩
  · rw [he]
    obtain ⟨packet, hdec, htake⟩ := h.decodes hin hflow
    have hok : result = .ok packet := by rw [hres, hdec]; rfl
    have hcalls : (decoding s.forward : List (CodecCall S)) = [.deserialize payload] := by
      rw [decoding, hb]
      rfl
    subst hok
    rw [hcalls]
    exact ⟨framed, answers, { h with
      delivers := Endpoint.delivers_step hc h.delivers (.link me (.read (some (.ok packet))))
      stateB := by
        show (e.b.deserialize s.b payload).2 = e.b.after e.b₀ (s.callsB ++ [.deserialize payload])
        rw [e.b.after_concat, ← h.stateB]
        rfl
      ahead := hflow.mono fun _ => listens_of_polled hp
      back := h.back.call _
      writes := h.writes.forward rfl rfl rfl hu
      received := by
        show ((s.receiver.step _).peers me).link.received = (framed.map Prod.fst).take w.payloads.length
        rw [link_yield hp, hpay, List.length_append, List.length_singleton, htake, ← h.received]
        simp [Link.read, hoff, Link.received, Except.toOption]
      answering := h.answering_decode payload }⟩
  · rw [he]
    have hcalls : (decoding s.forward : List (CodecCall S)) = [] := by
      rw [decoding, hb]
      rfl
    rw [hcalls, List.append_nil]
    have hstop :
        ¬ ((s.receiver.step (.link me (.read (some (.error error))))).peers me).link.reader.Looping := by
      rw [link_yield hp, Link.read, hoff]
      exact id
    exact ⟨framed, answers, { h with
      delivers := Endpoint.delivers_step hc h.delivers (.link me (.read (some (.error error))))
      ahead := hflow.mono fun hl => hstop hl
      writes := h.writes.forward rfl rfl rfl hu
      received := by
        show ((s.receiver.step _).peers me).link.received = (framed.map Prod.fst).take w.payloads.length
        rw [link_yield hp, hpay, ← h.received]
        simp [Link.read, hoff, Link.received, Except.toOption] }⟩

/-! ### The steps of the opposite direction -/

theorem sound_answer [ToString EncB] (h : s.Sound e me) (packet : S) : (s.answer e packet).Sound e me := by
  obtain ⟨framed, answers, h⟩ := h
  unfold answer
  split
  · rename_i hgo
    obtain ⟨hall, heq⟩ := h.answering hgo.1
    have hstate : (Framing.frame e.b (builtIn c.target e.endian e.number) s.b packet).2 =
        e.b.after e.b₀ (s.callsB ++ [.serialize packet]) := by
      rw [frame_state, e.b.after_concat, h.stateB]
      rfl
    split
    · rename_i b hf
      rw [hf] at hstate
      exact ⟨framed, answers, { h with
        stateB := hstate
        ahead := h.ahead.callback _
        back := h.back.call _
        answering := fun ha => by cases ha }⟩
    · rename_i buf b hf
      rw [hf] at hstate
      rw [h.stateB] at hf
      obtain ⟨payload, hflow, hall', heq'⟩ := h.back.push hall heq hgo.2 hf
      exact ⟨framed, answers ++ [(packet, payload)], { h with
        stateB := hstate
        ahead := h.ahead.callback _
        back := hflow
        answering := fun _ => ⟨hall', heq'⟩ }⟩
  · exact ⟨framed, answers, h⟩

omit [DecidableEq Id] in
/-- A call that decodes changes nothing of what the writer has framed. -/
theorem Writes.decode (h : s.Writes e framed) (payload : List UInt8) {a : σ} {backward : Wire}
    {hearing : Bool} :
    Writes e { s with a := a, backward := backward, callsA := s.callsA ++ [.deserialize payload],
                      hearing := hearing } framed := by
  have hready : s.Ready e framed → Ready e { s with
      a := a
      backward := backward
      callsA := s.callsA ++ [.deserialize payload]
      hearing := hearing } framed := by
    rintro ⟨hall, heq⟩
    refine ⟨(e.a.encodes_append _ _ _).mpr ⟨hall, trivial⟩, ?_⟩
    rw [e.a.encoded_append hall, ← heq]
    exact (List.append_nil _).symm
  simp only [Writes] at h ⊢
  split
  · rename_i hph
    rw [hph] at h
    exact ⟨hready h.1, h.2⟩
  · rename_i hph
    rw [hph] at h
    exact ⟨hready h.1, h.2⟩
  · trivial

theorem sound_hear (h : s.Sound e me) (limit : ℕ) : (s.hear e limit).Sound e me := by
  obtain ⟨framed, answers, h⟩ := h
  unfold hear
  split
  case isFalse => exact ⟨framed, answers, h⟩
  rename_i hgo
  rcases h.back.parse hgo e.a s.a limit with
    ⟨w, he, -, -, hflow⟩ | ⟨payload, w, result, he, -, hb, -, -, hflow⟩ | ⟨error, w, he, hb, -, -, hflow⟩
  · rw [he]
    exact ⟨framed, answers, { h with back := hflow }⟩
  · rw [he]
    have hcalls : (decoding s.backward : List (CodecCall P)) = [.deserialize payload] := by
      rw [decoding, hb]
      rfl
    rw [hcalls]
    have hstate : (e.a.deserialize s.a payload).2 =
        e.a.after e.a₀ (s.callsA ++ [.deserialize payload]) := by
      rw [e.a.after_concat, ← h.stateA]
      rfl
    exact ⟨framed, answers, { h with
      stateA := hstate
      ahead := h.ahead.call _
      back := hflow.mono fun _ => hgo
      writes := h.writes.decode payload }⟩
  · rw [he]
    have hcalls : (decoding s.backward : List (CodecCall P)) = [] := by
      rw [decoding, hb]
      rfl
    rw [hcalls, List.append_nil]
    exact ⟨framed, answers, { h with back := hflow.mono fun hh => by cases hh }⟩

/-! ### Whole runs -/

theorem sound_step [ToString EncA] [ToString EncB] (hc : c.datagram = false)
    (hin : InOrder e.a e.a₀ e.b e.b₀) (h : s.Sound e me) (a : Act Id P S DecB) :
    (s.step e me a).Sound e me := by
  cases a with
  | send a => exact sound_send h a
  | encode => exact sound_encode h
  | write k => exact sound_write h k
  | wrote => exact sound_wrote h
  | writeFails error => exact sound_writeFails h error
  | receive a => exact sound_receive hc h a
  | feed k => exact sound_feed h k
  | readPends => exact sound_readPends hc h
  | readFails error => exact sound_readFails hc h error
  | parse limit => exact sound_parse hc hin h limit
  | answer packet => exact sound_answer h packet
  | answerWrite k =>
    obtain ⟨framed, answers, h⟩ := h
    exact ⟨framed, answers, { h with back := h.back.write k }⟩
  | answerStops =>
    obtain ⟨framed, answers, h⟩ := h
    exact ⟨framed, answers, { h with answering := fun ha => by cases ha }⟩
  | hearFeed k =>
    obtain ⟨framed, answers, h⟩ := h
    simp only [step]
    split
    · exact ⟨framed, answers, { h with back := h.back.feed k }⟩
    · exact ⟨framed, answers, h⟩
  | hear limit => exact sound_hear h limit
  | hearStops =>
    obtain ⟨framed, answers, h⟩ := h
    exact ⟨framed, answers, { h with back := h.back.mono fun hh => by cases hh }⟩

/-- **From `send` to the event.** For codecs that undo each other in order, and
a built-in length codec: after any steps of both ends the packets triggered for
the connection are the first of those accepted by `send`, in order and none
twice. -/
theorem triggered_isPrefix [ToString EncA] [ToString EncB]
    (e : Ends t c.target σ τ P S EncA DecA EncB DecB) (me : Id) (sendCapacity : ℕ)
    (overflow : OverflowPolicy) (hc : c.datagram = false) (hin : InOrder e.a e.a₀ e.b e.b₀)
    (as : List (Act Id P S DecB)) :
    let s := run (step e me) (new e Id sendCapacity overflow) as
    s.receiver.triggered me <+: s.sender.accepted := by
  intro s
  obtain ⟨framed, answers, h⟩ : s.Sound e me :=
    run_inv (I := Sound e me) (fun _ a h => sound_step hc hin h a) as
      (sound_new e me sendCapacity overflow)
  calc s.receiver.triggered me <+: (s.receiver.peers me).link.received := h.delivers.triggered
    _ = (framed.map Prod.fst).take s.forward.payloads.length := h.received
    _ <+: framed.map Prod.fst := List.take_prefix _ _
    _ <+: s.sender.dequeued := h.dequeued
    _ <+: s.sender.accepted := h.fifo.dequeued

/-- A byte as a packet, shifted by the number of packets before it. -/
def encodeShifted (i b : UInt8) : Except String (Bytes .bits64) × UInt8 :=
  (.ok ⟨[b + i], by simp [Target.usize]⟩, i + 1)

def decodeShifted (i : UInt8) : List UInt8 → Except String UInt8 × UInt8
  | [b] => (.ok (b - i), i + 1)
  | _ => (.error "malformed", i)

/-- Both ends shift, behind little-endian `u16` lengths. -/
def shifted : Ends .bits64 .bits64 (UInt8 × UInt8) (UInt8 × UInt8) UInt8 UInt8
    String String String String where
  endian := .little
  number := .u16
  a := .split encodeShifted decodeShifted
  a₀ := (0, 0)
  b := .split encodeShifted decodeShifted
  b₀ := (0, 0)

theorem shifted_inOrder : InOrder shifted.a shifted.a₀ shifted.b shifted.b₀ := by
  refine inOrder_split (fun i j packet payload i' (hij : i = j) h => ?_) rfl
  obtain ⟨rfl, rfl⟩ : ⟨[packet + i], by simp [Target.usize]⟩ = payload ∧ i + 1 = i' := by
    simpa [encodeShifted] using h
  exact ⟨j + 1, by simp [decodeShifted, hij], by rw [hij]⟩

/-- Of three packets accepted two are written, read and triggered. -/
theorem triggered_isPrefix_three :
    let c : Plugin := ⟨.server, false, .bits64, 4, .dropNewest, 4, .dropNewest⟩
    let call (b : UInt8) : List (Act ℕ UInt8 UInt8 String) :=
      [.send (.send b), .send (.proceed 0), .send (.proceed 0), .send (.proceed 0)]
    let write : List (Act ℕ UInt8 UInt8 String) :=
      [.send .advance, .send .advance, .encode, .write 1, .write 9, .wrote, .send .advance]
    let setup : List (Act ℕ UInt8 UInt8 String) := [.receive (.create 0), .receive (.publish 0),
      .receive (.hand 0 true), .receive (.split 0 (.ok ())), .receive (.link 0 .poll)]
    let tick : Act ℕ UInt8 UInt8 String := .receive (.link 0 .advance)
    let read : List (Act ℕ UInt8 UInt8 String) :=
      [tick, tick, .feed 2, .parse 64, .feed 1, .parse 64, tick, .receive (.offer 0)]
    let frame : List (Act ℕ UInt8 UInt8 String) :=
      .receive (.beginFrame 8) :: List.replicate 7 (.receive .advance)
    let as := call 5 ++ call 6 ++ call 7 ++ [.send .poll] ++ write ++ write ++ setup ++ read ++ read ++
      frame
    let s := run (step (c := c) shifted 0) (new (c := c) shifted ℕ 4 .dropNewest) as
    s.sender.accepted = [5, 6, 7] ∧ s.receiver.triggered 0 = [5, 6] ∧
      s.receiver.triggered 0 <+: s.sender.accepted := by
  intro c call write setup tick read frame as s
  exact ⟨by decide +kernel, by decide +kernel,
    triggered_isPrefix (c := c) shifted 0 4 .dropNewest rfl shifted_inOrder as⟩

end Stream
end Slinet
