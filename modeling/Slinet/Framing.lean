/-
# Length-prefix framing

`src/protocols/framing.rs`. `FramedWriter::send` encodes a packet and its
length into one buffer (`frame`) and writes it whole. `FramedReader::receive`
waits in `read_exact` only: for the prefix, once or as often as the length
codec asks for more, and then for the payload. `Reading` is where it waits and
`Reading.next` what it does when the bytes are there; `receive` runs it
against a finite stream that ends with an end-of-stream error.

A reader of a written session returns its packets and consumes exactly its
bytes (`session_round_trip`): inside one frame by induction on the codec's
chain of requests (`receive_length`), over the session by induction on the
packets.
-/
import Slinet.Packet

namespace Slinet
namespace Framing

variable {t : Target} {σ R S EncErr DecErr L : Type*}

/-! ### The writer -/

/-- The buffer `FramedWriter::send` writes, or its error. -/
def frame [ToString EncErr] [ToString L] (serializer : Serializer t σ R S EncErr DecErr)
    (ls : PacketLengthSerializer t L) (st : σ) (packet : S) : Except IoError (List UInt8) × σ :=
  match serializer.serialize st packet with
  | (.error err, st) => (.error ⟨.other, "Error serializing packet: " ++ toString err⟩, st)
  | (.ok payload, st) =>
    match ls.serializePacketLength payload.1.length with
    | .error err => (.error ⟨.other, "Error serializing packet length: " ++ toString err⟩, st)
    | .ok buf => (.ok (buf.1 ++ payload.1), st)

/-- What a successful send writes: the length and the payload. -/
def IsFrame (serializer : Serializer t σ R S EncErr DecErr) (ls : PacketLengthSerializer t L) (st : σ)
    (packet : S) (buf : List UInt8) : Prop :=
  ∃ payload pre, (serializer.serialize st packet).1 = .ok payload ∧
    ls.serializePacketLength payload.1.length = .ok pre ∧ buf = pre.1 ++ payload.1

theorem isFrame_of_frame [ToString EncErr] [ToString L]
    {serializer : Serializer t σ R S EncErr DecErr} {ls : PacketLengthSerializer t L} {st : σ}
    {packet : S} {buf : List UInt8} (h : (frame serializer ls st packet).1 = .ok buf) :
    IsFrame serializer ls st packet buf := by
  unfold frame at h
  split at h
  · cases h
  · rename_i payload st' hp
    split at h
    · cases h
    · rename_i pre hl
      simp only [Except.ok.injEq] at h
      exact ⟨payload, pre, by rw [hp], hl, h.symm⟩

/-- The bytes of successive sends, when all of them succeed. -/
def sendAll [ToString EncErr] [ToString L] (serializer : Serializer t σ R S EncErr DecErr)
    (ls : PacketLengthSerializer t L) : σ → List S → Except IoError (List UInt8) × σ
  | st, [] => (.ok [], st)
  | st, packet :: packets =>
    match frame serializer ls st packet with
    | (.error err, st) => (.error err, st)
    | (.ok buf, st) =>
      match sendAll serializer ls st packets with
      | (.error err, st) => (.error err, st)
      | (.ok bytes, st) => (.ok (buf ++ bytes), st)

/-! ### The reader -/

/-- Where `receive` waits: in the `read_exact` of the loop of `read_length`,
with the bytes of the prefix it has and the length of its buffer, or in the
one of the payload. -/
inductive Reading
  | length (got : List UInt8) (want : ℕ)
  | payload (got : List UInt8) (want : ℕ)
  deriving DecidableEq, Repr

/-- A call of `receive` begins. -/
def Reading.start (ls : PacketLengthSerializer t L) : Reading := .length [] ls.size

/-- The bytes it still waits for. -/
def Reading.missing : Reading → ℕ
  | .length got want => want - got.length
  | .payload got want => want - got.length

/-- Bytes arrive. -/
def Reading.feed (bytes : List UInt8) : Reading → Reading
  | .length got want => .length (got ++ bytes) want
  | .payload got want => .payload (got ++ bytes) want

/-- What `receive` does between two waits: the next wait, or its result and
the codec's new state. The buffer of the prefix grows by what the codec asks
for; a request past `usize::MAX` wraps, and then no slice of the buffer is
left to fill. -/
def Reading.next (serializer : Serializer t σ R S EncErr DecErr) (ls : PacketLengthSerializer t L)
    (limit : ℕ) (st : σ) : Reading → Reading ⊕ (Except (ReceiveError DecErr L) R × σ)
  | .length got _ =>
    match ls.deserializePacketLength got with
    | .ok n => if n > limit then .inr (.error .packetTooBig, st) else .inl (.payload [] n)
    | .error (.needMoreBytes additional) =>
      if (got.length + additional) % t.usize < got.length then
        .inr (.error (.io ⟨.invalidData, ""⟩), st)
      else .inl (.length got ((got.length + additional) % t.usize))
    | .error (.err error) => .inr (.error (.lengthDeserialization error), st)
  | .payload got _ =>
    match serializer.deserialize st got with
    | (.ok packet, st) => .inr (.ok packet, st)
    | (.error error, st) => .inr (.error (.deserialization error), st)

/-- `FramedReader::receive` from the wait `r` on: the result, the codec's
state and the bytes not consumed; `none` when the fuel, one unit for each
wait, does not suffice. -/
def receive (serializer : Serializer t σ R S EncErr DecErr) (ls : PacketLengthSerializer t L)
    (limit : ℕ) : ℕ → Reading → σ → List UInt8 →
      Option (Except (ReceiveError DecErr L) R × σ × List UInt8)
  | 0, _, _, _ => none
  | fuel + 1, r, st, stream =>
    if stream.length < r.missing then some (.error (.io ⟨.unexpectedEof, "early eof"⟩), st, [])
    else
      match (r.feed (stream.take r.missing)).next serializer ls limit st with
      | .inl r' => receive serializer ls limit fuel r' st (stream.drop r.missing)
      | .inr (result, st') => some (result, st', stream.drop r.missing)

/-- `count` successive calls of `receive`, up to the first error. -/
def receiveAll (serializer : Serializer t σ R S EncErr DecErr) (ls : PacketLengthSerializer t L)
    (limit fuel : ℕ) : ℕ → σ → List UInt8 →
      Option (Except (ReceiveError DecErr L) (List R) × σ × List UInt8)
  | 0, st, stream => some (.ok [], st, stream)
  | count + 1, st, stream =>
    match receive serializer ls limit fuel (.start ls) st stream with
    | none => none
    | some (.error err, st, rest) => some (.error err, st, rest)
    | some (.ok packet, st, rest) =>
      match receiveAll serializer ls limit fuel count st rest with
      | none => none
      | some (.error err, st, rest) => some (.error err, st, rest)
      | some (.ok packets, st, rest) => some (.ok (packet :: packets), st, rest)

/-! ### One frame -/

variable {serializer : Serializer t σ R S EncErr DecErr} {ls : PacketLengthSerializer t L}

/-- The payload arrives: `receive` decodes it. -/
theorem receive_payload (limit fuel : ℕ) (st : σ) (body rest : List UInt8) {r : R} {st' : σ}
    (h : serializer.deserialize st body = (.ok r, st')) :
    receive serializer ls limit (fuel + 1) (.payload [] body.length) st (body ++ rest) =
      some (.ok r, st', rest) := by
  simp [receive, Reading.missing, Reading.feed, Reading.next, h]

/-- **The prefix arrives.** Along the codec's chain of requests the reader
consumes the encoded length and no more, and then waits for the payload. -/
theorem receive_length (serializer : Serializer t σ R S EncErr DecErr) {pre : List UInt8} {n k : ℕ}
    (hpre : pre.length < t.usize) (h : Reads ls pre n k) (limit : ℕ) (hn : n ≤ limit) (st : σ)
    (rest : List UInt8) :
    ∃ m, ∀ fuel j, j ≤ k →
      receive serializer ls limit (fuel + m) (.length (pre.take j) k) st (pre.drop j ++ rest) =
        receive serializer ls limit fuel (.payload [] n) st rest := by
  induction h with
  | done hd =>
    refine ⟨1, fun fuel j hj => ?_⟩
    have hlen : (pre.take j).length = j := List.length_take_of_le hj
    have hmiss : pre.length - j = (pre.drop j).length := by simp
    rw [receive]
    simp only [Reading.missing, hlen, hmiss, List.take_left, List.drop_left, Reading.feed,
      List.take_append_drop, Reading.next, hd, List.length_append]
    rw [if_neg (by omega), if_neg (by omega)]
  | more k additional hk hreq hrest ih =>
    obtain ⟨m, hm⟩ := ih
    refine ⟨m + 1, fun fuel j hj => ?_⟩
    have hle := hrest.le_length
    have hlen : (pre.take j).length = j := List.length_take_of_le (by omega)
    have hlenk : (pre.take k).length = k := List.length_take_of_le (by omega)
    -- the bytes asked for are the next ones of `pre`
    have htake : (pre.drop j ++ rest).take (k - j) = (pre.drop j).take (k - j) := by
      rw [List.take_append_of_le_length]; simp; omega
    have hfed : pre.take j ++ (pre.drop j ++ rest).take (k - j) = pre.take k := by
      rw [htake, ← List.take_add]; congr 1; omega
    have hdrop : (pre.drop j ++ rest).drop (k - j) = pre.drop k ++ rest := by
      rw [List.drop_append_of_le_length (by simp; omega), List.drop_drop]; congr 2; omega
    have hmod : (k + additional) % t.usize = k + additional := Nat.mod_eq_of_lt (by omega)
    rw [← Nat.add_assoc, receive]
    simp only [Reading.missing, hlen, Reading.feed, hfed, Reading.next, hreq, hlenk, hmod, hdrop]
    rw [if_neg (by simp; omega), if_neg (by omega)]
    exact hm fuel k (by omega)

/-- **One frame.** On an exact codec, `receive` on a written frame returns
what the codec makes of its payload, and consumes the frame. -/
theorem receive_frame {pre payload : Bytes t} (hx : ls.Exact)
    (hpre : ls.serializePacketLength payload.1.length = .ok pre) (limit : ℕ)
    (hlimit : payload.1.length ≤ limit) (st : σ) {r : R} {st' : σ}
    (h : serializer.deserialize st payload.1 = (.ok r, st')) (rest : List UInt8) :
    ∃ m, ∀ fuel ≥ m, receive serializer ls limit fuel (.start ls) st (pre.1 ++ payload.1 ++ rest) =
      some (.ok r, st', rest) := by
  obtain ⟨m, hm⟩ := receive_length serializer pre.2 (hx _ payload.2 pre hpre) limit
    hlimit st (payload.1 ++ rest)
  refine ⟨m + 1, fun fuel hf => ?_⟩
  obtain ⟨d, rfl⟩ := Nat.exists_eq_add_of_le hf
  have hm0 := hm (d + 1) 0 (Nat.zero_le _)
  simp only [List.take_zero, List.drop_zero] at hm0
  rw [Reading.start, List.append_assoc, show m + 1 + d = d + 1 + m by omega, hm0]
  exact receive_payload limit d st payload.1 rest h

/-! ### Sessions -/

/-- **Every written session is read back.** Whatever follows the written bytes
on the stream stays there. -/
def SessionRoundTrip [ToString EncErr] [ToString L] (ls : PacketLengthSerializer t L)
    (serialize : S → Except EncErr (Bytes t)) (deserialize : List UInt8 → Except DecErr S) : Prop :=
  ∀ (packets : List S) (bytes trailing : List UInt8) (limit : ℕ),
    (sendAll (.readOnly serialize deserialize) ls () packets).1 = .ok bytes →
    (∀ packet ∈ packets, ∀ payload, serialize packet = .ok payload → payload.1.length ≤ limit) →
    ∃ m, ∀ fuel ≥ m, receiveAll (.readOnly serialize deserialize) ls limit fuel packets.length ()
      (bytes ++ trailing) = some (.ok packets, (), trailing)

/-- What a successful send of a read-only codec wrote. -/
theorem frame_readOnly [ToString EncErr] [ToString L] {serialize : S → Except EncErr (Bytes t)}
    {deserialize : List UInt8 → Except DecErr R} {packet : S} {buf : List UInt8}
    (h : (frame (.readOnly serialize deserialize) ls () packet).1 = .ok buf) :
    ∃ payload pre, serialize packet = .ok payload ∧
      ls.serializePacketLength payload.1.length = .ok pre ∧ buf = pre.1 ++ payload.1 := by
  obtain ⟨payload, pre, hp, hl, rfl⟩ := isFrame_of_frame h
  exact ⟨payload, pre, hp, hl, rfl⟩

theorem session_of_exact [ToString EncErr] [ToString L] (hx : ls.Exact)
    {serialize : S → Except EncErr (Bytes t)} {deserialize : List UInt8 → Except DecErr S}
    (hde : ∀ packet payload, serialize packet = .ok payload → deserialize payload.1 = .ok packet) :
    SessionRoundTrip ls serialize deserialize := by
  intro packets
  induction packets with
  | nil =>
    intro bytes trailing limit hs _
    simp only [sendAll, Except.ok.injEq] at hs
    exact ⟨0, fun fuel _ => by simp [receiveAll, ← hs]⟩
  | cons packet packets ih =>
    intro bytes trailing limit hs hlimit
    rw [sendAll] at hs
    cases hf : frame (.readOnly serialize deserialize) ls () packet with
    | mk first st =>
    cases first with
    | error err => simp [hf] at hs
    | ok buf =>
      simp only [hf] at hs
      cases hr : sendAll (.readOnly serialize deserialize) ls st packets with
      | mk later st' =>
      cases later with
      | error err => simp [hr] at hs
      | ok bytes' =>
        simp only [hr, Except.ok.injEq] at hs
        subst hs
        obtain ⟨payload, pre, hser, hpre, rfl⟩ := frame_readOnly (by rw [hf])
        have hle := hlimit packet List.mem_cons_self payload hser
        have hback : (Serializer.readOnly serialize deserialize).deserialize () payload.1 =
            (.ok packet, ()) := by
          simp [Serializer.readOnly, hde packet payload hser]
        obtain ⟨m, hm⟩ := receive_frame hx hpre limit hle () hback (bytes' ++ trailing)
        obtain ⟨m', hm'⟩ := ih bytes' trailing limit (by rw [hr])
          fun p hp => hlimit p (List.mem_cons_of_mem _ hp)
        refine ⟨max m m', fun fuel hfuel => ?_⟩
        have h1 := hm fuel (le_trans (le_max_left _ _) hfuel)
        have h2 := hm' fuel (le_trans (le_max_right _ _) hfuel)
        rw [List.length_cons, receiveAll, List.append_assoc, h1]
        simp only [h2]

/-- **Framing round trip.** For a packet codec whose decoding undoes its
encoding, every session written with a built-in length codec, or with any
exact one, is read back, and its bytes are consumed exactly. -/
theorem session_round_trip [ToString EncErr] {serialize : S → Except EncErr (Bytes t)}
    {deserialize : List UInt8 → Except DecErr S}
    (hde : ∀ packet payload, serialize packet = .ok payload → deserialize payload.1 = .ok packet) :
    (∀ endian number, SessionRoundTrip (builtIn t endian number) serialize deserialize) ∧
    ∀ (L : Type) [ToString L] (ls : PacketLengthSerializer t L), ls.Exact →
      SessionRoundTrip ls serialize deserialize :=
  ⟨fun endian number => session_of_exact (builtIn_exact t endian number) hde,
    fun _ _ _ hx => session_of_exact hx hde⟩

/-- One byte as a packet, for which the empty and the longer payload are
malformed. -/
def encodeByte (b : UInt8) : Except String (Bytes .bits64) := .ok ⟨[b], by simp [Target.usize]⟩

def decodeByte : List UInt8 → Except String UInt8
  | [b] => .ok b
  | _ => .error "malformed"

theorem decodeByte_encodeByte (b : UInt8) (payload : Bytes .bits64) (h : encodeByte b = .ok payload) :
    decodeByte payload.1 = .ok b := by
  cases h
  rfl

/-- Two packets behind little-endian `u16` lengths, and a byte that is not
theirs. -/
theorem session_two_packets :
    ∃ m, ∀ fuel ≥ m, receiveAll (.readOnly encodeByte decodeByte) (builtIn .bits64 .little .u16) 1 fuel
      2 () ([1, 0, 7, 1, 0, 9] ++ [42]) = some (.ok [7, 9], (), [42]) :=
  (session_round_trip decodeByte_encodeByte).1 .little .u16 [7, 9] [1, 0, 7, 1, 0, 9] [42] 1 rfl
    fun packet _ payload h => by cases h; rfl

end Framing
end Slinet
