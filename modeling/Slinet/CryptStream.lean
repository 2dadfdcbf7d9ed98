/-
# The XOR serializer over a stream, and over anything else

`src/serializers/custom_crypt.rs` says of its engine that it needs reliable,
ordered packets: loss, duplication, reordering or malformed input put it out of
step. Both halves are made exact here.

Over a stream the engines stay in step whatever the tasks of both ends do, so
packets sent through them arrive in order (`encrypted_stream`), as in
`examples/hello_world_tcp_encrypted.rs`. For any other transport, `in_step_iff` says
when a payload is decrypted to what was encrypted, after any history of either
engine: exactly if the bytes decrypted before it are as many as those encrypted
before it, modulo 256. Nothing but the number of bytes counts, so a loss can be
made up for by a duplicate, and is otherwise never noticed by the engine.
-/
import Slinet.CustomCrypt
import Slinet.Stream

namespace Slinet
namespace CustomCrypt

variable {t : Target} {P S : Type*}

/-- The error's text. -/
instance : ToString CustomSerializationError := ⟨fun _ => "SerializationFailed"⟩

/-! ### The transform out of step -/

/-- **From another position the transform undoes nothing.** -/
theorem transform_eq_iff (p r : UInt8) (data : List UInt8) :
    (transform r (transform p data).1).1 = data ↔ data = [] ∨ p = r := by
  cases data with
  | nil => simp [transform]
  | cons byte data =>
    constructor
    · intro h
      have hhead : byte ^^^ p ^^^ r = byte := by
        have h0 := congrArg List.head? h
        simpa [transform] using h0
      have hsame : byte ^^^ p = byte ^^^ r :=
        calc byte ^^^ p = byte ^^^ p ^^^ r ^^^ r := by
              rw [UInt8.xor_assoc (byte ^^^ p), UInt8.xor_self, UInt8.xor_zero]
          _ = byte ^^^ r := by rw [hhead]
      exact Or.inr ((UInt8.xor_right_inj byte).mp hsame)
    · rintro (h | rfl)
      · cases h
      · exact transform_transform p (byte :: data)

/-! ### Any history of an engine -/

theorem getElem?_ciphertexts (b : Bitcode t P) : ∀ (packets : List P) (position : UInt8) (k : ℕ),
    (ciphertexts b position packets)[k]? = packets[k]?.map fun packet =>
      (transform (position + UInt8.ofNat (size b (packets.take k))) (b.encode packet).1).1
  | [], _, _ => by simp [ciphertexts]
  | packet :: packets, position, 0 => by simp [ciphertexts]
  | packet :: packets, position, k + 1 => by
    rw [ciphertexts, List.getElem?_cons_succ, getElem?_ciphertexts b packets, List.getElem?_cons_succ,
      List.take_succ_cons, size_cons, UInt8.ofNat_add, UInt8.add_assoc]

theorem length_ciphertexts (b : Bitcode t P) : ∀ (packets : List P) (position : UInt8),
    (ciphertexts b position packets).length = packets.length
  | [], _ => rfl
  | packet :: packets, position => by
    rw [ciphertexts, List.length_cons, length_ciphertexts b packets, List.length_cons]

variable (receiving : Bitcode t S) (sending : Bitcode t P)

/-- **What an engine encrypts**, whatever it decrypts in between. -/
theorem encoded_eq : ∀ (calls : List (CodecCall P)) (engine : CustomCryptEngine),
    (customCryptSerializer receiving sending).encoded engine calls =
      (calls.filterMap CodecCall.packet?).zip
        (ciphertexts sending engine.keyPair.send (calls.filterMap CodecCall.packet?))
  | [], _ => rfl
  | .serialize packet :: calls, engine => by
    have ih := encoded_eq calls (engine.encrypt sending packet).2
    have hsend : (engine.encrypt sending packet).2.keyPair.send =
        engine.keyPair.send + UInt8.ofNat (sending.encode packet).1.length :=
      transform_position engine.keyPair.send (sending.encode packet).1
    rw [hsend] at ih
    simp only [List.filterMap_cons, CodecCall.packet?, ciphertexts, List.zip_cons_cons, ← ih]
    rfl
  | .deserialize data :: calls, engine => by
    have ih := encoded_eq calls (engine.decrypt receiving data).2
    have hsend : (engine.decrypt receiving data).2.keyPair.send = engine.keyPair.send := by
      rw [decrypt_state]
      rfl
    rw [hsend] at ih
    exact ih

/-- The position from which an engine decrypts, after any history. -/
theorem receive_after : ∀ (calls : List (CodecCall P)) (engine : CustomCryptEngine),
    ((customCryptSerializer receiving sending).after engine calls).keyPair.receive =
      engine.keyPair.receive + UInt8.ofNat ((calls.filterMap CodecCall.data?).map List.length).sum
  | [], engine => by simp [Serializer.after]
  | .serialize packet :: calls, engine => receive_after calls (engine.encrypt sending packet).2
  | .deserialize data :: calls, engine => by
    have ih := receive_after calls (engine.decrypt receiving data).2
    have hreceive : (engine.decrypt receiving data).2.keyPair.receive =
        engine.keyPair.receive + UInt8.ofNat data.length := by
      rw [decrypt_state]
      exact transform_position engine.keyPair.receive data
    rw [hreceive] at ih
    simp only [List.filterMap_cons, CodecCall.data?, List.map_cons, List.sum_cons, UInt8.ofNat_add,
      ← UInt8.add_assoc]
    exact ih

/-- The bytes of the first payloads are those of the packets encoded. -/
theorem sum_ciphertexts (b : Bitcode t P) (packets : List P) (position : UInt8) (k : ℕ) :
    (((ciphertexts b position packets).take k).map List.length).sum = size b (packets.take k) := by
  induction packets generalizing position k with
  | nil => simp [ciphertexts]
  | cons packet packets ih =>
    cases k with
    | zero => rfl
    | succ k =>
      rw [ciphertexts, List.take_succ_cons, List.map_cons, List.sum_cons, length_transform, ih,
        List.take_succ_cons, size_cons]

theorem ofNat_eq_iff (m n : ℕ) : UInt8.ofNat m = UInt8.ofNat n ↔ m % 256 = n % 256 := by
  rw [← UInt8.toNat_inj, UInt8.toNat_ofNat', UInt8.toNat_ofNat']

/-- **When two engines are in step.** After any history of either engine, of
encryptions and decryptions in any order, the payload `k` of the one is
decrypted by the other to the bytes that were encrypted if and only if there
are none, or as many bytes were decrypted before it as encrypted, modulo 256;
whatever the bytes decrypted were, and in whatever order they came. Then
`decrypt` returns the packet. -/
theorem in_step_iff (callsA : List (CodecCall P)) (callsB : List (CodecCall S)) (k : ℕ) (packet : P)
    (payload : List UInt8)
    (hk : ((customCryptSerializer receiving sending).encoded .default callsA)[k]? = some (packet, payload)) :
    let sent := (customCryptSerializer receiving sending).encoded .default callsA
    let engine := (customCryptSerializer sending receiving).after .default callsB
    let decrypted := ((callsB.filterMap CodecCall.data?).map List.length).sum
    let encrypted := ((sent.take k).map fun x => x.2.length).sum
    ((engine.xorDecrypt payload).1 = (sending.encode packet).1 ↔
      (sending.encode packet).1 = [] ∨ encrypted % 256 = decrypted % 256) ∧
    (sending.Undoes → (sending.encode packet).1 = [] ∨ encrypted % 256 = decrypted % 256 →
      (engine.decrypt sending payload).1 = .ok packet) := by
  intro sent engine decrypted encrypted
  have hsent : sent = (callsA.filterMap CodecCall.packet?).zip
      (ciphertexts sending 0 (callsA.filterMap CodecCall.packet?)) :=
    encoded_eq receiving sending callsA .default
  generalize callsA.filterMap CodecCall.packet? = packets at hsent
  have hzip : sent[k]? = some (packet, payload) := hk
  rw [hsent] at hzip
  obtain ⟨hpacket, hcipher⟩ := List.getElem?_zip_eq_some.mp hzip
  have hpayload : payload =
      (transform (UInt8.ofNat (size sending (packets.take k))) (sending.encode packet).1).1 := by
    rw [getElem?_ciphertexts, hpacket, UInt8.zero_add] at hcipher
    exact (Option.some.inj hcipher).symm
  have hencrypted : encrypted = size sending (packets.take k) := by
    have hpayloads : (sent.take k).map Prod.snd = (ciphertexts sending 0 packets).take k := by
      rw [hsent, List.map_take, List.map_snd_zip (by rw [length_ciphertexts])]
    rw [← sum_ciphertexts sending packets 0 k, ← hpayloads, List.map_map]
    rfl
  have hreceive : engine.keyPair.receive = UInt8.ofNat decrypted := by
    have hafter := receive_after sending receiving callsB .default
    rwa [show CustomCryptEngine.default.keyPair.receive = 0 from rfl, UInt8.zero_add] at hafter
  have hiff : (engine.xorDecrypt payload).1 = (sending.encode packet).1 ↔
      (sending.encode packet).1 = [] ∨ encrypted % 256 = decrypted % 256 := by
    show (transform engine.keyPair.receive payload).1 = _ ↔ _
    rw [hpayload, hreceive, transform_eq_iff, hencrypted, ofNat_eq_iff]
  refine ⟨hiff, fun hb hstep => ?_⟩
  rw [CustomCryptEngine.decrypt, hiff.mpr hstep, hb packet]

/-- A byte as a packet. -/
def byte : Bitcode .bits64 UInt8 where
  encode b := ⟨[b], show 1 < 2 ^ 64 by decide⟩
  decode
    | [b] => some b
    | _ => none

/-- The first payload is lost, and a foreign byte makes up for it. -/
theorem in_step_iff_foreign :
    let engine (calls : List (CodecCall UInt8)) := (customCryptSerializer byte byte).after .default calls
    (engine []).xorDecrypt [7] = ([7], engine [.deserialize [9]]) ∧
      ((engine []).xorDecrypt [7]).1 ≠ (byte.encode 6).1 ∧
      ((engine [.deserialize [9]]).decrypt byte [7]).1 = .ok 6 := by
  intro engine
  have hlost := in_step_iff byte byte [.serialize 5, .serialize 6] [] 1 6 [7] rfl
  have hforeign := in_step_iff byte byte [.serialize 5, .serialize 6] [.deserialize [9]] 1 6 [7] rfl
  exact ⟨by decide, fun h => absurd (hlost.1.mp h) (by decide), hforeign.2 (fun _ => rfl) (Or.inr rfl)⟩

/-! ### A stream -/

section Stream

variable {t' : Target}

/-- What an engine in step with the other decrypts. -/
theorem decoded_inputs (b : Bitcode t P) (b' : Bitcode t' P) (answers : Bitcode t' S)
    (hb : ∀ packet, b'.decode (b.encode packet).1 = some packet) :
    ∀ (packets : List P) (inputs : List (List UInt8)) (engine : CustomCryptEngine),
      inputs <+: ciphertexts b engine.keyPair.receive packets →
      (customCryptSerializer b' answers).decoded engine (inputs.map .deserialize) =
        (packets.take inputs.length).map .ok
  | _, [], _, _ => by simp [Serializer.decoded]
  | [], data :: inputs, _, hin => by simp [ciphertexts] at hin
  | packet :: packets, data :: inputs, engine, hin => by
    obtain ⟨rfl, hlater⟩ := List.cons_prefix_cons.mp hin
    have hfirst : (engine.xorDecrypt (transform engine.keyPair.receive (b.encode packet).1).1).1 =
        (b.encode packet).1 :=
      transform_transform engine.keyPair.receive (b.encode packet).1
    have hposition :
        (engine.xorDecrypt (transform engine.keyPair.receive (b.encode packet).1).1).2.keyPair.receive =
          engine.keyPair.receive + UInt8.ofNat (b.encode packet).1.length := by
      simp only [CustomCryptEngine.xorDecrypt, transform_position, length_transform]
    have hcall : (customCryptSerializer b' answers).deserialize engine
        (transform engine.keyPair.receive (b.encode packet).1).1 =
          (.ok packet, (engine.xorDecrypt (transform engine.keyPair.receive (b.encode packet).1).1).2) := by
      simp only [customCryptSerializer, CustomCryptEngine.decrypt, hfirst, hb packet]
    rw [← hposition] at hlater
    have ih := decoded_inputs b b' answers hb packets inputs _ hlater
    simp only [List.map_cons, Serializer.decoded, hcall, List.length_cons, List.take_succ_cons, ih]

/-- The engines of a connection's ends are codecs in order. -/
theorem inOrder {client : Bitcode t P} {client' : Bitcode t' P} (server : Bitcode t S)
    (server' : Bitcode t' S) (hb : ∀ packet, client'.decode (client.encode packet).1 = some packet) :
    InOrder (customCryptSerializer server client) .default (customCryptSerializer client' server')
      .default := by
  intro callsA callsB _ hin
  have hlen : (callsA.filterMap CodecCall.packet?).length =
      (ciphertexts client 0 (callsA.filterMap CodecCall.packet?)).length :=
    (length_ciphertexts client _ 0).symm
  have henc : (customCryptSerializer server client).encoded .default callsA =
      (callsA.filterMap CodecCall.packet?).zip
        (ciphertexts client 0 (callsA.filterMap CodecCall.packet?)) :=
    encoded_eq server client callsA .default
  rw [henc, List.map_snd_zip hlen.ge] at hin
  rw [henc, List.map_fst_zip hlen.le, ((commutes client' server').sorted callsB .default).2.1]
  exact decoded_inputs client client' server' hb _ _ .default hin

/-- The ends of a connection with fresh engines. -/
def ends {c : Plugin} (endian : Endian) (number : Number) (client : Bitcode t P) (server : Bitcode t S)
    (client' : Bitcode c.target P) (server' : Bitcode c.target S) :
    Ends t c.target CustomCryptEngine CustomCryptEngine P S CustomSerializationError
      CustomSerializationError CustomSerializationError CustomSerializationError where
  endian := endian
  number := number
  a := customCryptSerializer server client
  a₀ := .default
  b := customCryptSerializer client' server'
  b₀ := .default

/-- **An encrypted stream.** After any steps of both ends, of their tasks and of
the frames, in either direction and in any order, the packets triggered are the
first of those accepted by `send`; and no call of `decrypt`, at either end, has
returned anything but the next packet that the other end encrypted. -/
theorem encrypted_stream {c : Plugin} {Id : Type*} [DecidableEq Id] (endian : Endian) (number : Number)
    (client : Bitcode t P) (server : Bitcode t S) (client' : Bitcode c.target P)
    (server' : Bitcode c.target S) (me : Id) (sendCapacity : ℕ) (overflow : OverflowPolicy)
    (hc : c.datagram = false) (hclient : ∀ packet, client'.decode (client.encode packet).1 = some packet)
    (hserver : ∀ packet, server.decode (server'.encode packet).1 = some packet)
    (as : List (Stream.Act Id P S CustomSerializationError)) :
    let e := ends endian number client server client' server'
    let s := run (Stream.step e me) (Stream.new e Id sendCapacity overflow) as
    s.receiver.triggered me <+: s.sender.accepted ∧
    (s.a = e.a.after .default s.callsA ∧
      e.b.decoded .default s.callsB = (((e.a.encoded .default s.callsA).map Prod.fst).take
        (s.callsB.filterMap CodecCall.data?).length).map .ok) ∧
    (s.b = e.b.after .default s.callsB ∧
      e.a.decoded .default s.callsA = (((e.b.encoded .default s.callsB).map Prod.fst).take
        (s.callsA.filterMap CodecCall.data?).length).map .ok) := by
  intro e s
  have hin : InOrder e.a e.a₀ e.b e.b₀ := inOrder server server' hclient
  have hback : InOrder e.b e.b₀ e.a e.a₀ := inOrder client' client hserver
  obtain ⟨framed, answers, h⟩ : s.Sound e me :=
    run_inv (I := Stream.Sound e me) (fun _ a h => Stream.sound_step hc hin h a) as
      (Stream.sound_new e me sendCapacity overflow)
  refine ⟨?_, ⟨h.stateA, ?_⟩, h.stateB, ?_⟩
  · calc s.receiver.triggered me <+: (s.receiver.peers me).link.received := h.delivers.triggered
      _ = (framed.map Prod.fst).take s.forward.payloads.length := h.received
      _ <+: framed.map Prod.fst := List.take_prefix _ _
      _ <+: s.sender.dequeued := h.dequeued
      _ <+: s.sender.accepted := h.fifo.dequeued
  · exact hin s.callsA s.callsB h.back.inputs_encoded h.ahead.inputs_encoded
  · exact hback s.callsB s.callsA h.ahead.inputs_encoded h.back.inputs_encoded

/-- Of three packets accepted two are triggered, and an answer is under way. -/
theorem encrypted_stream_three :
    let c : Plugin := ⟨.server, false, .bits64, 4, .dropNewest, 4, .dropNewest⟩
    let call (b : UInt8) : List (Stream.Act ℕ UInt8 UInt8 CustomSerializationError) :=
      [.send (.send b), .send (.proceed 0), .send (.proceed 0), .send (.proceed 0)]
    let write : List (Stream.Act ℕ UInt8 UInt8 CustomSerializationError) :=
      [.send .advance, .send .advance, .encode, .write 9, .wrote, .send .advance]
    let setup : List (Stream.Act ℕ UInt8 UInt8 CustomSerializationError) :=
      [.receive (.create 0), .receive (.publish 0), .receive (.hand 0 true),
        .receive (.split 0 (.ok ())), .receive (.link 0 .poll)]
    let tick : Stream.Act ℕ UInt8 UInt8 CustomSerializationError := .receive (.link 0 .advance)
    let read : List (Stream.Act ℕ UInt8 UInt8 CustomSerializationError) :=
      [tick, tick, .feed 2, .parse 64, .feed 1, .parse 64, tick, .receive (.offer 0)]
    let frame : List (Stream.Act ℕ UInt8 UInt8 CustomSerializationError) :=
      .receive (.beginFrame 8) :: List.replicate 7 (.receive .advance)
    let as := call 5 ++ call 6 ++ call 7 ++ [.send .poll] ++ write ++ write ++ setup ++ read ++
      [.answer 8] ++ read ++ frame
    let s := run (Stream.step (ends (c := c) .little .u16 byte byte byte byte) 0)
      (Stream.new (ends (c := c) .little .u16 byte byte byte byte) ℕ 4 .dropNewest) as
    s.sender.accepted = [5, 6, 7] ∧ s.receiver.triggered 0 = [5, 6] ∧
      s.receiver.triggered 0 <+: s.sender.accepted := by
  intro c call write setup tick read frame as s
  have h := encrypted_stream (c := c) .little .u16 byte byte byte byte 0 4 .dropNewest rfl
    (fun _ => rfl) (fun _ => rfl) as
  exact ⟨by decide +kernel, by decide +kernel, h.1⟩

end Stream

end CustomCrypt
end Slinet
