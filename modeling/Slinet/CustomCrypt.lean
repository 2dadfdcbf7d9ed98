/-
# The stateful XOR serializer

`src/serializers/custom_crypt.rs`: a codec whose key stream position is carried
from packet to packet, one position for sending and one for receiving, each a
wrapping byte. `bitcode`, which turns packets into bytes, is left open up to
what is relied on: that decoding undoes encoding.

Two ends with fresh engines, and a reliable ordered channel each way, stay in
step (`full_duplex`). What an invariant has to relate are four positions and
the bytes under way on two channels, but a channel concerns only the position
at either of its ends: `InStep` is about one of them. On one engine the two
directions commute, so it does not matter in which order the tasks take the
lock (`Serializer.Commutes.sorted`).
-/
import Mathlib.Data.UInt
import Slinet.Codec
import Slinet.Run

namespace Slinet
namespace CustomCrypt

variable {t : Target} {P R S : Type*}

/-- A `String`: it fits into memory. -/
abbrev Text (t : Target) := { s : String // s.utf8ByteSize ≤ t.isizeMax }

inductive CustomCryptClientPacket (t : Target)
  | string (text : Text t)

inductive CustomCryptServerPacket (t : Target)
  | string (text : Text t)

/-- A payload the codec cannot decode. -/
inductive CustomSerializationError
  | serializationFailed
  deriving DecidableEq, Repr

/-- `bitcode::encode` and `bitcode::decode` for packets `P`. -/
structure Bitcode (t : Target) (P : Type*) where
  encode : P → Bytes t
  decode : List UInt8 → Option P

/-- Decoding undoes encoding. -/
def Bitcode.Undoes (b : Bitcode t P) : Prop := ∀ packet, b.decode (b.encode packet).1 = some packet

/-! ### The transform -/

/-- `XorPosition::transform`: the data, and the position behind it. -/
def transform : UInt8 → List UInt8 → List UInt8 × UInt8
  | position, [] => ([], position)
  | position, byte :: data =>
    let (data, position') := transform (position + 1) data
    ((byte ^^^ position) :: data, position')

@[simp] theorem length_transform (position : UInt8) (data : List UInt8) :
    (transform position data).1.length = data.length := by
  induction data generalizing position with
  | nil => rfl
  | cons byte data ih => simp [transform, ih]

/-- The position advances by a byte for each byte. -/
theorem transform_position (position : UInt8) (data : List UInt8) :
    (transform position data).2 = position + UInt8.ofNat data.length := by
  induction data generalizing position with
  | nil => simp [transform]
  | cons byte data ih =>
    simp only [transform, ih, List.length_cons, UInt8.ofNat_add, UInt8.ofNat_one]
    rw [UInt8.add_assoc, UInt8.add_comm 1]

/-- **From the same position the transform undoes itself.** -/
theorem transform_transform (position : UInt8) (data : List UInt8) :
    (transform position (transform position data).1).1 = data := by
  induction data generalizing position with
  | nil => rfl
  | cons byte data ih =>
    simp only [transform, ih]
    rw [UInt8.xor_assoc, UInt8.xor_self, UInt8.xor_zero]

/-! ### The engine -/

/-- `ExampleKeyPair`: the positions of the two directions. -/
structure ExampleKeyPair where
  send : UInt8
  receive : UInt8
  deriving DecidableEq, Repr

structure CustomCryptEngine where
  keyPair : ExampleKeyPair
  deriving DecidableEq, Repr

namespace CustomCryptEngine

def default : CustomCryptEngine := ⟨⟨0, 0⟩⟩

def xorEncrypt (engine : CustomCryptEngine) (data : List UInt8) : List UInt8 × CustomCryptEngine :=
  ((transform engine.keyPair.send data).1,
    ⟨{ engine.keyPair with send := (transform engine.keyPair.send data).2 }⟩)

def xorDecrypt (engine : CustomCryptEngine) (data : List UInt8) : List UInt8 × CustomCryptEngine :=
  ((transform engine.keyPair.receive data).1,
    ⟨{ engine.keyPair with receive := (transform engine.keyPair.receive data).2 }⟩)

def encrypt (sending : Bitcode t S) (engine : CustomCryptEngine) (packet : S) :
    Except CustomSerializationError (Bytes t) × CustomCryptEngine :=
  (.ok ⟨(engine.xorEncrypt (sending.encode packet).1).1, by
      rw [xorEncrypt, length_transform]
      exact (sending.encode packet).2⟩,
    (engine.xorEncrypt (sending.encode packet).1).2)

def decrypt (receiving : Bitcode t R) (engine : CustomCryptEngine) (packet : List UInt8) :
    Except CustomSerializationError R × CustomCryptEngine :=
  match receiving.decode (engine.xorDecrypt packet).1 with
  | some packet' => (.ok packet', (engine.xorDecrypt packet).2)
  | none => (.error .serializationFailed, (engine.xorDecrypt packet).2)

end CustomCryptEngine

/-- `CustomCryptSerializer` around the engine. -/
def customCryptSerializer (receiving : Bitcode t R) (sending : Bitcode t S) :
    Serializer t CustomCryptEngine R S CustomSerializationError CustomSerializationError where
  serialize := CustomCryptEngine.encrypt sending
  deserialize := CustomCryptEngine.decrypt receiving

/-- The client's and the server's codec. -/
def clientSerializer (client : Bitcode t (CustomCryptClientPacket t))
    (server : Bitcode t (CustomCryptServerPacket t)) :=
  customCryptSerializer server client

def serverSerializer (client : Bitcode t (CustomCryptClientPacket t))
    (server : Bitcode t (CustomCryptServerPacket t)) :=
  customCryptSerializer client server

theorem decrypt_state (receiving : Bitcode t R) (engine : CustomCryptEngine) (data : List UInt8) :
    (engine.decrypt receiving data).2 = (engine.xorDecrypt data).2 := by
  unfold CustomCryptEngine.decrypt
  split <;> rfl

/-- Each direction has its position, so the two calls commute. -/
theorem commutes (receiving : Bitcode t R) (sending : Bitcode t S) :
    (customCryptSerializer receiving sending).Commutes := by
  refine ⟨fun st packet data => ?_, fun st packet data => ?_, fun st packet data => ?_⟩
  · simp only [customCryptSerializer, CustomCryptEngine.encrypt, decrypt_state]
    rfl
  · simp only [customCryptSerializer, CustomCryptEngine.decrypt, CustomCryptEngine.encrypt]
    simp only [CustomCryptEngine.xorDecrypt, CustomCryptEngine.xorEncrypt]
    split <;> rfl
  · simp only [customCryptSerializer, CustomCryptEngine.encrypt, decrypt_state]
    rfl

/-! ### Two ends -/

/-- One direction of the connection: the packets encrypted, the ciphertexts
under way and the results of decrypting, all in order. -/
structure Lane (P : Type*) where
  sent : List P
  flight : List (List UInt8)
  received : List (Except CustomSerializationError P)

def Lane.new : Lane P := ⟨[], [], []⟩

/-- A packet is encrypted, and its ciphertext is under way. -/
def Lane.push (lane : Lane P) (packet : P) : Except CustomSerializationError (Bytes t) → Lane P
  | .ok payload =>
    { lane with sent := lane.sent ++ [packet], flight := lane.flight ++ [payload.1] }
  | .error _ => lane

/-- The oldest ciphertext under way has been decrypted. -/
def Lane.pop (lane : Lane P) (result : Except CustomSerializationError P) : Lane P :=
  { lane with flight := lane.flight.tail, received := lane.received ++ [result] }

/-- Two engines, and the channels between them. -/
structure Duplex (t : Target) where
  client : CustomCryptEngine
  server : CustomCryptEngine
  toServer : Lane (CustomCryptClientPacket t)
  toClient : Lane (CustomCryptServerPacket t)

namespace Duplex

def new : Duplex t := ⟨.default, .default, .new, .new⟩

/-- Either end encrypts a packet, or decrypts the next ciphertext that has not
been delivered to it. -/
inductive Act (t : Target)
  | clientEncrypt (packet : CustomCryptClientPacket t)
  | serverEncrypt (packet : CustomCryptServerPacket t)
  | clientDecrypt
  | serverDecrypt

def step (client : Bitcode t (CustomCryptClientPacket t)) (server : Bitcode t (CustomCryptServerPacket t))
    (d : Duplex t) : Act t → Duplex t
  | .clientEncrypt packet =>
    match (clientSerializer client server).serialize d.client packet with
    | (result, engine) => { d with client := engine, toServer := d.toServer.push packet result }
  | .serverEncrypt packet =>
    match (serverSerializer client server).serialize d.server packet with
    | (result, engine) => { d with server := engine, toClient := d.toClient.push packet result }
  | .clientDecrypt =>
    match d.toClient.flight with
    | [] => d
    | data :: _ =>
      match (clientSerializer client server).deserialize d.client data with
      | (result, engine) => { d with client := engine, toClient := d.toClient.pop result }
  | .serverDecrypt =>
    match d.toServer.flight with
    | [] => d
    | data :: _ =>
      match (serverSerializer client server).deserialize d.server data with
      | (result, engine) => { d with server := engine, toServer := d.toServer.pop result }

end Duplex

/-! ### One direction -/

section Lane

variable {b : Bitcode t P} {send receive : UInt8} {lane : Lane P}

/-- The bytes of the encoded packets. -/
def size (b : Bitcode t P) (packets : List P) : ℕ := (packets.map fun packet => (b.encode packet).1.length).sum

@[simp] theorem size_nil (b : Bitcode t P) : size b [] = 0 := rfl

@[simp] theorem size_cons (b : Bitcode t P) (packet : P) (packets : List P) :
    size b (packet :: packets) = (b.encode packet).1.length + size b packets := rfl

@[simp] theorem size_append (b : Bitcode t P) (packets later : List P) :
    size b (packets ++ later) = size b packets + size b later := by
  simp [size]

/-- The ciphertexts of the packets, from a position on. -/
def ciphertexts (b : Bitcode t P) : UInt8 → List P → List (List UInt8)
  | _, [] => []
  | position, packet :: packets =>
    (transform position (b.encode packet).1).1 ::
      ciphertexts b (position + UInt8.ofNat (b.encode packet).1.length) packets

theorem ciphertexts_concat (b : Bitcode t P) (packet : P) : ∀ (packets : List P) (position : UInt8),
    ciphertexts b position (packets ++ [packet]) =
      ciphertexts b position packets ++
        [(transform (position + UInt8.ofNat (size b packets)) (b.encode packet).1).1]
  | [], position => by simp [ciphertexts]
  | first :: packets, position => by
    have hposition : position + UInt8.ofNat (b.encode first).1.length + UInt8.ofNat (size b packets) =
        position + UInt8.ofNat (size b (first :: packets)) := by
      rw [size_cons, UInt8.ofNat_add, UInt8.add_assoc]
    simp only [List.cons_append, ciphertexts, ciphertexts_concat b packet packets, hposition]

/-- The two positions of a direction and what is under way between them: the
packets `done` have been received, and the ciphertexts of `pending` are what
the receiver's position is in front of. -/
def InStep (b : Bitcode t P) (send receive : UInt8) (lane : Lane P) : Prop :=
  ∃ done pending, lane.sent = done ++ pending ∧ lane.received = done.map .ok ∧
    lane.flight = ciphertexts b receive pending ∧
    receive = UInt8.ofNat (size b done) ∧ send = UInt8.ofNat (size b lane.sent)

theorem inStep_new (b : Bitcode t P) : InStep b 0 0 Lane.new := ⟨[], [], rfl, rfl, rfl, rfl, rfl⟩

/-- A packet is encrypted at the sender's position. -/
theorem InStep.encrypt (h : InStep b send receive lane) (packet : P) (payload : Bytes t)
    (hpayload : payload.1 = (transform send (b.encode packet).1).1) :
    InStep b (transform send (b.encode packet).1).2 receive (lane.push packet (.ok payload)) := by
  obtain ⟨done, pending, hsent, hreceived, hflight, hreceive, hsend⟩ := h
  have hposition : receive + UInt8.ofNat (size b pending) = send := by
    rw [hreceive, hsend, hsent, size_append, UInt8.ofNat_add]
  refine ⟨done, pending ++ [packet], ?_, hreceived, ?_, hreceive, ?_⟩
  · simp [Lane.push, hsent]
  · rw [ciphertexts_concat, hposition, ← hflight, ← hpayload]
    rfl
  · simp only [Lane.push, transform_position, size_append, size_cons, size_nil, Nat.add_zero,
      UInt8.ofNat_add, ← hsend]

/-- The oldest ciphertext is decrypted at the receiver's position: it is the
packet that was encrypted. -/
theorem InStep.decrypt (h : InStep b send receive lane) (hb : b.Undoes) {data : List UInt8}
    {rest : List (List UInt8)} (hf : lane.flight = data :: rest) :
    ∃ packet, b.decode (transform receive data).1 = some packet ∧
      InStep b send (transform receive data).2 (lane.pop (.ok packet)) := by
  obtain ⟨done, pending, hsent, hreceived, hflight, hreceive, hsend⟩ := h
  rw [hf] at hflight
  cases pending with
  | nil => simp [ciphertexts] at hflight
  | cons packet pending =>
    simp only [ciphertexts, List.cons.injEq] at hflight
    obtain ⟨rfl, hrest⟩ := hflight
    have hposition : (transform receive (transform receive (b.encode packet).1).1).2 =
        receive + UInt8.ofNat (b.encode packet).1.length := by
      rw [transform_position, length_transform]
    refine ⟨packet, ?_, done ++ [packet], pending, ?_, ?_, ?_, ?_, hsend⟩
    · rw [transform_transform]
      exact hb packet
    · simp [Lane.pop, hsent]
    · simp [Lane.pop, hreceived]
    · simp [Lane.pop, hf, hposition, hrest]
    · rw [hposition, size_append, UInt8.ofNat_add, ← hreceive, size_cons, size_nil, Nat.add_zero]

/-- What a direction in step shows to the outside. -/
theorem InStep.exact (h : InStep b send receive lane) :
    lane.received = (lane.sent.take lane.received.length).map .ok ∧
    lane.received.length + lane.flight.length = lane.sent.length ∧
    receive.toNat = size b (lane.sent.take lane.received.length) % 256 ∧
    send = receive + UInt8.ofNat (lane.flight.map List.length).sum := by
  obtain ⟨done, pending, hsent, hreceived, hflight, hreceive, hsend⟩ := h
  have hlen : ∀ (packets : List P) (position : UInt8),
      (ciphertexts b position packets).length = packets.length ∧
        ((ciphertexts b position packets).map List.length).sum = size b packets := by
    intro packets
    induction packets with
    | nil => exact fun _ => ⟨rfl, rfl⟩
    | cons packet packets ih =>
      intro position
      obtain ⟨h1, h2⟩ := ih (position + UInt8.ofNat (b.encode packet).1.length)
      simp [ciphertexts, h1, h2]
  have hdone : lane.sent.take lane.received.length = done := by
    rw [hreceived, List.length_map, hsent, List.take_left]
  refine ⟨?_, ?_, ?_, ?_⟩
  · rw [hdone, hreceived]
  · rw [hreceived, hflight, (hlen pending receive).1, hsent, List.length_map, List.length_append]
  · rw [hdone, hreceive, UInt8.toNat_ofNat']
  · rw [hflight, (hlen pending receive).2, hreceive, hsend, hsent, size_append, UInt8.ofNat_add]

end Lane

/-! ### Both directions -/

section Duplex

variable {client : Bitcode t (CustomCryptClientPacket t)} {server : Bitcode t (CustomCryptServerPacket t)}

/-- What every step keeps. -/
structure Duplex.Good (client : Bitcode t (CustomCryptClientPacket t))
    (server : Bitcode t (CustomCryptServerPacket t)) (d : Duplex t) : Prop where
  toServer : InStep client d.client.keyPair.send d.server.keyPair.receive d.toServer
  toClient : InStep server d.server.keyPair.send d.client.keyPair.receive d.toClient

theorem Duplex.good_step (hc : client.Undoes) (hs : server.Undoes) {d : Duplex t}
    (h : d.Good client server) (a : Act t) : (d.step client server a).Good client server := by
  obtain ⟨hup, hdown⟩ := h
  cases a with
  | clientEncrypt packet => exact ⟨hup.encrypt packet _ rfl, hdown⟩
  | serverEncrypt packet => exact ⟨hup, hdown.encrypt packet _ rfl⟩
  | clientDecrypt =>
    cases hf : d.toClient.flight with
    | nil =>
      simp only [Duplex.step, hf]
      exact ⟨hup, hdown⟩
    | cons data rest =>
      obtain ⟨packet, hdec, hdown'⟩ := hdown.decrypt hs hf
      have hcall : (clientSerializer client server).deserialize d.client data =
          (.ok packet, (d.client.xorDecrypt data).2) := by
        simp only [clientSerializer, customCryptSerializer, CustomCryptEngine.decrypt,
          CustomCryptEngine.xorDecrypt, hdec]
      simp only [Duplex.step, hf, hcall]
      exact ⟨hup, hdown'⟩
  | serverDecrypt =>
    cases hf : d.toServer.flight with
    | nil =>
      simp only [Duplex.step, hf]
      exact ⟨hup, hdown⟩
    | cons data rest =>
      obtain ⟨packet, hdec, hup'⟩ := hup.decrypt hc hf
      have hcall : (serverSerializer client server).deserialize d.server data =
          (.ok packet, (d.server.xorDecrypt data).2) := by
        simp only [serverSerializer, customCryptSerializer, CustomCryptEngine.decrypt,
          CustomCryptEngine.xorDecrypt, hdec]
      simp only [Duplex.step, hf, hcall]
      exact ⟨hup', hdown⟩

end Duplex

/-- **The two ends stay in step.** After any interleaving of encryptions and
deliveries, every decryption has returned the packet that was encrypted, in
order and none missing but those under way; a receive position counts the bytes
delivered, and the send position opposite is ahead of it by the bytes under
way. On either engine calls of the two directions commute, and only the order
within each direction matters for what the calls return. -/
theorem full_duplex (client : Bitcode t (CustomCryptClientPacket t))
    (server : Bitcode t (CustomCryptServerPacket t)) (hc : client.Undoes) (hs : server.Undoes)
    (as : List (Duplex.Act t)) :
    let d := run (Duplex.step client server) Duplex.new as
    (d.toServer.received = (d.toServer.sent.take d.toServer.received.length).map .ok ∧
      d.toServer.received.length + d.toServer.flight.length = d.toServer.sent.length ∧
      d.server.keyPair.receive.toNat =
        size client (d.toServer.sent.take d.toServer.received.length) % 256 ∧
      d.client.keyPair.send =
        d.server.keyPair.receive + UInt8.ofNat (d.toServer.flight.map List.length).sum) ∧
    (d.toClient.received = (d.toClient.sent.take d.toClient.received.length).map .ok ∧
      d.toClient.received.length + d.toClient.flight.length = d.toClient.sent.length ∧
      d.client.keyPair.receive.toNat =
        size server (d.toClient.sent.take d.toClient.received.length) % 256 ∧
      d.server.keyPair.send =
        d.client.keyPair.receive + UInt8.ofNat (d.toClient.flight.map List.length).sum) ∧
    ((clientSerializer client server).Commutes ∧
      ∀ engine calls calls',
        calls.filterMap CodecCall.packet? = calls'.filterMap CodecCall.packet? →
        calls.filterMap CodecCall.data? = calls'.filterMap CodecCall.data? →
        (clientSerializer client server).encoded engine calls =
          (clientSerializer client server).encoded engine calls' ∧
        (clientSerializer client server).decoded engine calls =
          (clientSerializer client server).decoded engine calls' ∧
        (clientSerializer client server).after engine calls =
          (clientSerializer client server).after engine calls') ∧
    ((serverSerializer client server).Commutes ∧
      ∀ engine calls calls',
        calls.filterMap CodecCall.packet? = calls'.filterMap CodecCall.packet? →
        calls.filterMap CodecCall.data? = calls'.filterMap CodecCall.data? →
        (serverSerializer client server).encoded engine calls =
          (serverSerializer client server).encoded engine calls' ∧
        (serverSerializer client server).decoded engine calls =
          (serverSerializer client server).decoded engine calls' ∧
        (serverSerializer client server).after engine calls =
          (serverSerializer client server).after engine calls') := by
  intro d
  have hg : d.Good client server :=
    run_inv (I := Duplex.Good client server) (fun _ a h => Duplex.good_step hc hs h a) as
      ⟨inStep_new client, inStep_new server⟩
  refine ⟨hg.toServer.exact, hg.toClient.exact, ⟨commutes server client, ?_⟩, commutes client server, ?_⟩
  · exact fun engine calls calls' hp hd => (commutes server client).same hp hd engine
  · exact fun engine calls calls' hp hd => (commutes client server).same hp hd engine

/-! ### A codec for texts -/

/-- The bytes of a text. -/
def textBytes (text : Text t) : Bytes t :=
  ⟨text.1.toByteArray.data.toList, by
    have hle : text.1.toByteArray.data.size ≤ t.isizeMax := text.2
    have hlt := t.isizeMax_lt
    rw [Array.length_toList]
    omega⟩

/-- The text with these bytes, if there is one. -/
def textOf (data : List UInt8) : Option (Text t) :=
  (String.fromUTF8? ⟨data.toArray⟩).bind fun s =>
    if h : s.utf8ByteSize ≤ t.isizeMax then some ⟨s, h⟩ else none

theorem textOf_textBytes (text : Text t) : textOf (textBytes text).1 = some text := by
  have hback : String.fromUTF8? ⟨text.1.toByteArray.data.toList.toArray⟩ = some text.1 := by
    simp only [Array.toArray_toList]
    exact dif_pos text.1.isValidUTF8
  simp only [textOf, textBytes, hback, Option.bind_some]
  exact dif_pos text.2

def clientText : Bitcode t (CustomCryptClientPacket t) where
  encode := fun (.string text) => textBytes text
  decode data := (textOf data).map .string

def serverText : Bitcode t (CustomCryptServerPacket t) where
  encode := fun (.string text) => textBytes text
  decode data := (textOf data).map .string

theorem clientText_undoes : (clientText : Bitcode t (CustomCryptClientPacket t)).Undoes := by
  rintro ⟨text⟩
  simp only [clientText, textOf_textBytes, Option.map_some]

theorem serverText_undoes : (serverText : Bitcode t (CustomCryptServerPacket t)).Undoes := by
  rintro ⟨text⟩
  simp only [serverText, textOf_textBytes, Option.map_some]

/-- The client's greeting is delivered while the server's is under way. -/
theorem full_duplex_greetings :
    let hello : CustomCryptClientPacket .bits64 := .string ⟨"Hello, Server!", by decide⟩
    let d := run (Duplex.step clientText serverText) Duplex.new
      [.clientEncrypt hello, .serverEncrypt (.string ⟨"Hello, Client!", by decide⟩), .serverDecrypt]
    d.toServer.received.length = 1 ∧
      d.toServer.received = (d.toServer.sent.take d.toServer.received.length).map .ok ∧
      d.server.keyPair.receive.toNat = size clientText (d.toServer.sent.take 1) % 256 := by
  intro hello d
  have h := full_duplex clientText serverText clientText_undoes serverText_undoes
    [.clientEncrypt hello, .serverEncrypt (.string ⟨"Hello, Client!", by decide⟩), .serverDecrypt]
  exact ⟨rfl, h.1.1, h.1.2.2.1⟩

end CustomCrypt
end Slinet
