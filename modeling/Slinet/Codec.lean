/-
# The calls of a connection's codec

A codec may have state, and the two tasks of a connection share it
(`src/serializers/serializer.rs`): the writer encodes, the reader decodes, and
the adapter's lock puts their calls in some order. What two ends of a
connection rely on is said of such histories: if each end decodes, in order and
from the first on, what the other has encoded, then decoding gives back the
packets (`InOrder`). What is encoded after a failed call is not asked about,
for the writer stops there.
-/
import Slinet.Packet

namespace Slinet

/-- A call of the codec, for packets `S` that it encodes. -/
inductive CodecCall (S : Type*)
  | serialize (packet : S)
  | deserialize (data : List UInt8)

/-- What was to be decoded, in order. -/
def CodecCall.data? {S : Type*} : CodecCall S → Option (List UInt8)
  | serialize _ => none
  | deserialize data => some data

/-- What was to be encoded, in order. -/
def CodecCall.packet? {S : Type*} : CodecCall S → Option S
  | serialize packet => some packet
  | deserialize _ => none

namespace Serializer

variable {t : Target} {σ R S EncErr DecErr : Type*}

/-- The state after a call. -/
def call (c : Serializer t σ R S EncErr DecErr) (st : σ) : CodecCall S → σ
  | .serialize packet => (c.serialize st packet).2
  | .deserialize data => (c.deserialize st data).2

def after (c : Serializer t σ R S EncErr DecErr) (st : σ) (calls : List (CodecCall S)) : σ :=
  calls.foldl c.call st

/-- The packets encoded before the first failure, with their payloads. -/
def encoded (c : Serializer t σ R S EncErr DecErr) : σ → List (CodecCall S) → List (S × List UInt8)
  | _, [] => []
  | st, .serialize packet :: calls =>
    match c.serialize st packet with
    | (.ok payload, st') => (packet, payload.1) :: c.encoded st' calls
    | (.error _, _) => []
  | st, .deserialize data :: calls => c.encoded (c.deserialize st data).2 calls

/-- No call has failed to encode. -/
def Encodes (c : Serializer t σ R S EncErr DecErr) : σ → List (CodecCall S) → Prop
  | _, [] => True
  | st, .serialize packet :: calls =>
    (∃ payload, (c.serialize st packet).1 = .ok payload) ∧ c.Encodes (c.serialize st packet).2 calls
  | st, .deserialize data :: calls => c.Encodes (c.deserialize st data).2 calls

/-- The results of decoding, in order. -/
def decoded (c : Serializer t σ R S EncErr DecErr) : σ → List (CodecCall S) → List (Except DecErr R)
  | _, [] => []
  | st, .serialize packet :: calls => c.decoded (c.serialize st packet).2 calls
  | st, .deserialize data :: calls =>
    (c.deserialize st data).1 :: c.decoded (c.deserialize st data).2 calls

variable (c : Serializer t σ R S EncErr DecErr)

theorem after_concat (st : σ) (calls : List (CodecCall S)) (x : CodecCall S) :
    c.after st (calls ++ [x]) = c.call (c.after st calls) x := by
  simp [after, List.foldl_append]

theorem decoded_append (st : σ) (calls later : List (CodecCall S)) :
    c.decoded st (calls ++ later) = c.decoded st calls ++ c.decoded (c.after st calls) later := by
  induction calls generalizing st with
  | nil => rfl
  | cons x calls ih => cases x <;> simp [decoded, ih, after, call]

theorem encodes_append (st : σ) (calls later : List (CodecCall S)) :
    c.Encodes st (calls ++ later) ↔ c.Encodes st calls ∧ c.Encodes (c.after st calls) later := by
  induction calls generalizing st with
  | nil => simp [Encodes, after]
  | cons x calls ih => cases x <;> simp [Encodes, ih, after, call, and_assoc]

/-- While no call fails, what is encoded next comes behind the rest. -/
theorem encoded_append {st : σ} {calls : List (CodecCall S)} (h : c.Encodes st calls)
    (later : List (CodecCall S)) :
    c.encoded st (calls ++ later) = c.encoded st calls ++ c.encoded (c.after st calls) later := by
  induction calls generalizing st with
  | nil => rfl
  | cons x calls ih =>
    cases x with
    | serialize packet =>
      obtain ⟨⟨payload, hp⟩, hrest⟩ := h
      have hpair : c.serialize st packet = (.ok payload, (c.serialize st packet).2) := Prod.ext hp rfl
      rw [List.cons_append, encoded, hpair, encoded, hpair]
      simp only [List.cons_append, ih hrest]
      rfl
    | deserialize data =>
      rw [List.cons_append, encoded, encoded, ih h]
      rfl

/-- A later call takes nothing back. -/
theorem encoded_isPrefix (st : σ) (calls later : List (CodecCall S)) :
    c.encoded st calls <+: c.encoded st (calls ++ later) := by
  induction calls generalizing st with
  | nil => exact List.nil_prefix
  | cons x calls ih =>
    cases x with
    | serialize packet =>
      rw [List.cons_append, encoded, encoded]
      split
      · exact List.prefix_cons_inj _ |>.mpr (ih _)
      · exact List.prefix_rfl
    | deserialize data => exact ih _

/-- An encoding and a decoding can change places. -/
structure Commutes (c : Serializer t σ R S EncErr DecErr) : Prop where
  encode : ∀ st packet data, (c.serialize (c.deserialize st data).2 packet).1 = (c.serialize st packet).1
  decode : ∀ st packet data, (c.deserialize (c.serialize st packet).2 data).1 = (c.deserialize st data).1
  state : ∀ st packet data,
    (c.serialize (c.deserialize st data).2 packet).2 = (c.deserialize (c.serialize st packet).2 data).2

section Commutes

variable {c}

/-- A decoding in front does not show in what is encoded. -/
theorem Commutes.encoded_deserialize (h : c.Commutes) (data : List UInt8) :
    ∀ (packets : List S) (st : σ),
      c.encoded (c.deserialize st data).2 (packets.map .serialize) = c.encoded st (packets.map .serialize)
  | [], _ => rfl
  | packet :: packets, st => by
    have ih := h.encoded_deserialize data packets (c.serialize st packet).2
    have hcall : c.serialize (c.deserialize st data).2 packet =
        ((c.serialize st packet).1, (c.deserialize (c.serialize st packet).2 data).2) :=
      Prod.ext (h.encode st packet data) (h.state st packet data)
    cases hs : c.serialize st packet with
    | mk result st' =>
      rw [hs] at hcall ih
      cases result with
      | ok payload => simp only [List.map_cons, encoded, hcall, hs, ih]
      | error err => simp only [List.map_cons, encoded, hcall, hs]

theorem Commutes.after_deserialize (h : c.Commutes) (data : List UInt8) :
    ∀ (packets : List S) (st : σ),
      c.after (c.deserialize st data).2 (packets.map .serialize) =
        (c.deserialize (c.after st (packets.map .serialize)) data).2
  | [], _ => rfl
  | packet :: packets, st => by
    have ih := h.after_deserialize data packets (c.serialize st packet).2
    have hstate := h.state st packet data
    simp only [after, List.map_cons, List.foldl_cons, call] at ih ⊢
    rw [hstate, ih]

/-- An encoding in front does not show in what is decoded. -/
theorem Commutes.decoded_serialize (h : c.Commutes) (packet : S) :
    ∀ (inputs : List (List UInt8)) (st : σ),
      c.decoded (c.serialize st packet).2 (inputs.map .deserialize) =
        c.decoded st (inputs.map .deserialize)
  | [], _ => rfl
  | data :: inputs, st => by
    have ih := h.decoded_serialize packet inputs (c.deserialize st data).2
    simp only [List.map_cons, decoded]
    rw [h.decode st packet data, ← h.state st packet data, ih]

/-- **The order of the two tasks does not matter.** What is encoded, what is
decoded and the state in the end are those of all encodings followed by all
decodings. -/
theorem Commutes.sorted (h : c.Commutes) : ∀ (calls : List (CodecCall S)) (st : σ),
    c.encoded st calls = c.encoded st ((calls.filterMap CodecCall.packet?).map .serialize) ∧
    c.decoded st calls = c.decoded st ((calls.filterMap CodecCall.data?).map .deserialize) ∧
    c.after st calls = c.after (c.after st ((calls.filterMap CodecCall.packet?).map .serialize))
      ((calls.filterMap CodecCall.data?).map .deserialize)
  | [], _ => ⟨rfl, rfl, rfl⟩
  | .serialize packet :: calls, st => by
    obtain ⟨henc, hdec, hafter⟩ := h.sorted calls (c.serialize st packet).2
    refine ⟨?_, ?_, hafter⟩
    · cases hs : c.serialize st packet with
      | mk result st' =>
        rw [hs] at henc
        cases result with
        | ok payload => simpa only [List.filterMap_cons, CodecCall.packet?, List.map_cons, encoded, hs,
            List.cons.injEq, true_and] using henc
        | error err => simp only [List.filterMap_cons, CodecCall.packet?, List.map_cons, encoded, hs]
    · simp only [List.filterMap_cons, CodecCall.data?, decoded]
      rw [hdec, h.decoded_serialize packet]
  | .deserialize data :: calls, st => by
    obtain ⟨henc, hdec, hafter⟩ := h.sorted calls (c.deserialize st data).2
    refine ⟨?_, ?_, ?_⟩
    · simp only [List.filterMap_cons, CodecCall.packet?, encoded]
      rw [henc, h.encoded_deserialize data]
    · simpa only [List.filterMap_cons, CodecCall.data?, List.map_cons, decoded, List.cons.injEq,
        true_and] using hdec
    · have hfirst : c.after st (.deserialize data :: calls) = c.after (c.deserialize st data).2 calls := rfl
      rw [hfirst, hafter, h.after_deserialize data]
      rfl

/-- Two histories with the same encodings and the same decodings agree. -/
theorem Commutes.same (h : c.Commutes) {calls calls' : List (CodecCall S)}
    (hp : calls.filterMap CodecCall.packet? = calls'.filterMap CodecCall.packet?)
    (hd : calls.filterMap CodecCall.data? = calls'.filterMap CodecCall.data?) (st : σ) :
    c.encoded st calls = c.encoded st calls' ∧ c.decoded st calls = c.decoded st calls' ∧
      c.after st calls = c.after st calls' := by
  obtain ⟨henc, hdec, hafter⟩ := h.sorted calls st
  obtain ⟨henc', hdec', hafter'⟩ := h.sorted calls' st
  rw [henc, henc', hdec, hdec', hafter, hafter', hp, hd]
  exact ⟨rfl, rfl, rfl⟩

end Commutes

end Serializer

/-- The codec `b` undoes the codec `a`, in order, whatever the two ends do
meanwhile. -/
def InOrder {t t' : Target} {σ τ P S EncErr DecErr EncErr' DecErr' : Type*}
    (a : Serializer t σ S P EncErr DecErr) (a₀ : σ) (b : Serializer t' τ P S EncErr' DecErr') (b₀ : τ) :
    Prop :=
  ∀ (callsA : List (CodecCall P)) (callsB : List (CodecCall S)),
    callsA.filterMap CodecCall.data? <+: (b.encoded b₀ callsB).map Prod.snd →
    callsB.filterMap CodecCall.data? <+: (a.encoded a₀ callsA).map Prod.snd →
    b.decoded b₀ callsB =
      (((a.encoded a₀ callsA).map Prod.fst).take (callsB.filterMap CodecCall.data?).length).map .ok

/-! ### Codecs with a state for each direction -/

section Split

variable {t t' : Target} {α β α' β' P S EncErr DecErr EncErr' DecErr' : Type*}

/-- A codec whose encoding and decoding have a state each. A codec without
state is the case of two trivial ones. -/
def Serializer.split (encode : α → S → Except EncErr (Bytes t) × α)
    (decode : β → List UInt8 → Except DecErr P × β) : Serializer t (α × β) P S EncErr DecErr where
  serialize st packet := ((encode st.1 packet).1, (encode st.1 packet).2, st.2)
  deserialize st data := ((decode st.2 data).1, st.1, (decode st.2 data).2)

/-- The results of decoding in a row. -/
def decodeAll (decode : β → List UInt8 → Except DecErr P × β) :
    β → List (List UInt8) → List (Except DecErr P)
  | _, [] => []
  | y, data :: later => (decode y data).1 :: decodeAll decode (decode y data).2 later

theorem decoded_split (encode : α → S → Except EncErr (Bytes t) × α)
    (decode : β → List UInt8 → Except DecErr P × β) (st : α × β) (calls : List (CodecCall S)) :
    (Serializer.split encode decode).decoded st calls =
      decodeAll decode st.2 (calls.filterMap CodecCall.data?) := by
  induction calls generalizing st with
  | nil => rfl
  | cons x calls ih =>
    cases x with
    | serialize packet => exact ih _
    | deserialize data => exact congrArg _ (ih _)

variable {encode : α → P → Except EncErr (Bytes t) × α} {decode : β → List UInt8 → Except DecErr S × β}
  {encode' : α' → S → Except EncErr' (Bytes t') × α'} {decode' : β' → List UInt8 → Except DecErr' P × β'}

/-- Decoding follows the encoding, one payload at a time. -/
theorem decodeAll_encoded {Related : α → β' → Prop}
    (hstep : ∀ x y packet payload x', Related x y → encode x packet = (.ok payload, x') →
      ∃ y', decode' y payload.1 = (.ok packet, y') ∧ Related x' y')
    (calls : List (CodecCall P)) : ∀ (st : α × β) (y : β') (inputs : List (List UInt8)),
      Related st.1 y →
      inputs <+: ((Serializer.split encode decode).encoded st calls).map Prod.snd →
      decodeAll decode' y inputs =
        ((((Serializer.split encode decode).encoded st calls).map Prod.fst).take inputs.length).map .ok := by
  induction calls with
  | nil =>
    intro st y inputs _ hin
    rw [List.prefix_nil.mp hin]
    rfl
  | cons x calls ih =>
    intro st y inputs hrel hin
    cases x with
    | deserialize data => exact ih _ y inputs hrel hin
    | serialize packet =>
      cases he : encode st.1 packet with
      | mk result x' =>
        cases result with
        | error err =>
          have hnil : (Serializer.split encode decode).encoded st (.serialize packet :: calls) = [] := by
            simp [Serializer.encoded, Serializer.split, he]
          rw [hnil] at hin ⊢
          rw [List.prefix_nil.mp hin]
          rfl
        | ok payload =>
          have hcons : (Serializer.split encode decode).encoded st (.serialize packet :: calls) =
              (packet, payload.1) :: (Serializer.split encode decode).encoded (x', st.2) calls := by
            simp [Serializer.encoded, Serializer.split, he]
          rw [hcons] at hin ⊢
          obtain ⟨y', hdec, hrel'⟩ := hstep st.1 y packet payload x' hrel he
          cases inputs with
          | nil => rfl
          | cons data later =>
            obtain ⟨rfl, hlater⟩ := List.cons_prefix_cons.mp hin
            simp only [decodeAll, hdec, List.map_cons, List.length_cons, List.take_succ_cons]
            rw [ih (x', st.2) y' later hrel' hlater]

/-- **Codecs in order.** It is enough that the decoding state follows the
encoding one. -/
theorem inOrder_split {Related : α → β' → Prop}
    (hstep : ∀ x y packet payload x', Related x y → encode x packet = (.ok payload, x') →
      ∃ y', decode' y payload.1 = (.ok packet, y') ∧ Related x' y')
    {a₀ : α × β} {b₀ : α' × β'} (h₀ : Related a₀.1 b₀.2) :
    InOrder (Serializer.split encode decode) a₀ (Serializer.split encode' decode') b₀ := by
  intro callsA callsB _ hin
  rw [decoded_split]
  exact decodeAll_encoded hstep callsA a₀ b₀.2 _ h₀ hin

end Split
end Slinet
