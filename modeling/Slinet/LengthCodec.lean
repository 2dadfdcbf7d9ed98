/-
# Packet-length prefixes

`src/serializers/packet_length_serializer.rs`: a length codec encodes the
payload length in front of a packet on a stream. The ten built-in codecs are
one macro over five widths and two byte orders (`builtIn`); applications may
supply their own, and a codec may ask for more bytes than its initial width.

`Exact` is what a reader needs of a codec: shown growing prefixes of an
encoded length it asks for exactly the rest of that encoding and then returns
the length. Every built-in codec is exact (`builtIn_exact`), and its two
functions are inverse to each other on all of its format (`builtIn_inverse`).
-/
import Mathlib.Tactic
import Slinet.ByteOrder

namespace Slinet

open ByteOrder

/-- The width of `usize` on the machine the crate is built for. -/
inductive Target
  | bits32
  | bits64
  deriving DecidableEq, Repr

/-- The number of `usize` values. -/
def Target.usize : Target → ℕ
  | .bits32 => 2 ^ 32
  | .bits64 => 2 ^ 64

theorem Target.sixteen_lt_usize (t : Target) : 16 < t.usize := by
  cases t <;> simp [Target.usize]

/-- `isize::MAX`: no allocation is larger, and no `Arc` counts beyond it. -/
def Target.isizeMax (t : Target) : ℕ := t.usize / 2 - 1

theorem Target.isizeMax_lt (t : Target) : t.isizeMax + 2 < t.usize := by
  cases t <;> simp [Target.isizeMax, Target.usize]

/-- A `Vec<u8>`: its length is a `usize`. -/
abbrev Bytes (t : Target) := { b : List UInt8 // b.length < t.usize }

/-- An incomplete prefix, or one the codec cannot decode. -/
inductive PacketLengthDeserializationError (E : Type*)
  | needMoreBytes (additional : ℕ)
  | err (error : E)
  deriving DecidableEq, Repr

/-- A length codec; `size` is the initial width of a prefix. -/
structure PacketLengthSerializer (t : Target) (E : Type*) where
  size : ℕ
  serializePacketLength : ℕ → Except E (Bytes t)
  deserializePacketLength : List UInt8 → Except (PacketLengthDeserializationError E) ℕ

/-- A payload length beyond the selected integer. -/
structure PacketTooLargeError where
  maxLength : ℕ
  length : ℕ
  deriving DecidableEq, Repr

instance : ToString PacketTooLargeError where
  toString e := "The packet is too large (length: " ++ toString e.length ++ ", max_length: " ++
    toString e.maxLength ++ ")"

/-- The integer types of the built-in codecs. -/
inductive Number
  | u8
  | u16
  | u32
  | u64
  | u128
  deriving DecidableEq, Repr

/-- `<$number>::BITS as usize / 8`. -/
def Number.size : Number → ℕ
  | .u8 => 1
  | .u16 => 2
  | .u32 => 4
  | .u64 => 8
  | .u128 => 16

theorem Number.size_pos (n : Number) : 0 < n.size := by cases n <;> decide

theorem Number.size_le (n : Number) : n.size ≤ 16 := by cases n <;> decide

inductive Endian
  | little
  | big
  deriving DecidableEq, Repr

def Endian.toBytes : Endian → ℕ → ℕ → List UInt8
  | .little => toLe
  | .big => toBe

def Endian.fromBytes : Endian → List UInt8 → ℕ
  | .little => fromLe
  | .big => fromBe

@[simp] theorem Endian.length_toBytes (e : Endian) (size n : ℕ) : (e.toBytes size n).length = size := by
  cases e <;> simp [Endian.toBytes]

theorem Endian.fromBytes_toBytes (e : Endian) {size n : ℕ} (h : n < 256 ^ size) :
    e.fromBytes (e.toBytes size n) = n := by
  cases e
  · exact fromLe_toLe size h
  · exact fromBe_toBe h

theorem Endian.fromBytes_lt (e : Endian) (bs : List UInt8) : e.fromBytes bs < 256 ^ bs.length := by
  cases e
  · exact fromLe_lt bs
  · exact fromBe_lt bs

theorem Endian.toBytes_fromBytes (e : Endian) (bs : List UInt8) :
    e.toBytes bs.length (e.fromBytes bs) = bs := by
  cases e
  · exact toLe_fromLe bs
  · exact toBe_fromBe bs

/-- The body of `impl_pls`. -/
def builtIn (t : Target) (endian : Endian) (number : Number) :
    PacketLengthSerializer t PacketTooLargeError where
  size := number.size
  serializePacketLength length :=
    if length < 256 ^ number.size then
      .ok ⟨endian.toBytes number.size length, by
        rw [Endian.length_toBytes]
        exact lt_of_le_of_lt number.size_le t.sixteen_lt_usize⟩
    else .error ⟨min (256 ^ number.size - 1) (t.usize - 1), length⟩
  deserializePacketLength buffer :=
    if buffer.length < number.size then .error (.needMoreBytes (number.size - buffer.length))
    else if endian.fromBytes (buffer.take number.size) < t.usize then
      .ok (endian.fromBytes (buffer.take number.size))
    else .error (.err ⟨t.usize - 1, t.usize - 1⟩)

/-- The chain of requests on an encoded length `pre`, from its first `k`
bytes: the codec asks for more until it has seen all of `pre`, and then
returns `n`. -/
inductive Reads {t : Target} {E : Type*} (ls : PacketLengthSerializer t E) (pre : List UInt8) (n : ℕ) :
    ℕ → Prop
  | done : ls.deserializePacketLength pre = .ok n → Reads ls pre n pre.length
  | more (k additional : ℕ) : k < pre.length →
    ls.deserializePacketLength (pre.take k) = .error (.needMoreBytes additional) →
    Reads ls pre n (k + additional) → Reads ls pre n k

theorem Reads.le_length {t : Target} {E : Type*} {ls : PacketLengthSerializer t E} {pre : List UInt8}
    {n k : ℕ} (h : Reads ls pre n k) : k ≤ pre.length := by
  cases h with
  | done => exact le_rfl
  | more _ _ hk => exact hk.le

/-- Read on growing prefixes of an encoded length, the codec requests exactly
up to the end of it and returns the length. -/
def PacketLengthSerializer.Exact {t : Target} {E : Type*} (ls : PacketLengthSerializer t E) : Prop :=
  ∀ n < t.usize, ∀ pre, ls.serializePacketLength n = .ok pre → Reads ls pre.1 n ls.size

/-- What `serialize_packet_length` gives back when it succeeds. -/
theorem builtIn_serialize {t : Target} {endian : Endian} {number : Number} {n : ℕ} {pre : Bytes t}
    (h : (builtIn t endian number).serializePacketLength n = .ok pre) :
    n < 256 ^ number.size ∧ pre.1 = endian.toBytes number.size n := by
  simp only [builtIn] at h
  split at h
  · rename_i hn
    cases h
    exact ⟨hn, rfl⟩
  · cases h

/-- A length that fits is encoded. -/
theorem builtIn_serialize_of_lt (t : Target) (endian : Endian) {number : Number} {n : ℕ}
    (h : n < 256 ^ number.size) :
    ∃ pre, (builtIn t endian number).serializePacketLength n = .ok pre ∧
      pre.1 = endian.toBytes number.size n := by
  simp only [builtIn, if_pos h]
  exact ⟨_, rfl, rfl⟩

/-- On a whole prefix, and whatever follows it, the codec reads the number and
asks for nothing. -/
theorem builtIn_deserialize_of_le (t : Target) (endian : Endian) {number : Number}
    {buffer : List UInt8} (h : number.size ≤ buffer.length) :
    (builtIn t endian number).deserializePacketLength buffer =
      if endian.fromBytes (buffer.take number.size) < t.usize then
        .ok (endian.fromBytes (buffer.take number.size))
      else .error (.err ⟨t.usize - 1, t.usize - 1⟩) := by
  simp only [builtIn, if_neg (Nat.not_lt.mpr h)]

theorem builtIn_deserialize {t : Target} {endian : Endian} {number : Number} {n : ℕ} {pre : Bytes t}
    (hn : n < t.usize) (h : (builtIn t endian number).serializePacketLength n = .ok pre) :
    pre.1.length = number.size ∧
      ∀ rest, (builtIn t endian number).deserializePacketLength (pre.1 ++ rest) = .ok n := by
  obtain ⟨hfit, hpre⟩ := builtIn_serialize h
  have hlen : pre.1.length = number.size := by rw [hpre, Endian.length_toBytes]
  refine ⟨hlen, fun rest => ?_⟩
  have hle : number.size ≤ (pre.1 ++ rest).length := by
    rw [List.length_append, hlen]
    exact Nat.le_add_right _ _
  have htake : (pre.1 ++ rest).take number.size = pre.1 := List.take_left' hlen
  rw [builtIn_deserialize_of_le t endian hle, htake, hpre, Endian.fromBytes_toBytes endian hfit,
    if_pos hn]

/-- Every built-in codec is exact: it never asks for more. -/
theorem builtIn_exact (t : Target) (endian : Endian) (number : Number) :
    (builtIn t endian number).Exact := by
  intro n hn pre h
  obtain ⟨hlen, hdec⟩ := builtIn_deserialize hn h
  have hsize : (builtIn t endian number).size = pre.1.length := hlen.symm
  have hself : (builtIn t endian number).deserializePacketLength pre.1 = .ok n := by
    have := hdec []
    rwa [List.append_nil] at this
  rw [hsize]
  exact .done hself

/-- What a built-in codec reads is what it writes for that length. -/
theorem builtIn_serialize_read (t : Target) (endian : Endian) {number : Number}
    {buffer : List UInt8} (h : number.size ≤ buffer.length) :
    ∃ pre, (builtIn t endian number).serializePacketLength
        (endian.fromBytes (buffer.take number.size)) = .ok pre ∧
      pre.1 = buffer.take number.size := by
  have hlen : (buffer.take number.size).length = number.size := List.length_take_of_le h
  have hfit := endian.fromBytes_lt (buffer.take number.size)
  have hback := endian.toBytes_fromBytes (buffer.take number.size)
  rw [hlen] at hfit hback
  obtain ⟨pre, hser, hpre⟩ := builtIn_serialize_of_lt t endian hfit
  exact ⟨pre, hser, hpre.trans hback⟩

theorem builtIn_deserialize_eq_ok (t : Target) (endian : Endian) {number : Number}
    {buffer : List UInt8} (h : number.size ≤ buffer.length) (v : ℕ) :
    (builtIn t endian number).deserializePacketLength buffer = .ok v ↔
      endian.fromBytes (buffer.take number.size) < t.usize ∧
        v = endian.fromBytes (buffer.take number.size) := by
  rw [builtIn_deserialize_of_le t endian h]
  by_cases hfit : endian.fromBytes (buffer.take number.size) < t.usize
  · simp [hfit, eq_comm]
  · simp [hfit]

/-- Shown less than a prefix, the codec asks for the rest of it, and then for
nothing more. -/
theorem builtIn_needMoreBytes (t : Target) (endian : Endian) {number : Number}
    {buffer : List UInt8} (h : buffer.length < number.size) :
    ∃ m, (builtIn t endian number).deserializePacketLength buffer = .error (.needMoreBytes m) ∧
      ∀ more : List UInt8, more.length = m → (buffer ++ more).length = number.size ∧
        ∀ k, (builtIn t endian number).deserializePacketLength (buffer ++ more) ≠
          .error (.needMoreBytes k) := by
  refine ⟨number.size - buffer.length, ?_, fun more hmore => ?_⟩
  · simp only [builtIn, if_pos h]
  have hlen : (buffer ++ more).length = number.size := by
    rw [List.length_append, hmore]
    exact Nat.add_sub_cancel' h.le
  refine ⟨hlen, fun k => ?_⟩
  rw [builtIn_deserialize_of_le t endian hlen.ge]
  split
  · simp
  · simp

/-- **The built-in codecs are exact inverses.** A length is encoded when it fits
the number, in `SIZE` bytes, from which it is read whatever follows them. From
`SIZE` bytes or more the number in the first `SIZE` is read, when it is a
`usize`, and encoding it gives these bytes back; else the prefix is rejected.
Shown less, the codec asks for the bytes that are missing, and having them it
asks for nothing. -/
theorem builtIn_inverse (t : Target) (endian : Endian) (number : Number) :
    let ls := builtIn t endian number
    (∀ n < t.usize,
      ((∃ pre, ls.serializePacketLength n = .ok pre) ↔ n < 256 ^ number.size) ∧
      ∀ pre, ls.serializePacketLength n = .ok pre → pre.1.length = ls.size ∧
        ∀ rest, ls.deserializePacketLength (pre.1 ++ rest) = .ok n) ∧
    (∀ buffer : List UInt8, ls.size ≤ buffer.length →
      let encoded := endian.fromBytes (buffer.take ls.size)
      (∀ v, ls.deserializePacketLength buffer = .ok v ↔ encoded < t.usize ∧ v = encoded) ∧
      (∀ v, ls.deserializePacketLength buffer = .ok v →
        ∃ pre, ls.serializePacketLength v = .ok pre ∧ pre.1 = buffer.take ls.size) ∧
      (t.usize ≤ encoded → ∃ err, ls.deserializePacketLength buffer = .error (.err err))) ∧
    ∀ buffer : List UInt8, buffer.length < ls.size →
      ∃ m, ls.deserializePacketLength buffer = .error (.needMoreBytes m) ∧
        ∀ more : List UInt8, more.length = m → (buffer ++ more).length = ls.size ∧
          ∀ k, ls.deserializePacketLength (buffer ++ more) ≠ .error (.needMoreBytes k) := by
  intro ls
  refine ⟨fun n hn => ⟨⟨?_, ?_⟩, ?_⟩, fun buffer hb => ⟨?_, ?_, ?_⟩, fun buffer hb => ?_⟩
  · rintro ⟨pre, h⟩
    exact (builtIn_serialize h).1
  · intro hfit
    obtain ⟨pre, h, -⟩ := builtIn_serialize_of_lt t endian hfit
    exact ⟨pre, h⟩
  · intro pre h
    exact builtIn_deserialize hn h
  · exact builtIn_deserialize_eq_ok t endian hb
  · intro v hv
    obtain ⟨-, rfl⟩ := (builtIn_deserialize_eq_ok t endian hb v).mp hv
    exact builtIn_serialize_read t endian hb
  · intro hbig
    have hread := builtIn_deserialize_of_le t endian hb
    exact ⟨_, hread.trans (if_neg (Nat.not_lt.mpr hbig))⟩
  · exact builtIn_needMoreBytes t endian hb

/-- A codec wider than `usize`: a length in eight bytes, the first number that
is no `usize`, and a prefix of two bytes. -/
theorem builtIn_inverse_wide :
    let ls := builtIn .bits32 .big .u64
    (∀ rest, ls.deserializePacketLength ([0, 0, 0, 0, 0, 0, 1, 2] ++ rest) = .ok 258) ∧
    (∃ err, ls.deserializePacketLength [0, 0, 0, 1, 0, 0, 0, 0] = .error (.err err)) ∧
    ∀ more : List UInt8, more.length = 6 →
      ∀ k, ls.deserializePacketLength ([0, 0] ++ more) ≠ .error (.needMoreBytes k) := by
  intro ls
  obtain ⟨hwrite, hread, hask⟩ := builtIn_inverse .bits32 .big .u64
  have h258 : ls.serializePacketLength 258 = .ok ⟨[0, 0, 0, 0, 0, 0, 1, 2], by decide⟩ := by
    decide +kernel
  refine ⟨((hwrite 258 (by decide)).2 _ h258).2, ?_, ?_⟩
  · exact (hread [0, 0, 0, 1, 0, 0, 0, 0] (by decide)).2.2 (by decide)
  · obtain ⟨m, hm, hmore⟩ := hask [0, 0] (by decide)
    obtain rfl : 6 = m := by cases hm; rfl
    exact fun more hlen => (hmore more hlen).2

end Slinet
