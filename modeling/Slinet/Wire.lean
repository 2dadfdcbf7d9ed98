/-
# Frames on a byte stream

One direction of a stream connection, between the `write_all` of
`FramedWriter::send` and the `read_exact`s of `FramedReader::receive`
(`src/protocols/framing.rs`, `Slinet.Framing`): the bytes of the buffer that
are not written yet, those in the channel, and where the reader waits. Bytes
move in pieces of any length.

`Wire.Carries` says what is between the two ends: behind what the reader holds
of the present frame come the rest of it and the frames written after it.
So the payloads of a reader that has not failed are the first of those framed,
in order and unchanged (`carries_parse`).
-/
import Slinet.Framing

namespace Slinet

open Framing

/-- The payload, once it is complete. -/
def Framing.Reading.body? : Reading → Option (List UInt8)
  | .length _ _ => none
  | .payload got _ => some got

/-- One direction; `payloads` are those the reader has had whole. -/
structure Wire where
  unwritten : List UInt8
  inFlight : List UInt8
  reading : Reading
  payloads : List (List UInt8)
  deriving DecidableEq, Repr

namespace Wire

variable {t : Target} {σ R S EncErr DecErr L : Type*}

def new (ls : PacketLengthSerializer t L) : Wire := ⟨[], [], .start ls, []⟩

/-- `write_all` is called with a buffer. -/
def push (s : Wire) (buf : List UInt8) : Wire := { s with unwritten := buf }

/-- Some of the buffer is written. -/
def write (s : Wire) (k : ℕ) : Wire :=
  { s with unwritten := s.unwritten.drop k, inFlight := s.inFlight ++ s.unwritten.take k }

/-- Some of the bytes that the reader waits for arrive. -/
def feed (s : Wire) (k : ℕ) : Wire :=
  { s with
    reading := s.reading.feed (s.inFlight.take (min k s.reading.missing))
    inFlight := s.inFlight.drop (min k s.reading.missing) }

/-- `receive` goes on, when its `read_exact` is done: to its next wait, or to a
result and the codec's new state. -/
def parse (serializer : Serializer t σ R S EncErr DecErr) (ls : PacketLengthSerializer t L) (limit : ℕ)
    (st : σ) (s : Wire) : Option (Except (ReceiveError DecErr L) R) × σ × Wire :=
  if s.reading.missing ≠ 0 then (none, st, s)
  else
    match s.reading.next serializer ls limit st with
    | .inl reading => (none, st, { s with reading := reading })
    | .inr (result, st') =>
      (some result, st',
        { s with reading := .start ls, payloads := s.payloads ++ s.reading.body?.toList })

/-! ### What is on the way -/

/-- The buffer for a payload. -/
def framed (endian : Endian) (number : Number) (payload : List UInt8) : List UInt8 :=
  endian.toBytes number.size payload.length ++ payload

/-- Where the reader is in the frames `rest`, of which it has had none whole. -/
def Faces (endian : Endian) (number : Number) (s : Wire) (rest : List (List UInt8)) : Prop :=
  match s.reading with
  | .length got want =>
    want = number.size ∧ got.length ≤ want ∧
      got ++ s.inFlight ++ s.unwritten = rest.flatMap (framed endian number)
  | .payload got want =>
    ∃ payload later, rest = payload :: later ∧ want = payload.length ∧ got.length ≤ want ∧
      got ++ s.inFlight ++ s.unwritten = payload ++ later.flatMap (framed endian number)

/-- The payloads framed so far are `sent`, and the reader has not failed. -/
structure Carries (endian : Endian) (number : Number) (sent : List (List UInt8)) (s : Wire) : Prop where
  fits : ∀ payload ∈ sent, payload.length < 256 ^ number.size
  faces : ∃ rest, sent = s.payloads ++ rest ∧ s.Faces endian number rest

variable {endian : Endian} {number : Number} {sent : List (List UInt8)}

theorem carries_new (t : Target) (endian : Endian) (number : Number) :
    (new (builtIn t endian number)).Carries endian number [] :=
  ⟨fun _ h => (by cases h), [], rfl, rfl, Nat.zero_le _, rfl⟩

/-- A payload is framed when the last buffer is written. -/
theorem Carries.push {s : Wire} (h : s.Carries endian number sent) (hidle : s.unwritten = [])
    {payload : List UInt8} (hfit : payload.length < 256 ^ number.size) :
    (s.push (framed endian number payload)).Carries endian number (sent ++ [payload]) := by
  obtain ⟨rest, hsent, hfaces⟩ := h.faces
  refine ⟨fun p hp => ?_, rest ++ [payload], ?_, ?_⟩
  · rcases List.mem_append.mp hp with hp | hp
    · exact h.fits p hp
    · rw [List.mem_singleton.mp hp]
      exact hfit
  · rw [hsent, List.append_assoc]
    rfl
  · simp only [Faces, Wire.push] at hfaces ⊢
    rw [hidle] at hfaces
    split at hfaces
    · obtain ⟨hwant, hle, hbytes⟩ := hfaces
      refine ⟨hwant, hle, ?_⟩
      rw [List.append_nil] at hbytes
      simp [hbytes]
    · obtain ⟨first, later, rfl, hwant, hle, hbytes⟩ := hfaces
      refine ⟨first, later ++ [payload], rfl, hwant, hle, ?_⟩
      rw [List.append_nil] at hbytes
      simp [hbytes]

theorem Carries.write {s : Wire} (h : s.Carries endian number sent) (k : ℕ) :
    (s.write k).Carries endian number sent := by
  obtain ⟨rest, hsent, hfaces⟩ := h.faces
  refine ⟨h.fits, rest, hsent, ?_⟩
  have hbytes : s.inFlight ++ s.unwritten.take k ++ s.unwritten.drop k = s.inFlight ++ s.unwritten := by
    rw [List.append_assoc, List.take_append_drop]
  simp only [Faces, Wire.write] at hfaces ⊢
  split at hfaces
  · obtain ⟨hwant, hle, hb⟩ := hfaces
    refine ⟨hwant, hle, ?_⟩
    rw [List.append_assoc, hbytes, ← List.append_assoc]
    exact hb
  · obtain ⟨first, later, hrest, hwant, hle, hb⟩ := hfaces
    refine ⟨first, later, hrest, hwant, hle, ?_⟩
    rw [List.append_assoc, hbytes, ← List.append_assoc]
    exact hb

theorem Carries.feed {s : Wire} (h : s.Carries endian number sent) (k : ℕ) :
    (s.feed k).Carries endian number sent := by
  obtain ⟨rest, hsent, hfaces⟩ := h.faces
  refine ⟨h.fits, rest, hsent, ?_⟩
  have hbytes : ∀ (got : List UInt8) (n : ℕ), got ++ s.inFlight.take n ++ s.inFlight.drop n =
      got ++ s.inFlight := fun got n => by rw [List.append_assoc, List.take_append_drop]
  simp only [Faces, Wire.feed] at hfaces ⊢
  cases hr : s.reading with
  | length got want =>
    rw [hr] at hfaces
    obtain ⟨hwant, hle, hb⟩ := hfaces
    simp only [Reading.feed, Reading.missing]
    refine ⟨hwant, ?_, ?_⟩
    · simp only [List.length_append, List.length_take]
      omega
    · rw [hbytes]
      exact hb
  | payload got want =>
    rw [hr] at hfaces
    obtain ⟨first, later, hrest, hwant, hle, hb⟩ := hfaces
    simp only [Reading.feed, Reading.missing]
    refine ⟨first, later, hrest, hwant, ?_, ?_⟩
    · simp only [List.length_append, List.length_take]
      omega
    · rw [hbytes]
      exact hb

/-- The reader has the length of the next frame: it goes on to the payload, or
fails before it. -/
theorem Carries.next_length {s : Wire} (h : s.Carries endian number sent) {got : List UInt8} {want : ℕ}
    (hr : s.reading = .length got want) (hmiss : s.reading.missing = 0) (limit : ℕ)
    (serializer : Serializer t σ R S EncErr DecErr) (st : σ) :
    (∃ want', s.reading.next serializer (builtIn t endian number) limit st =
        .inl (.payload [] want') ∧
      Wire.Carries endian number sent { s with reading := .payload [] want' }) ∨
    ∃ error, s.reading.next serializer (builtIn t endian number) limit st = .inr (.error error, st) := by
  obtain ⟨rest, hsent, hfaces⟩ := h.faces
  simp only [Faces, hr] at hfaces
  obtain ⟨rfl, hle, hbytes⟩ := hfaces
  rw [hr] at hmiss
  have hlen : got.length = number.size := by
    simp only [Reading.missing] at hmiss
    omega
  cases rest with
  | nil =>
    have hnil : got = [] :=
      (List.append_eq_nil_iff.mp (List.append_eq_nil_iff.mp hbytes).1).1
    rw [hnil] at hlen
    exact absurd hlen.symm number.size_pos.ne'
  | cons payload later =>
    have hfit := h.fits payload (by simp [hsent])
    rw [List.flatMap_cons, framed, List.append_assoc, List.append_assoc] at hbytes
    obtain ⟨hgot, hrest⟩ := List.append_inj hbytes (by simp [hlen])
    have htake : got.take number.size = got := List.take_of_length_le hlen.le
    have hval : endian.fromBytes got = payload.length := by
      rw [hgot]
      exact Endian.fromBytes_toBytes endian hfit
    rw [hr]
    simp only [Reading.next, builtIn, hlen, lt_irrefl, if_false, htake, hval]
    by_cases husize : payload.length < t.usize
    · rw [if_pos husize]
      by_cases hlimit : payload.length > limit
      · exact Or.inr ⟨.packetTooBig, by simp [hlimit]⟩
      · refine Or.inl ⟨payload.length, by simp [hlimit], h.fits, payload :: later, hsent, ?_⟩
        exact ⟨payload, later, rfl, rfl, Nat.zero_le _, by simpa using hrest⟩
    · rw [if_neg husize]
      exact Or.inr ⟨_, rfl⟩

/-- The reader has the payload whole: it is the next of those framed. -/
theorem Carries.next_payload {s : Wire} (h : s.Carries endian number sent) {got : List UInt8} {want : ℕ}
    (hr : s.reading = .payload got want) (hmiss : s.reading.missing = 0) :
    s.payloads ++ [got] <+: sent ∧
      Wire.Carries endian number sent
        { s with reading := .start (builtIn t endian number), payloads := s.payloads ++ [got] } := by
  obtain ⟨rest, hsent, hfaces⟩ := h.faces
  simp only [Faces, hr] at hfaces
  obtain ⟨payload, later, rfl, rfl, hle, hbytes⟩ := hfaces
  rw [hr] at hmiss
  have hlen : got.length = payload.length := by
    simp only [Reading.missing] at hmiss
    omega
  rw [List.append_assoc] at hbytes
  obtain ⟨rfl, hrest⟩ := List.append_inj hbytes hlen
  refine ⟨⟨later, by rw [hsent, List.append_assoc]; rfl⟩, h.fits, later, ?_, ?_⟩
  · rw [hsent, List.append_assoc]
    rfl
  · exact ⟨rfl, Nat.zero_le _, by simpa using hrest⟩

/-- **A step of `receive`.** It waits on, hands the next of the framed payloads
to the codec, or fails without a payload. -/
theorem Carries.parse {s : Wire} (h : s.Carries endian number sent) (limit : ℕ)
    (serializer : Serializer t σ R S EncErr DecErr) (st : σ) :
    (∃ s', s.parse serializer (builtIn t endian number) limit st = (none, st, s') ∧
      s'.payloads = s.payloads ∧ s'.unwritten = s.unwritten ∧ s'.Carries endian number sent) ∨
    (∃ payload s' result, s.parse serializer (builtIn t endian number) limit st =
        (some result, (serializer.deserialize st payload).2, s') ∧
      result = (serializer.deserialize st payload).1.mapError .deserialization ∧
      s.reading.body? = some payload ∧ s'.payloads = s.payloads ++ [payload] ∧
      s'.payloads <+: sent ∧ s'.unwritten = s.unwritten ∧ s'.Carries endian number sent) ∨
    (∃ error s', s.parse serializer (builtIn t endian number) limit st = (some (.error error), st, s') ∧
      s.reading.body? = none ∧ s'.payloads = s.payloads ∧ s'.unwritten = s.unwritten) := by
  unfold Wire.parse
  by_cases hmiss : s.reading.missing ≠ 0
  · rw [if_pos hmiss]
    exact Or.inl ⟨s, rfl, rfl, rfl, h⟩
  rw [if_neg hmiss]
  push Not at hmiss
  cases hr : s.reading with
  | length got want =>
    rcases h.next_length hr hmiss limit serializer st with ⟨want', hn, hc⟩ | ⟨error, hn⟩
    · rw [hr] at hn
      rw [hn]
      exact Or.inl ⟨_, rfl, rfl, rfl, hc⟩
    · rw [hr] at hn
      rw [hn]
      exact Or.inr (Or.inr ⟨error, _, rfl, rfl, by simp [Reading.body?], rfl⟩)
  | payload got want =>
    obtain ⟨hpre, hc⟩ := h.next_payload (t := t) hr hmiss
    refine Or.inr (Or.inl ⟨got,
      { s with reading := .start (builtIn t endian number), payloads := s.payloads ++ [got] },
      (serializer.deserialize st got).1.mapError .deserialization, ?_, rfl, rfl, rfl, hpre, rfl, hc⟩)
    simp only [Reading.next]
    cases hd : serializer.deserialize st got with
    | mk result st' =>
      cases result with
      | ok packet => rfl
      | error error => rfl

end Wire
end Slinet
