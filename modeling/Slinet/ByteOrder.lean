/-
# Little- and big-endian numbers

A natural number as a fixed number of bytes and back: reading what was
written gives every number that fits back (`fromLe_toLe`, `fromBe_toBe`),
writing what was read gives the bytes back (`toLe_fromLe`, `toBe_fromBe`), and
big endian is little endian read backwards.
-/
import Mathlib.Data.List.Basic
import Mathlib.Tactic

namespace Slinet
namespace ByteOrder

/-- The `size` low bytes of `n`, least significant first. -/
def toLe : ℕ → ℕ → List UInt8
  | 0, _ => []
  | size + 1, n => UInt8.ofNat (n % 256) :: toLe size (n / 256)

def fromLe : List UInt8 → ℕ
  | [] => 0
  | b :: bs => b.toNat + 256 * fromLe bs

@[simp] theorem length_toLe : ∀ size n : ℕ, (toLe size n).length = size
  | 0, _ => rfl
  | size + 1, n => by simp [toLe, length_toLe size]

theorem fromLe_toLe : ∀ (size : ℕ) {n : ℕ}, n < 256 ^ size → fromLe (toLe size n) = n
  | 0, n, h => by simp at h; simp [toLe, fromLe, h]
  | size + 1, n, h => by
    have hdiv : n / 256 < 256 ^ size := by
      rw [Nat.div_lt_iff_lt_mul (by norm_num)]; rwa [pow_succ] at h
    have hb : (UInt8.ofNat (n % 256)).toNat = n % 256 := by
      rw [UInt8.toNat_ofNat']; omega
    rw [toLe, fromLe, fromLe_toLe size hdiv, hb]
    omega

theorem fromLe_lt : ∀ bs : List UInt8, fromLe bs < 256 ^ bs.length
  | [] => Nat.one_pos
  | b :: bs => by
    have hb : b.toNat < 256 := b.toNat_lt
    have hrest : fromLe bs + 1 ≤ 256 ^ bs.length := fromLe_lt bs
    calc fromLe (b :: bs) = b.toNat + 256 * fromLe bs := rfl
      _ < 256 * (fromLe bs + 1) := by omega
      _ ≤ 256 * 256 ^ bs.length := Nat.mul_le_mul_left 256 hrest
      _ = 256 ^ (b :: bs).length := by rw [List.length_cons, pow_succ, Nat.mul_comm]

theorem toLe_fromLe : ∀ bs : List UInt8, toLe bs.length (fromLe bs) = bs
  | [] => rfl
  | b :: bs => by
    have hb : b.toNat < 256 := b.toNat_lt
    have hlow : (b.toNat + 256 * fromLe bs) % 256 = b.toNat := by omega
    have hhigh : (b.toNat + 256 * fromLe bs) / 256 = fromLe bs := by omega
    rw [List.length_cons, fromLe, toLe, hlow, hhigh, UInt8.ofNat_toNat, toLe_fromLe bs]

/-- The `size` low bytes of `n`, most significant first. -/
def toBe (size n : ℕ) : List UInt8 := (toLe size n).reverse

def fromBe (bs : List UInt8) : ℕ := fromLe bs.reverse

@[simp] theorem length_toBe (size n : ℕ) : (toBe size n).length = size := by simp [toBe]

theorem fromBe_toBe {size n : ℕ} (h : n < 256 ^ size) : fromBe (toBe size n) = n := by
  rw [fromBe, toBe, List.reverse_reverse, fromLe_toLe size h]

theorem fromBe_lt (bs : List UInt8) : fromBe bs < 256 ^ bs.length := by
  have h := fromLe_lt bs.reverse
  rwa [List.length_reverse] at h

theorem toBe_fromBe (bs : List UInt8) : toBe bs.length (fromBe bs) = bs := by
  have h := toLe_fromLe bs.reverse
  rw [List.length_reverse] at h
  rw [toBe, fromBe, h, List.reverse_reverse]

end ByteOrder
end Slinet
