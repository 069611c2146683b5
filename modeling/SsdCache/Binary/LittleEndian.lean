import Mathlib.Data.List.Basic
import Mathlib.Tactic.Ring

/-!
# Little-endian numbers in a buffer

`split` writes a number in a fixed number of bytes, `combine` reads it back (`combine_split`).
`readAt` is a read at a place of a buffer, `none` when it goes outside; `At` says what stands at
a place, so that a field is read by its place in the record (`At.append`, `At.readAt`).
-/

namespace SsdCache.Binary

/-- The low `k` bytes of a number. -/
def split : ℕ → ℕ → List UInt8
  | 0, _ => []
  | k + 1, n => UInt8.ofNat n :: split k (n / 256)

def combine : List UInt8 → ℕ
  | [] => 0
  | b :: bytes => b.toNat + 256 * combine bytes

/-- The number of `k` bytes at place `i`. -/
def readAt (buffer : List UInt8) (i k : ℕ) : Option ℕ :=
  if i + k ≤ buffer.length then some (combine ((buffer.drop i).take k)) else none

/-- These bytes stand at place `i`. -/
def At (buffer : List UInt8) (i : ℕ) (bytes : List UInt8) : Prop := bytes <+: buffer.drop i

@[simp] theorem length_split (k n : ℕ) : (split k n).length = k := by
  induction k generalizing n with
  | zero => rfl
  | succ k ih => rw [split, List.length_cons, ih]

theorem combine_split {k n : ℕ} (hn : n < 256 ^ k) : combine (split k n) = n := by
  induction k generalizing n with
  | zero =>
    have hzero : n = 0 := by simpa using hn
    rw [hzero]
    rfl
  | succ k ih =>
    have hdiv : n / 256 < 256 ^ k := by
      rw [Nat.div_lt_iff_lt_mul (by decide)]
      rwa [pow_succ] at hn
    have hlow : (UInt8.ofNat n).toNat = n % 256 := UInt8.toNat_ofNat'
    rw [split, combine, ih hdiv, hlow]
    omega

variable {buffer bytes bytes' : List UInt8} {i k n : ℕ}

/-- A record's first part and the rest. -/
theorem At.append (h : At buffer i (bytes ++ bytes')) :
    At buffer i bytes ∧ At buffer (i + bytes.length) bytes' := by
  obtain ⟨tail, htail⟩ := h
  rw [List.append_assoc] at htail
  refine ⟨⟨bytes' ++ tail, htail⟩, tail, ?_⟩
  rw [← List.drop_drop, ← htail, List.drop_left]

/-- **A number is read back** from its place. -/
theorem At.readAt (h : At buffer i (split k n)) (hk : 0 < k) (hn : n < 256 ^ k) :
    readAt buffer i k = some n := by
  obtain ⟨tail, htail⟩ := h
  have hlength : k + tail.length = buffer.length - i := by
    have hdrop := congrArg List.length htail
    rwa [List.length_append, length_split, List.length_drop] at hdrop
  have hfits : i + k ≤ buffer.length := by omega
  have htake : (split k n ++ tail).take k = split k n := List.take_left' (length_split k n)
  rw [Binary.readAt, if_pos hfits, ← htail, htake, combine_split hn]

end SsdCache.Binary
