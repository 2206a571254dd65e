import Mathlib.Algebra.Order.Group.Nat
import Mathlib.Data.Nat.ModEq
import Mathlib.Data.UInt
import Mathlib.Tactic.Ring

namespace Raftiq

/-! Natural numbers as byte strings of a fixed width, most significant byte first. -/

def bigEndian (bytes : List UInt8) : ℕ :=
  bytes.foldl (fun value byte => value * 256 + byte.toNat) 0

/-- Higher digits are dropped. -/
def bigEndianBytes : ℕ → ℕ → List UInt8
  | 0, _ => []
  | width + 1, value => UInt8.ofNat (value / 256 ^ width) :: bigEndianBytes width value

def readBigEndian (width : ℕ) (reader : List UInt8) : Option (ℕ × List UInt8) :=
  if reader.length < width then none else some (bigEndian (reader.take width), reader.drop width)

@[simp] theorem bigEndianBytes_length (width value : ℕ) : (bigEndianBytes width value).length = width := by
  induction width with
  | zero => rfl
  | succ width ih => simp [bigEndianBytes, ih]

theorem foldl_bigEndianBytes (width value high : ℕ) :
    (bigEndianBytes width value).foldl (fun value byte => value * 256 + byte.toNat) high =
      high * 256 ^ width + value % 256 ^ width := by
  induction width generalizing high with
  | zero => simp [bigEndianBytes, Nat.mod_one]
  | succ width ih =>
      have digit : (UInt8.ofNat (value / 256 ^ width)).toNat = value / 256 ^ width % 256 :=
        UInt8.toNat_ofNat'
      rw [bigEndianBytes, List.foldl_cons, ih, digit, Nat.mod_pow_succ]
      ring

theorem bigEndian_bigEndianBytes (width value : ℕ) :
    bigEndian (bigEndianBytes width value) = value % 256 ^ width := by
  rw [bigEndian, foldl_bigEndianBytes, Nat.zero_mul, Nat.zero_add]

theorem bigEndian_of_lt {width value : ℕ} (small : value < 256 ^ width) :
    bigEndian (bigEndianBytes width value) = value := by
  rw [bigEndian_bigEndianBytes, Nat.mod_eq_of_lt small]

theorem readBigEndian_bytes (width value : ℕ) (rest : List UInt8) :
    readBigEndian width (bigEndianBytes width value ++ rest) = some (value % 256 ^ width, rest) := by
  unfold readBigEndian
  rw [if_neg (by simp), List.take_append_of_le_length (by simp), List.drop_append_of_le_length (by simp),
    List.take_of_length_le (by simp), List.drop_of_length_le (by simp), bigEndian_bigEndianBytes]
  rfl

theorem readBigEndian_of_lt {width value : ℕ} (small : value < 256 ^ width) (rest : List UInt8) :
    readBigEndian width (bigEndianBytes width value ++ rest) = some (value, rest) := by
  rw [readBigEndian_bytes, Nat.mod_eq_of_lt small]

theorem bigEndian_append (bytes : List UInt8) (byte : UInt8) :
    bigEndian (bytes ++ [byte]) = bigEndian bytes * 256 + byte.toNat := by
  simp [bigEndian]

theorem bigEndian_lt (bytes : List UInt8) : bigEndian bytes < 256 ^ bytes.length := by
  induction bytes using List.reverseRecOn with
  | nil => decide
  | append_singleton bytes byte ih =>
      have digit := byte.toNat_lt
      rw [bigEndian_append, List.length_append, List.length_singleton, Nat.pow_succ]
      omega

theorem bigEndianBytes_succ (width value : ℕ) :
    bigEndianBytes (width + 1) value = bigEndianBytes width (value / 256) ++ [UInt8.ofNat value] := by
  induction width with
  | zero => simp [bigEndianBytes]
  | succ width ih =>
      have high : value / 256 ^ (width + 1) = value / 256 / 256 ^ width := by
        rw [Nat.div_div_eq_div_mul, Nat.pow_succ, Nat.mul_comm]
      rw [bigEndianBytes, ih, bigEndianBytes, high, List.cons_append]

/-- There is only one byte string of a width for each number. -/
theorem bigEndianBytes_bigEndian (bytes : List UInt8) :
    bigEndianBytes bytes.length (bigEndian bytes) = bytes := by
  induction bytes using List.reverseRecOn with
  | nil => rfl
  | append_singleton bytes byte ih =>
      have digit := byte.toNat_lt
      have high : (bigEndian bytes * 256 + byte.toNat) / 256 = bigEndian bytes := by omega
      have low : UInt8.ofNat (bigEndian bytes * 256 + byte.toNat) = byte := by
        apply UInt8.toNat_inj.mp
        rw [UInt8.toNat_ofNat']
        omega
      rw [bigEndian_append, List.length_append, List.length_singleton, bigEndianBytes_succ, high, low, ih]

/-- What has been read is what had been written there. -/
theorem readBigEndian_some_iff {width value : ℕ} {reader rest : List UInt8} :
    readBigEndian width reader = some (value, rest) ↔
      value < 256 ^ width ∧ reader = bigEndianBytes width value ++ rest := by
  constructor
  · intro read
    unfold readBigEndian at read
    split at read
    · cases read
    · rename_i long
      cases read
      have length : (reader.take width).length = width := by
        rw [List.length_take]
        omega
      have bound := bigEndian_lt (reader.take width)
      have bytes := bigEndianBytes_bigEndian (reader.take width)
      rw [length] at bound bytes
      exact ⟨bound, by rw [bytes, List.take_append_drop]⟩
  · rintro ⟨small, rfl⟩
    exact readBigEndian_of_lt small rest

theorem readBigEndian_short {width : ℕ} {reader : List UInt8} (short : reader.length < width) :
    readBigEndian width reader = none :=
  if_pos short

theorem readBigEndian_shorter {width value : ℕ} {reader rest : List UInt8}
    (read : readBigEndian width reader = some (value, rest)) : rest.length + width = reader.length := by
  unfold readBigEndian at read
  split at read
  · cases read
  · cases read
    rw [List.length_drop]
    omega

end Raftiq
