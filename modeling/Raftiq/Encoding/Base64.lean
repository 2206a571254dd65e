import Mathlib.Data.List.Basic
import Mathlib.Data.UInt

namespace Raftiq.Base64

/-! Byte strings as text: three bytes are four digits of six bits, and `=` stands for digits that are
missing at the end. -/

def digit (value : ℕ) : Char :=
  if value < 26 then Char.ofNat (65 + value)
  else if value < 52 then Char.ofNat (97 + (value - 26))
  else if value < 62 then Char.ofNat (48 + (value - 52))
  else if value = 62 then '+'
  else '/'

def valueOf (char : Char) : Option ℕ :=
  if 65 ≤ char.toNat ∧ char.toNat ≤ 90 then some (char.toNat - 65)
  else if 97 ≤ char.toNat ∧ char.toNat ≤ 122 then some (char.toNat - 97 + 26)
  else if 48 ≤ char.toNat ∧ char.toNat ≤ 57 then some (char.toNat - 48 + 52)
  else if char = '+' then some 62
  else if char = '/' then some 63
  else none

def encode : List UInt8 → List Char
  | [] => []
  | [first] => [digit (first.toNat / 4), digit (first.toNat % 4 * 16), '=', '=']
  | [first, second] =>
      [digit (first.toNat / 4), digit (first.toNat % 4 * 16 + second.toNat / 16),
        digit (second.toNat % 16 * 4), '=']
  | first :: second :: third :: rest =>
      digit (first.toNat / 4) :: digit (first.toNat % 4 * 16 + second.toNat / 16) ::
        digit (second.toNat % 16 * 4 + third.toNat / 64) :: digit (third.toNat % 64) :: encode rest

/-- The bits of the last digit before the padding that belong to no byte are not checked. -/
def decodeDigits : List Char → Option (List UInt8)
  | [] => some []
  | a :: b :: c :: d :: rest => do
      let first ← valueOf a
      let second ← valueOf b
      if rest = [] ∧ d = '=' ∧ c = '=' then
        return [UInt8.ofNat (first * 4 + second / 16)]
      let third ← valueOf c
      if rest = [] ∧ d = '=' then
        return [UInt8.ofNat (first * 4 + second / 16), UInt8.ofNat (second % 16 * 16 + third / 4)]
      let fourth ← valueOf d
      let bytes ← decodeDigits rest
      return UInt8.ofNat (first * 4 + second / 16) :: UInt8.ofNat (second % 16 * 16 + third / 4) ::
        UInt8.ofNat (third % 4 * 64 + fourth) :: bytes
  | _ => none

def isLineBreak (char : Char) : Bool :=
  char = '\r' ∨ char = '\n'

/-- Line breaks are skipped wherever they stand. -/
def decode (text : List Char) : Option (List UInt8) :=
  decodeDigits (text.filter fun char => !isLineBreak char)

theorem digit_cases : ∀ value < 64,
    valueOf (digit value) = some value ∧ digit value ≠ '=' ∧ isLineBreak (digit value) = false := by
  decide

theorem valueOf_digit {value : ℕ} (small : value < 64) : valueOf (digit value) = some value :=
  (digit_cases value small).1

theorem digit_ne_padding {value : ℕ} (small : value < 64) : digit value ≠ '=' :=
  (digit_cases value small).2.1

theorem not_isLineBreak_digit {value : ℕ} (small : value < 64) : isLineBreak (digit value) = false :=
  (digit_cases value small).2.2

/-- The first byte from its two digits; `low` are the bits of the next byte. -/
theorem firstByte (byte : UInt8) {low : ℕ} (small : low < 16) :
    UInt8.ofNat (byte.toNat / 4 * 4 + (byte.toNat % 4 * 16 + low) / 16) = byte := by
  rw [show byte.toNat / 4 * 4 + (byte.toNat % 4 * 16 + low) / 16 = byte.toNat by omega, UInt8.ofNat_toNat]

theorem secondByte (high : ℕ) (byte : UInt8) {low : ℕ} (small : low < 4) :
    UInt8.ofNat ((high * 16 + byte.toNat / 16) % 16 * 16 + (byte.toNat % 16 * 4 + low) / 4) = byte := by
  have below := byte.toNat_lt
  rw [show (high * 16 + byte.toNat / 16) % 16 * 16 + (byte.toNat % 16 * 4 + low) / 4 = byte.toNat by omega,
    UInt8.ofNat_toNat]

theorem thirdByte (high : ℕ) (byte : UInt8) :
    UInt8.ofNat ((high * 4 + byte.toNat / 64) % 4 * 64 + byte.toNat % 64) = byte := by
  have below := byte.toNat_lt
  rw [show (high * 4 + byte.toNat / 64) % 4 * 64 + byte.toNat % 64 = byte.toNat by omega, UInt8.ofNat_toNat]

theorem not_isLineBreak_of_mem_encode (bytes : List UInt8) :
    ∀ char ∈ encode bytes, isLineBreak char = false := by
  have small := fun byte : UInt8 => byte.toNat_lt
  induction bytes using encode.induct with
  | case1 => simp [encode]
  | case2 first =>
      have firstSmall := small first
      simp only [encode, List.forall_mem_cons]
      exact ⟨not_isLineBreak_digit (by omega), not_isLineBreak_digit (by omega), rfl, rfl, by simp⟩
  | case3 first second =>
      have firstSmall := small first
      have secondSmall := small second
      simp only [encode, List.forall_mem_cons]
      exact ⟨not_isLineBreak_digit (by omega), not_isLineBreak_digit (by omega),
        not_isLineBreak_digit (by omega), rfl, by simp⟩
  | case4 first second third rest ih =>
      have firstSmall := small first
      have secondSmall := small second
      have thirdSmall := small third
      simp only [encode, List.forall_mem_cons]
      exact ⟨not_isLineBreak_digit (by omega), not_isLineBreak_digit (by omega),
        not_isLineBreak_digit (by omega), not_isLineBreak_digit (by omega), ih⟩

theorem decodeDigits_encode (bytes : List UInt8) : decodeDigits (encode bytes) = some bytes := by
  have small := fun byte : UInt8 => byte.toNat_lt
  induction bytes using encode.induct with
  | case1 => rfl
  | case2 first =>
      have firstSmall := small first
      unfold encode decodeDigits
      rw [valueOf_digit (by omega), valueOf_digit (by omega)]
      exact congrArg (fun byte => some [byte]) (firstByte first (Nat.zero_lt_succ 15))
  | case3 first second =>
      have firstSmall := small first
      have secondSmall := small second
      have filled : digit (second.toNat % 16 * 4) ≠ '=' := digit_ne_padding (by omega)
      unfold encode decodeDigits
      rw [valueOf_digit (by omega), valueOf_digit (by omega), valueOf_digit (by omega)]
      simp only [Option.bind_eq_bind, Option.bind_some, filled, and_false, if_false, and_self, if_true]
      rw [firstByte first (by omega)]
      exact congrArg (fun byte => some [first, byte]) (secondByte _ second (Nat.zero_lt_succ 3))
  | case4 first second third rest ih =>
      have firstSmall := small first
      have secondSmall := small second
      have thirdSmall := small third
      have filled : digit (third.toNat % 64) ≠ '=' := digit_ne_padding (by omega)
      unfold encode decodeDigits
      rw [valueOf_digit (by omega), valueOf_digit (by omega), valueOf_digit (by omega),
        valueOf_digit (by omega), ih]
      simp only [Option.bind_eq_bind, Option.bind_some, filled, false_and, and_false, if_false]
      rw [firstByte first (by omega), secondByte _ second (by omega), thirdByte _ third]
      rfl

theorem decode_encode (bytes : List UInt8) : decode (encode bytes) = some bytes := by
  rw [decode, List.filter_eq_self.mpr, decodeDigits_encode]
  intro char member
  rw [not_isLineBreak_of_mem_encode bytes char member]
  rfl

end Raftiq.Base64
