import Mathlib.Data.Nat.Bitwise
import Mathlib.Tactic

/-!
# Little-endian words

The bytes of a fixed-width word, least significant first, and the word that a run of bytes denotes.
Storing and loading are written with shifts and disjunctions, as C code writes them; the round trip
is proved one bit at a time.
-/

namespace LittleEndian

/-- The two bytes of a 16-bit word. -/
def bytes16 (value : UInt16) : List UInt8 := [value.toUInt8, (value >>> 8).toUInt8]

/-- The four bytes of a 32-bit word. -/
def bytes32 (value : UInt32) : List UInt8 :=
  [value.toUInt8, (value >>> 8).toUInt8, (value >>> 16).toUInt8, (value >>> 24).toUInt8]

/-- The eight bytes of a 64-bit word. -/
def bytes64 (value : UInt64) : List UInt8 :=
  [value.toUInt8, (value >>> 8).toUInt8, (value >>> 16).toUInt8, (value >>> 24).toUInt8,
    (value >>> 32).toUInt8, (value >>> 40).toUInt8, (value >>> 48).toUInt8,
    (value >>> 56).toUInt8]

/-- The 16-bit word stored in two bytes. -/
def word16 (byte : Nat → UInt8) : UInt16 :=
  (byte 0).toUInt16 ||| ((byte 1).toUInt16 <<< 8)

/-- The 32-bit word stored in four bytes. -/
def word32 (byte : Nat → UInt8) : UInt32 :=
  (byte 0).toUInt32 ||| ((byte 1).toUInt32 <<< 8) ||| ((byte 2).toUInt32 <<< 16) |||
    ((byte 3).toUInt32 <<< 24)

/-- The 64-bit word stored in eight bytes. -/
def word64 (byte : Nat → UInt8) : UInt64 :=
  (byte 0).toUInt64 ||| ((byte 1).toUInt64 <<< 8) ||| ((byte 2).toUInt64 <<< 16) |||
    ((byte 3).toUInt64 <<< 24) ||| ((byte 4).toUInt64 <<< 32) ||| ((byte 5).toUInt64 <<< 40) |||
    ((byte 6).toUInt64 <<< 48) ||| ((byte 7).toUInt64 <<< 56)

@[simp] theorem bytes16_length (value : UInt16) : (bytes16 value).length = 2 := rfl

@[simp] theorem bytes32_length (value : UInt32) : (bytes32 value).length = 4 := rfl

@[simp] theorem bytes64_length (value : UInt64) : (bytes64 value).length = 8 := rfl

/-- A byte cut out of `value` at bit `low` and put back there holds the bits it was cut from. -/
private theorem testBit_shiftedByte (width value low i : Nat) :
    ((value >>> low % 256) <<< low % 2 ^ width).testBit i =
      (decide (low ≤ i ∧ i < low + 8 ∧ i < width) && value.testBit i) := by
  rw [Nat.testBit_mod_two_pow, Nat.testBit_shiftLeft, show (256 : Nat) = 2 ^ 8 by rfl,
    Nat.testBit_mod_two_pow, Nat.testBit_shiftRight]
  by_cases above : low ≤ i
  · have index : low + (i - low) = i := by omega
    have within : (i - low < 8) ↔ (i < low + 8) := by omega
    simp only [above, index, within]
    cases value.testBit i <;> simp [Bool.and_comm]
  · simp [above]

private theorem testBit_lowByte (value i : Nat) :
    (value % 256).testBit i = (decide (i < 8) && value.testBit i) :=
  Nat.testBit_mod_two_pow value 8 i

private theorem bit_lt {width value i : Nat} (bound : value < 2 ^ width)
    (set : value.testBit i = true) : i < width := by
  by_contra above
  have clear : value.testBit i = false :=
    Nat.testBit_eq_false_of_lt
      (lt_of_lt_of_le bound (Nat.pow_le_pow_right (by decide) (by omega)))
  simp [clear] at set

/-- Loading the two bytes of a word gives the word back. -/
theorem word16_bytes16 (value : UInt16) : word16 (fun k => (bytes16 value).getD k 0) = value := by
  apply UInt16.toNat_inj.mp
  apply Nat.eq_of_testBit_eq
  intro i
  have shifted := fun low => testBit_shiftedByte 16 value.toNat low i
  norm_num at shifted
  simp only [word16, bytes16]
  simp [shifted, testBit_lowByte]
  cases set : value.toNat.testBit i
  · simp
  · have := bit_lt value.toNat_lt set
    simp
    omega

/-- Loading the four bytes of a word gives the word back. -/
theorem word32_bytes32 (value : UInt32) : word32 (fun k => (bytes32 value).getD k 0) = value := by
  apply UInt32.toNat_inj.mp
  apply Nat.eq_of_testBit_eq
  intro i
  have shifted := fun low => testBit_shiftedByte 32 value.toNat low i
  norm_num at shifted
  simp only [word32, bytes32]
  simp [shifted, testBit_lowByte]
  cases set : value.toNat.testBit i
  · simp
  · have := bit_lt value.toNat_lt set
    simp
    omega

/-- Loading the eight bytes of a word gives the word back. -/
theorem word64_bytes64 (value : UInt64) : word64 (fun k => (bytes64 value).getD k 0) = value := by
  apply UInt64.toNat_inj.mp
  apply Nat.eq_of_testBit_eq
  intro i
  have shifted := fun low => testBit_shiftedByte 64 value.toNat low i
  norm_num at shifted
  simp only [word64, bytes64]
  simp [shifted, testBit_lowByte]
  cases set : value.toNat.testBit i
  · simp
  · have := bit_lt value.toNat_lt set
    simp
    omega

/-- The low half of a 64-bit word whose upper bytes are missing. -/
theorem word64_bytes32 (value : UInt32) :
    (word64 fun k => (bytes32 value).getD k 0).toUInt32 = value := by
  apply UInt32.toNat_inj.mp
  apply Nat.eq_of_testBit_eq
  intro i
  have shifted := fun low => testBit_shiftedByte 32 value.toNat low i
  norm_num at shifted
  have small (byte : Nat) : byte % 256 % 4294967296 = byte % 256 := by omega
  simp only [word64, bytes32]
  simp [small, shifted, testBit_lowByte]
  cases set : value.toNat.testBit i
  · simp
  · have := bit_lt value.toNat_lt set
    simp
    omega

/-- The low bytes of a word are those of its low half. -/
theorem take_bytes64 (value : UInt32) : (bytes64 value.toUInt64).take 4 = bytes32 value := by
  have low (shift : UInt64) (shift' : UInt32) (same : shift.toNat % 64 = shift'.toNat % 32) :
      (value.toUInt64 >>> shift).toUInt8 = (value >>> shift').toUInt8 := by
    apply UInt8.toNat_inj.mp
    simp [same]
  simp only [bytes64, bytes32, List.take]
  rw [low 8 8 rfl, low 16 16 rfl, low 24 24 rfl]
  simp

theorem bytes16_injective : Function.Injective bytes16 := fun a b same => by
  rw [← word16_bytes16 a, same, word16_bytes16 b]

theorem bytes32_injective : Function.Injective bytes32 := fun a b same => by
  rw [← word32_bytes32 a, same, word32_bytes32 b]

theorem bytes64_injective : Function.Injective bytes64 := fun a b same => by
  rw [← word64_bytes64 a, same, word64_bytes64 b]

/-! ## Storing what was loaded -/

/-- A byte has eight bits. -/
private theorem testBit_high (byte : UInt8) {i : Nat} (high : 8 ≤ i) :
    byte.toNat.testBit i = false :=
  Nat.testBit_eq_false_of_lt (lt_of_lt_of_le byte.toNat_lt (Nat.pow_le_pow_right (by decide) high))

/-- A byte put in place at bit `low` of a word has its bits there and no others. -/
private theorem testBit_placed (byte : UInt8) (width low i : Nat) :
    (byte.toNat <<< low % 2 ^ width).testBit i =
      (decide (low ≤ i ∧ i < width) && byte.toNat.testBit (i - low)) := by
  rw [Nat.testBit_mod_two_pow, Nat.testBit_shiftLeft]
  by_cases above : low ≤ i <;> by_cases within : i < width <;> simp [above, within]

theorem testBit_word16 (byte : Nat → UInt8) {k r : Nat} (inside : k < 2) (bit : r < 8) :
    (word16 byte).toNat.testBit (8 * k + r) = (byte k).toNat.testBit r := by
  have placed := fun k => testBit_placed (byte k) 16
  norm_num at placed
  interval_cases k <;> simp (disch := omega) [word16, placed, testBit_high, decide_eq_false]
  omega
theorem testBit_word32 (byte : Nat → UInt8) {k r : Nat} (inside : k < 4) (bit : r < 8) :
    (word32 byte).toNat.testBit (8 * k + r) = (byte k).toNat.testBit r := by
  have placed := fun k => testBit_placed (byte k) 32
  norm_num at placed
  interval_cases k <;> simp (disch := omega) [word32, placed, testBit_high, decide_eq_false] <;>
    omega

theorem testBit_word64 (byte : Nat → UInt8) {k r : Nat} (inside : k < 8) (bit : r < 8) :
    (word64 byte).toNat.testBit (8 * k + r) = (byte k).toNat.testBit r := by
  have placed := fun k => testBit_placed (byte k) 64
  norm_num at placed
  interval_cases k <;> simp (disch := omega) [word64, placed, testBit_high, decide_eq_false] <;>
    omega

/-- A byte with the bits of another. -/
private theorem byte_eq {value : UInt8} {byte : UInt8}
    (same : ∀ r < 8, value.toNat.testBit r = byte.toNat.testBit r) : value = byte := by
  apply UInt8.toNat_inj.mp
  apply Nat.eq_of_testBit_eq
  intro r
  by_cases bit : r < 8
  · exact same r bit
  · rw [testBit_high value (not_lt.mp bit), testBit_high byte (not_lt.mp bit)]

/-- Storing a word that was loaded from two bytes gives the bytes back. -/
theorem bytes16_word16 (byte : Nat → UInt8) : bytes16 (word16 byte) =
    [byte 0, byte 1] := by
  have cut := fun k inside r bit => @testBit_word16 byte k r inside bit
  simp only [bytes16, List.cons.injEq, and_true]
  refine ⟨?_, ?_⟩ <;> refine byte_eq fun r bit => ?_
  · simpa [bit, Nat.testBit_mod_two_pow _ 8] using cut 0 (by decide) r bit
  · simpa [bit, Nat.testBit_mod_two_pow _ 8] using cut 1 (by decide) r bit

/-- Storing a word that was loaded from four bytes gives the bytes back. -/
theorem bytes32_word32 (byte : Nat → UInt8) : bytes32 (word32 byte) =
    [byte 0, byte 1, byte 2, byte 3] := by
  have cut := fun k inside r bit => @testBit_word32 byte k r inside bit
  simp only [bytes32, List.cons.injEq, and_true]
  refine ⟨?_, ?_, ?_, ?_⟩ <;> refine byte_eq fun r bit => ?_
  · simpa [bit, Nat.testBit_mod_two_pow _ 8] using cut 0 (by decide) r bit
  · simpa [bit, Nat.testBit_mod_two_pow _ 8] using cut 1 (by decide) r bit
  · simpa [bit, Nat.testBit_mod_two_pow _ 8] using cut 2 (by decide) r bit
  · simpa [bit, Nat.testBit_mod_two_pow _ 8] using cut 3 (by decide) r bit

/-- Storing a word that was loaded from eight bytes gives the bytes back. -/
theorem bytes64_word64 (byte : Nat → UInt8) : bytes64 (word64 byte) =
    [byte 0, byte 1, byte 2, byte 3, byte 4, byte 5, byte 6, byte 7] := by
  have cut := fun k inside r bit => @testBit_word64 byte k r inside bit
  simp only [bytes64, List.cons.injEq, and_true]
  refine ⟨?_, ?_, ?_, ?_, ?_, ?_, ?_, ?_⟩ <;> refine byte_eq fun r bit => ?_
  · simpa [bit, Nat.testBit_mod_two_pow _ 8] using cut 0 (by decide) r bit
  · simpa [bit, Nat.testBit_mod_two_pow _ 8] using cut 1 (by decide) r bit
  · simpa [bit, Nat.testBit_mod_two_pow _ 8] using cut 2 (by decide) r bit
  · simpa [bit, Nat.testBit_mod_two_pow _ 8] using cut 3 (by decide) r bit
  · simpa [bit, Nat.testBit_mod_two_pow _ 8] using cut 4 (by decide) r bit
  · simpa [bit, Nat.testBit_mod_two_pow _ 8] using cut 5 (by decide) r bit
  · simpa [bit, Nat.testBit_mod_two_pow _ 8] using cut 6 (by decide) r bit
  · simpa [bit, Nat.testBit_mod_two_pow _ 8] using cut 7 (by decide) r bit

end LittleEndian
