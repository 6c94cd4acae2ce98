import Mathlib.Tactic

/-!
# Sets of numbers as bitmaps

A list of bytes is a set of numbers: the number `k` is the bit `k % 8` of the byte `k / 8`.
-/

namespace Bitmap

/-- Whether the set has a number. -/
def holds (map : List UInt8) (k : Nat) : Bool := (map.getD (k / 8) 0).toNat.testBit (k % 8)

/-- Put a number in. -/
def mark (map : List UInt8) (k : Nat) : List UInt8 :=
  map.modify (k / 8) (· ||| 1 <<< UInt8.ofNat (k % 8))

/-- Take a number out. -/
def clear (map : List UInt8) (k : Nat) : List UInt8 :=
  map.modify (k / 8) (· &&& ~~~(1 <<< UInt8.ofNat (k % 8)))

@[simp] theorem length_mark (map : List UInt8) (k : Nat) : (mark map k).length = map.length := by
  simp [mark]

@[simp] theorem length_clear (map : List UInt8) (k : Nat) : (clear map k).length = map.length := by
  simp [clear]

/-! ## Bytes -/

theorem toNat_bit : ∀ r < 8, ((1 : UInt8) <<< UInt8.ofNat r).toNat = 2 ^ r := by decide

theorem testBit_not_bit :
    ∀ r < 8, ∀ j < 8, (~~~((1 : UInt8) <<< UInt8.ofNat r)).toNat.testBit j = decide (j ≠ r) := by
  decide

theorem testBit_or_bit (byte : UInt8) {r : Nat} (small : r < 8) (j : Nat) :
    (byte ||| 1 <<< UInt8.ofNat r).toNat.testBit j = (decide (j = r) || byte.toNat.testBit j) := by
  rw [UInt8.toNat_or, Nat.testBit_or, toNat_bit r small, Nat.testBit_two_pow, Bool.or_comm]
  simp only [eq_comm]

theorem testBit_and_not_bit (byte : UInt8) {r j : Nat} (small : r < 8) (inside : j < 8) :
    (byte &&& ~~~(1 <<< UInt8.ofNat r)).toNat.testBit j =
      (decide (j ≠ r) && byte.toNat.testBit j) := by
  rw [UInt8.toNat_and, Nat.testBit_and, testBit_not_bit r small j inside, Bool.and_comm]

/-! ## Sets -/

variable {map : List UInt8} {j k : Nat}

theorem holds_of_ge (outside : 8 * map.length ≤ k) : holds map k = false := by
  have behind : map.length ≤ k / 8 := by omega
  simp [holds, List.getD_eq_getElem?_getD, List.getElem?_eq_none behind]

theorem getD_modify (map : List UInt8) (change : UInt8 → UInt8) {i : Nat} (j : Nat)
    (inside : i < map.length) :
    (map.modify i change).getD j 0 = if j = i then change (map.getD i 0) else map.getD j 0 := by
  simp only [List.getD_eq_getElem?_getD, List.getElem?_modify]
  by_cases same : j = i
  · subst same
    simp [List.getElem?_eq_getElem inside]
  · simp [same, Ne.symm same]

theorem holds_mark (inside : k < 8 * map.length) :
    holds (mark map k) j = (decide (j = k) || holds map j) := by
  have byte : k / 8 < map.length := by omega
  rw [holds, mark, getD_modify map _ _ byte]
  split_ifs with same
  · rw [testBit_or_bit _ (Nat.mod_lt _ (by decide)), holds, same]
    congr 2
    rw [eq_iff_iff]
    omega
  · have other : j ≠ k := fun equal => same (by rw [equal])
    simp [other, holds]

theorem holds_clear (inside : k < 8 * map.length) :
    holds (clear map k) j = (decide (j ≠ k) && holds map j) := by
  have byte : k / 8 < map.length := by omega
  rw [holds, clear, getD_modify map _ _ byte]
  split_ifs with same
  · rw [testBit_and_not_bit _ (Nat.mod_lt _ (by decide)) (Nat.mod_lt _ (by decide)), holds, same]
    congr 2
    rw [eq_iff_iff]
    omega
  · have other : j ≠ k := fun equal => same (by rw [equal])
    simp [other, holds]

theorem holds_append_zeros (n : Nat) : holds (map ++ List.replicate n 0) k = holds map k := by
  simp only [holds, List.getD_eq_getElem?_getD, List.getElem?_append, List.getElem?_replicate]
  split_ifs with inside
  · rfl
  · simp [List.getElem?_eq_none (not_lt.mp inside)]
  · simp [List.getElem?_eq_none (not_lt.mp inside)]

@[simp] theorem holds_zeros (n : Nat) : holds (List.replicate n 0) k = false := by
  simpa [holds_of_ge] using @holds_append_zeros [] k n

end Bitmap
