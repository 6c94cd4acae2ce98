import Mathlib.Tactic

/-!
# Contents of variable length

A sequence that is read and written at offsets. A gap that a write or an extension leaves holds
`zero`.
-/

namespace Extent

variable {α : Type} (zero : α)

/-- The elements at `offset`, at most `count`. -/
def read (contents : List α) (offset count : Nat) : List α := (contents.drop offset).take count

/-- Cut, or extend, to `length`. -/
def resize (contents : List α) (length : Nat) : List α :=
  contents.take length ++ List.replicate (length - contents.length) zero

/-- Replace the elements from `offset` on. -/
def write (contents : List α) (offset : Nat) (new : List α) : List α :=
  if new = [] then contents else resize zero contents offset ++ new ++
    (contents.drop (offset + new.length))

variable {zero} {contents new : List α} {offset length : Nat}

@[simp]
theorem length_read (count : Nat) :
    (read contents offset count).length = min count (contents.length - offset) := by
  rw [read, List.length_take, List.length_drop]

@[simp]
theorem length_resize : (resize zero contents length).length = length := by
  simp only [resize, List.length_append, List.length_take, List.length_replicate]
  omega

theorem resize_of_le (short : length ≤ contents.length) :
    resize zero contents length = contents.take length := by
  rw [resize, Nat.sub_eq_zero_of_le short]
  exact List.append_nil _

theorem resize_of_ge (long : contents.length ≤ length) :
    resize zero contents length =
      contents ++ List.replicate (length - contents.length) zero := by
  rw [resize, List.take_of_length_le long]

@[simp]
theorem write_nil (offset : Nat) : write zero contents offset [] = contents := if_pos rfl

/-- A write that reaches the end. -/
theorem write_of_end (some : new ≠ []) (reaches : contents.length ≤ offset + new.length) :
    write zero contents offset new = resize zero contents offset ++ new := by
  rw [write, if_neg some, List.drop_of_length_le reaches, List.append_nil]

/-- A write within the contents. -/
theorem write_of_within (within : offset + new.length ≤ contents.length) :
    write zero contents offset new =
      contents.take offset ++ new ++ contents.drop (offset + new.length) := by
  rcases eq_or_ne new [] with rfl | some
  · simp
  · rw [write, if_neg some, resize_of_le (by omega)]

theorem length_write (some : new ≠ []) :
    (write zero contents offset new).length = max contents.length (offset + new.length) := by
  rw [write, if_neg some]
  simp only [List.length_append, length_resize, List.length_drop]
  omega

end Extent
