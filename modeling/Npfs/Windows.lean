import Mathlib.Data.Vector.Basic
import Mathlib.Logic.Equiv.Defs

/-!
# Permutations of windows

A permutation of blocks of `n` elements is applied in place to the block at one position of a longer
list, and to the blocks at several positions one after another. The positions may overlap; undoing
the steps in the opposite order restores the list.
-/

namespace Windows

variable {α : Type*} {n : ℕ}

/-- The block at position `i`. -/
def window {i : ℕ} {buf : List α} (within : i + n ≤ buf.length) : List.Vector α n :=
  ⟨(buf.drop i).take n, by simp; omega⟩

/-- The block at position `i`, when the list reaches that far, is replaced by its image. -/
def onWindow (f : List.Vector α n → List.Vector α n) (i : ℕ) (buf : List α) : List α :=
  if within : i + n ≤ buf.length then
    buf.take i ++ (f (window within)).toList ++ buf.drop (i + n)
  else buf

/-- One position after another. -/
def forward (f : Equiv.Perm (List.Vector α n)) (positions : List ℕ) (buf : List α) : List α :=
  positions.foldl (fun buf i => onWindow f i buf) buf

/-- The steps are undone, the last one first. -/
def backward (f : Equiv.Perm (List.Vector α n)) (positions : List ℕ) (buf : List α) : List α :=
  positions.foldr (fun i buf => onWindow f.symm i buf) buf

section OneWindow

variable (f g : List.Vector α n → List.Vector α n) (i : ℕ) (buf : List α)

@[simp] theorem length_onWindow : (onWindow f i buf).length = buf.length := by
  unfold onWindow
  split
  · simp
    omega
  · rfl

theorem onWindow_within (within : i + n ≤ buf.length) :
    onWindow f i buf = buf.take i ++ (f (window within)).toList ++ buf.drop (i + n) :=
  dif_pos within

theorem onWindow_beyond (beyond : ¬ i + n ≤ buf.length) : onWindow f i buf = buf := dif_neg beyond

theorem onWindow_onWindow :
    onWindow g i (onWindow f i buf) = onWindow (fun block => g (f block)) i buf := by
  by_cases within : i + n ≤ buf.length
  · have again : i + n ≤ (onWindow f i buf).length := by rwa [length_onWindow]
    have front : (buf.take i).length = i := by
      simp
      omega
    have length (block : List.Vector α n) : block.toList.length = n := block.2
    have once := onWindow_within f i buf within
    have from_block : (onWindow f i buf).drop i =
        (f (window within)).toList ++ buf.drop (i + n) := by
      rw [once, List.append_assoc, List.drop_left' front]
    have block : window again = f (window within) := by
      apply Subtype.ext
      change ((onWindow f i buf).drop i).take n = _
      rw [from_block, List.take_left' (length _)]
      rfl
    have behind : (onWindow f i buf).drop (i + n) = buf.drop (i + n) := by
      rw [← List.drop_drop, from_block, List.drop_left' (length _)]
    have before : (onWindow f i buf).take i = buf.take i := by
      rw [once, List.append_assoc, List.take_left' front]
    rw [onWindow_within g i _ again, block, behind, before, onWindow_within _ i buf within]
  · rw [onWindow_beyond f i buf within, onWindow_beyond g i buf within,
      onWindow_beyond _ i buf within]

@[simp] theorem onWindow_id : onWindow (fun block : List.Vector α n => block) i buf = buf := by
  unfold onWindow
  split
  · change buf.take i ++ (buf.drop i).take n ++ buf.drop (i + n) = buf
    rw [List.append_assoc, ← List.drop_drop, List.take_append_drop, List.take_append_drop]
  · rfl

end OneWindow

section Chain

variable (f : Equiv.Perm (List.Vector α n)) (positions : List ℕ) (buf : List α)

@[simp] theorem length_forward : (forward f positions buf).length = buf.length := by
  induction positions generalizing buf with
  | nil => rfl
  | cons i positions ih => exact (ih _).trans (length_onWindow _ _ _)

@[simp] theorem backward_forward : backward f positions (forward f positions buf) = buf := by
  induction positions generalizing buf with
  | nil => rfl
  | cons i positions ih =>
      have rest : backward f positions (forward f positions (onWindow f i buf)) =
          onWindow f i buf := ih _
      change onWindow f.symm i (backward f positions (forward f positions (onWindow f i buf))) = buf
      rw [rest, onWindow_onWindow]
      simp

/-- To undo is to go through the positions from the last one on. -/
theorem backward_eq_forward :
    backward f positions buf = forward f.symm positions.reverse buf := by
  rw [backward, forward, List.foldl_reverse]

@[simp] theorem forward_backward : forward f positions (backward f positions buf) = buf := by
  have again := backward_forward f.symm positions.reverse buf
  rw [backward_eq_forward f.symm, List.reverse_reverse, Equiv.symm_symm] at again
  rw [backward_eq_forward, again]

end Chain

end Windows
