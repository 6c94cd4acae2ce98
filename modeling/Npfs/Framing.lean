import Mathlib.Tactic

/-!
# Cutting a stream into frames

`head` says how long the frame at the front of a stream is, if a whole frame is there.
-/

namespace Framing

variable {α : Type} (head : List α → Option Nat)

/-- At most `fuel` frames, and what is left. -/
def splitN : Nat → List α → List (List α) × List α
  | 0, stream => ([], stream)
  | fuel + 1, stream =>
    match head stream with
    | none => ([], stream)
    | some size =>
      let (frames, rest) := splitN fuel (stream.drop size)
      (stream.take size :: frames, rest)

/-- All frames, and what is left. -/
def split (stream : List α) : List (List α) × List α := splitN head stream.length stream

/-- A frame has elements, and all of them are there. -/
def Lawful : Prop := ∀ stream size, head stream = some size → 0 < size ∧ size ≤ stream.length

variable {head} {stream : List α}

theorem splitN_of_none (fuel : Nat) (none : head stream = none) :
    splitN head fuel stream = ([], stream) := by
  cases fuel with
  | zero => rfl
  | succ fuel => rw [splitN, none]

/-- A stream has fewer frames than elements. -/
theorem splitN_eq_split (lawful : Lawful head) {fuel : Nat} (enough : stream.length ≤ fuel) :
    splitN head fuel stream = split head stream := by
  obtain ⟨length, same⟩ : ∃ length, stream.length = length := ⟨_, rfl⟩
  induction length using Nat.strong_induction_on generalizing stream fuel with
  | _ length ih =>
    cases front : head stream with
    | none => rw [split, splitN_of_none _ front, splitN_of_none _ front]
    | some size =>
      obtain ⟨positive, inside⟩ := lawful stream size front
      have shorter : (stream.drop size).length < length := by
        rw [List.length_drop]
        omega
      obtain ⟨fuel, rfl⟩ := Nat.exists_eq_add_one_of_ne_zero (n := fuel) (by omega)
      obtain ⟨length', same'⟩ := Nat.exists_eq_add_one_of_ne_zero (n := stream.length) (by omega)
      rw [split, same', splitN, splitN, front]
      dsimp only
      rw [@ih _ shorter (stream.drop size) fuel (by omega) rfl,
        @ih _ shorter (stream.drop size) length' (by omega) rfl]

theorem split_of_none (none : head stream = none) : split head stream = ([], stream) :=
  splitN_of_none _ none

theorem split_of_some (lawful : Lawful head) {size : Nat} (front : head stream = some size) :
    split head stream = (stream.take size :: (split head (stream.drop size)).1,
      (split head (stream.drop size)).2) := by
  obtain ⟨positive, inside⟩ := lawful stream size front
  obtain ⟨length, same⟩ := Nat.exists_eq_add_one_of_ne_zero (n := stream.length) (by omega)
  rw [split, same, splitN, front]
  dsimp only
  rw [splitN_eq_split lawful (by rw [List.length_drop]; omega)]

end Framing
