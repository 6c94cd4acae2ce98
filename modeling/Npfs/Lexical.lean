import Mathlib.Data.List.Infix

/-!
# Reading a path component by component

Where a path leads when its components are read one after another and no file is looked at: a name
descends, and `..` climbs, whatever the names stand for.
-/

namespace Lexical

variable {α : Type*}

/-- What a component of a path does. -/
inductive Move (α : Type*) where
  | up
  | down (name : α)
  deriving DecidableEq

/-- Where a path leads: the levels that it climbs above the directory that it starts from, and the
names that it then descends, the last one first.  Above the root there is no level. -/
structure Place (α : Type*) where
  absolute : Bool
  above : Nat
  below : List α
  deriving DecidableEq

namespace Place

/-- One component is read. -/
def move : Place α → Move α → Place α
  | ⟨absolute, above, below⟩, .down name => ⟨absolute, above, name :: below⟩
  | ⟨absolute, above, _ :: below⟩, .up => ⟨absolute, above, below⟩
  | ⟨true, above, []⟩, .up => ⟨true, above, []⟩
  | ⟨false, above, []⟩, .up => ⟨false, above + 1, []⟩

/-- Components are read one after another. -/
def read (place : Place α) (moves : List (Move α)) : Place α := moves.foldl move place

/-- A place is a directory or something below it. -/
structure Contains (root place : Place α) : Prop where
  absolute : place.absolute = root.absolute
  above : place.above = root.above
  below : root.below <:+ place.below

/-- No component leaves a directory. -/
def Keeps (root : Place α) : (place : Place α) → (moves : List (Move α)) → Prop
  | place, [] => root.Contains place
  | place, move :: moves => root.Contains place ∧ Keeps root (place.move move) moves

/-- Two places are the same, or one component apart. -/
def Near (place place' : Place α) : Prop := place' = place ∨ ∃ move, place' = place.move move

variable {root place : Place α} {moves : List (Move α)}

@[simp] theorem read_nil : place.read [] = place := rfl

@[simp] theorem read_cons (move : Move α) :
    place.read (move :: moves) = (place.move move).read moves := rfl

theorem read_append (front back : List (Move α)) :
    place.read (front ++ back) = (place.read front).read back := List.foldl_append

theorem contains_self : root.Contains root := ⟨rfl, rfl, List.suffix_refl _⟩

theorem Contains.down (contains : root.Contains place) (name : α) :
    root.Contains (place.move (.down name)) :=
  ⟨contains.absolute, contains.above, contains.below.trans (List.suffix_cons _ _)⟩

theorem Keeps.start (keeps : root.Keeps place moves) : root.Contains place := by
  cases moves with
  | nil => exact keeps
  | cons move moves => exact keeps.1

theorem keeps_append {front back : List (Move α)} :
    root.Keeps place (front ++ back) ↔
      root.Keeps place front ∧ root.Keeps (place.read front) back := by
  induction front generalizing place with
  | nil => exact ⟨fun keeps => ⟨keeps.start, keeps⟩, And.right⟩
  | cons move front ih =>
      exact (and_congr_right fun _ => ih).trans and_assoc.symm

theorem Keeps.contains (keeps : root.Keeps place moves) : root.Contains (place.read moves) := by
  induction moves generalizing place with
  | nil => exact keeps
  | cons move moves ih => exact ih keeps.2

/-- A single component leads to a place near by. -/
theorem near_read (few : moves.length ≤ 1) : place.Near (place.read moves) := by
  cases moves with
  | nil => exact .inl rfl
  | cons move moves =>
      obtain rfl : moves = [] := List.eq_nil_of_length_eq_zero (by simpa using few)
      exact .inr ⟨move, rfl⟩

end Place

end Lexical
