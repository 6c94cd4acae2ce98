import Mathlib.Tactic

/-!
# Memory cells

A memory of cells that are allocated one after another and freed, and never used twice.
-/

/-- The cells that have been allocated so far; a freed one is `none`. -/
structure Cells (α : Type) where
  cells : List (Option α)

namespace Cells

variable {α : Type} {mem : Cells α} {value value' : α} {ptr ptr' : Nat}

/-- The memory before the first allocation. -/
def empty : Cells α := ⟨[]⟩

/-- The pointer that the next allocation returns. -/
def next (mem : Cells α) : Nat := mem.cells.length

/-- What a pointer points to. -/
def get (mem : Cells α) (ptr : Nat) : Option α := mem.cells[ptr]?.join

/-- Allocate a cell. -/
def push (mem : Cells α) (value : α) : Cells α := ⟨mem.cells ++ [some value]⟩

/-- Change the cell that a pointer points to, if it is allocated. -/
def modify (mem : Cells α) (ptr : Nat) (change : α → α) : Cells α :=
  ⟨mem.cells.modify ptr (·.map change)⟩

/-- Free a cell. -/
def free (mem : Cells α) (ptr : Nat) : Cells α := ⟨mem.cells.set ptr none⟩

/-- Free all cells. -/
def clear (mem : Cells α) : Cells α := ⟨mem.cells.map fun _ => none⟩

/-- How many of the allocated cells satisfy `p`. -/
def count (mem : Cells α) (p : α → Bool) : Nat := mem.cells.countP (·.any p)

@[simp] theorem get_empty (ptr : Nat) : (empty : Cells α).get ptr = none := rfl

@[simp] theorem next_push : (mem.push value).next = mem.next + 1 := by simp [push, next]

@[simp] theorem next_modify {change : α → α} : (mem.modify ptr change).next = mem.next := by
  simp [modify, next]

@[simp] theorem next_free : (mem.free ptr).next = mem.next := by simp [free, next]

@[simp] theorem next_clear : mem.clear.next = mem.next := by simp [clear, next]

theorem get_eq_none_of_le (unallocated : mem.next ≤ ptr) : mem.get ptr = none := by
  simp [get, List.getElem?_eq_none unallocated]

theorem lt_of_get (allocated : mem.get ptr = some value) : ptr < mem.next := by
  by_contra unallocated
  rw [get_eq_none_of_le (not_lt.mp unallocated)] at allocated
  cases allocated

@[simp] theorem get_next : mem.get mem.next = none := get_eq_none_of_le le_rfl

theorem get_push :
    (mem.push value).get ptr = if ptr = mem.next then some value else mem.get ptr := by
  rcases lt_trichotomy ptr mem.next with before | rfl | behind
  · rw [if_neg before.ne, get, push, List.getElem?_append_left before, get]
  · rw [if_pos rfl]
    simp [get, push, next]
  · rw [if_neg behind.ne', get_eq_none_of_le (by rw [next_push]; omega),
      get_eq_none_of_le behind.le]

@[simp] theorem get_push_next : (mem.push value).get mem.next = some value := by simp [get_push]

theorem get_modify {change : α → α} :
    (mem.modify ptr change).get ptr' =
      if ptr' = ptr then (mem.get ptr).map change else mem.get ptr' := by
  by_cases same : ptr' = ptr
  · subst same
    rw [if_pos rfl, get, modify, List.getElem?_modify_eq, get]
    cases mem.cells[ptr']? <;> rfl
  · rw [if_neg same, get, modify, List.getElem?_modify]
    simp [Ne.symm same, get]

@[simp] theorem get_modify_self {change : α → α} :
    (mem.modify ptr change).get ptr = (mem.get ptr).map change := by simp [get_modify]

theorem get_modify_ne {change : α → α} (other : ptr' ≠ ptr) :
    (mem.modify ptr change).get ptr' = mem.get ptr' := by simp [get_modify, other]

theorem modify_modify {change change' : α → α} :
    (mem.modify ptr change).modify ptr change' = mem.modify ptr (change' ∘ change) := by
  rw [modify, modify, modify, List.modify_modify_eq]
  congr 2
  funext cell
  exact Option.map_map _ _ _

@[simp] theorem modify_id : mem.modify ptr id = mem := by
  rw [modify, show (fun cell : Option α => cell.map id) = id from Option.map_id, List.modify_id]

theorem get_free : (mem.free ptr).get ptr' = if ptr' = ptr then none else mem.get ptr' := by
  by_cases same : ptr' = ptr
  · subst same
    rw [if_pos rfl, get, free, List.getElem?_set_self']
    cases mem.cells[ptr']? <;> rfl
  · rw [if_neg same, get, free, List.getElem?_set_ne (Ne.symm same), get]

@[simp] theorem get_free_self : (mem.free ptr).get ptr = none := by simp [get_free]

theorem get_free_ne (other : ptr' ≠ ptr) : (mem.free ptr).get ptr' = mem.get ptr' := by
  simp [get_free, other]

@[simp] theorem get_clear : mem.clear.get ptr = none := by
  rw [get, clear, List.getElem?_map]
  cases mem.cells[ptr]? <;> rfl

/-! ## Counting -/

variable {p : α → Bool}

@[simp] theorem count_empty : (empty : Cells α).count p = 0 := rfl

@[simp] theorem count_clear : mem.clear.count p = 0 := by
  rw [count, clear, List.countP_eq_zero]
  intro cell member
  obtain ⟨_, -, rfl⟩ := List.mem_map.mp member
  simp

theorem count_push : (mem.push value).count p = mem.count p + if p value then 1 else 0 := by
  simp [count, push, List.countP_append, List.countP_cons]

private theorem countP_set {β : Type} (q : β → Bool) {cells : List β} {cell : β}
    (here : cells[ptr]? = some cell) (new : β) :
    (cells.set ptr new).countP q + (if q cell then 1 else 0) =
      cells.countP q + if q new then 1 else 0 := by
  induction cells generalizing ptr with
  | nil => simp at here
  | cons head tail ih =>
      cases ptr with
      | zero =>
          obtain rfl : head = cell := by simpa using here
          simp only [List.set_cons_zero, List.countP_cons]
          omega
      | succ ptr =>
          have rest := ih (by simpa using here)
          simp only [List.set_cons_succ, List.countP_cons]
          omega

private theorem cell_of_get (allocated : mem.get ptr = some value) :
    mem.cells[ptr]? = some (some value) := by
  cases cell : mem.cells[ptr]? with
  | none => simp [get, cell] at allocated
  | some cell' => simpa [get, cell] using allocated

theorem count_free (allocated : mem.get ptr = some value) :
    (mem.free ptr).count p + (if p value then 1 else 0) = mem.count p := by
  simpa [count, free] using countP_set (·.any p) (cell_of_get allocated) none

theorem count_modify {change : α → α} (allocated : mem.get ptr = some value) :
    (mem.modify ptr change).count p + (if p value then 1 else 0) =
      mem.count p + if p (change value) then 1 else 0 := by
  have cell := cell_of_get allocated
  obtain ⟨inside, here⟩ := List.getElem?_eq_some_iff.mp cell
  have changed : mem.cells.modify ptr (·.map change) = mem.cells.set ptr (some (change value)) := by
    simp [List.modify_eq_set_getElem?, cell]
  simpa [count, modify, changed] using countP_set (·.any p) cell (some (change value))

/-- Where nothing is allocated there is nothing to free. -/
theorem count_free_none (unallocated : mem.get ptr = none) :
    (mem.free ptr).count p = mem.count p := by
  cases cell : mem.cells[ptr]? with
  | none => simp [count, free, List.set_eq_of_length_le (List.getElem?_eq_none_iff.mp cell)]
  | some cell' =>
      obtain rfl : cell' = none := by simpa [get, cell] using unallocated
      simpa [count, free] using countP_set (·.any p) cell none

theorem modify_none {change : α → α} (unallocated : mem.get ptr = none) :
    mem.modify ptr change = mem := by
  rw [get, Option.join_eq_none_iff] at unallocated
  refine congrArg mk (List.ext_getElem? fun i => ?_)
  rw [List.getElem?_modify]
  split_ifs with here
  · subst here
    rcases unallocated with outside | freed
    · simp [outside]
    · simp [freed]
  · exact Option.map_id'

/-- A change that `p` does not see. -/
theorem count_modify_of_same {change : α → α} (same : ∀ value, p (change value) = p value) :
    (mem.modify ptr change).count p = mem.count p := by
  cases allocated : mem.get ptr with
  | none => rw [modify_none allocated]
  | some value =>
      have counted : (mem.modify ptr change).count p + (if p value then 1 else 0) =
          mem.count p + if p (change value) then 1 else 0 := count_modify allocated
      rw [same] at counted
      exact Nat.add_right_cancel counted

end Cells
