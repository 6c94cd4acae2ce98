import Mathlib.Tactic

/-!
# Traces of lock operations

What a thread does to mutexes that are not recursive.  `run` follows the set of mutexes that the
thread holds, and ends in `none` when the thread locks one that it holds or unlocks one that it does
not hold.  `KeepsIff` says when a trace leaves that set as it is; the parts of a trace are put
together by its rules.
-/

/-- An operation on a mutex. -/
inductive LockOp (Mutex : Type) where
  | lock (m : Mutex)
  | unlock (m : Mutex)
  /-- Wait for a condition: the mutex is released and taken again. -/
  | wait (m : Mutex)
  /-- The mutex ceases to exist. -/
  | destroy (m : Mutex)
  deriving DecidableEq

namespace LockOp

variable {Mutex : Type} [DecidableEq Mutex]

/-- The mutexes held after one operation. -/
def apply (held : Finset Mutex) : LockOp Mutex → Option (Finset Mutex)
  | .lock m => if m ∈ held then none else some (insert m held)
  | .unlock m => if m ∈ held then some (held.erase m) else none
  | .wait m => if m ∈ held then some held else none
  | .destroy m => some (held.erase m)

/-- The mutexes held after a trace. -/
def run : List (LockOp Mutex) → Finset Mutex → Option (Finset Mutex)
  | [], held => some held
  | op :: trace, held => (apply held op).bind (run trace)

/-- A mutex is locked around a part of a trace. -/
def within (m : Mutex) (trace : List (LockOp Mutex)) : List (LockOp Mutex) :=
  .lock m :: (trace ++ [LockOp.unlock m])

/-- A mutex is locked for a part of a trace, and destroyed behind it. -/
def consuming (m : Mutex) (trace : List (LockOp Mutex)) : List (LockOp Mutex) :=
  .lock m :: (trace ++ [LockOp.destroy m])

/-- A mutex that is held is released around a part of a trace. -/
def without (m : Mutex) (trace : List (LockOp Mutex)) : List (LockOp Mutex) :=
  .unlock m :: (trace ++ [LockOp.lock m])

attribute [local simp] apply within consuming without

variable {held : Finset Mutex} {m : Mutex} {trace rest : List (LockOp Mutex)} {p q : Prop}

@[simp] theorem run_nil : run [] held = some held := rfl

theorem run_cons (op : LockOp Mutex) : run (op :: trace) held = (apply held op).bind (run trace) :=
  rfl

theorem run_append : run (trace ++ rest) held = (run trace held).bind (run rest) := by
  induction trace generalizing held with
  | nil => rfl
  | cons op trace ih =>
      simp only [List.cons_append, run_cons, Option.bind_assoc]
      cases apply held op with
      | none => rfl
      | some held => exact ih

/-- Where the condition holds the trace ends with the locks held with which it began, and elsewhere
it goes wrong. -/
structure KeepsIff (p : Prop) (trace : List (LockOp Mutex)) (held : Finset Mutex) : Prop where
  keeps : p → run trace held = some held
  stuck : ¬p → run trace held = none

/-- The trace ends with the locks held with which it began. -/
abbrev Keeps (trace : List (LockOp Mutex)) (held : Finset Mutex) : Prop := KeepsIff True trace held

theorem keeps_of_run (same : run trace held = some held) : Keeps trace held :=
  ⟨fun _ => same, fun no => absurd trivial no⟩

theorem keeps_nil : Keeps [] held := keeps_of_run rfl

namespace KeepsIff

theorem iff (h : KeepsIff p trace held) : run trace held = some held ↔ p := by
  refine ⟨fun same => ?_, h.keeps⟩
  by_contra no
  rw [h.stuck no] at same
  cases same

theorem congr (h : KeepsIff p trace held) (same : p ↔ q) : KeepsIff q trace held :=
  ⟨fun yes => h.keeps (same.mpr yes), fun no => h.stuck (mt same.mp no)⟩

theorem append (first : KeepsIff p trace held) (second : KeepsIff q rest held) :
    KeepsIff (p ∧ q) (trace ++ rest) held := by
  by_cases yes : p
  · refine ⟨fun both => ?_, fun no => ?_⟩
    · rw [run_append, first.keeps yes]
      exact second.keeps both.2
    · rw [run_append, first.keeps yes]
      exact second.stuck fun yes' => no ⟨yes, yes'⟩
  · refine ⟨fun both => absurd both.1 yes, fun _ => ?_⟩
    rw [run_append, first.stuck yes]
    rfl

/-- In front of what has a condition of its own. -/
theorem before (first : Keeps trace held) (second : KeepsIff q rest held) :
    KeepsIff q (trace ++ rest) held :=
  (first.append second).congr (iff_of_eq (true_and q))

/-- Behind what has a condition of its own. -/
theorem behind (first : KeepsIff p trace held) (second : Keeps rest held) :
    KeepsIff p (trace ++ rest) held :=
  (first.append second).congr (iff_of_eq (and_true p))

theorem within (inside : KeepsIff p trace (insert m held)) (free : m ∉ held) :
    KeepsIff p (within m trace) held := by
  constructor
  · intro yes
    simp [run_cons, free, run_append, inside.keeps yes, Finset.erase_insert free]
  · intro no
    simp [run_cons, free, run_append, inside.stuck no]

theorem consuming (inside : Keeps trace (insert m held)) (free : m ∉ held) :
    Keeps (consuming m trace) held := by
  apply keeps_of_run
  simp [run_cons, free, run_append, inside.keeps trivial, Finset.erase_insert free]

theorem without (outside : KeepsIff p trace (held.erase m)) (mem : m ∈ held) :
    KeepsIff p (without m trace) held := by
  constructor
  · intro yes
    simp [run_cons, mem, run_append, outside.keeps yes, Finset.insert_erase mem]
  · intro no
    simp [run_cons, mem, run_append, outside.stuck no]

/-- Nothing comes behind what goes wrong. -/
theorem never (first : KeepsIff False trace held) : KeepsIff False (trace ++ rest) held :=
  ⟨False.elim, fun no => by rw [run_append, first.stuck no]; rfl⟩

/-- A loop, each pass of which has its condition. -/
theorem flatMap {α : Type} {f : α → List (LockOp Mutex)} {cond : α → Prop} {l : List α}
    (each : ∀ a ∈ l, KeepsIff (cond a) (f a) held) :
    KeepsIff (∀ a ∈ l, cond a) (l.flatMap f) held := by
  induction l with
  | nil => exact keeps_nil.congr (by simp)
  | cons a l ih =>
      have rest := ih fun b mem => each b (List.mem_cons_of_mem _ mem)
      exact ((each a List.mem_cons_self).append rest).congr List.forall_mem_cons.symm

/-- Behind any trace that leaves the locks as they are, a mutex that is not held is unlocked. -/
theorem unlock_free (first : KeepsIff p trace held) (free : m ∉ held) :
    KeepsIff False (trace ++ .unlock m :: rest) held := by
  refine ⟨False.elim, fun _ => ?_⟩
  by_cases yes : p
  · simp [run_append, first.keeps yes, run_cons, free]
  · simp [run_append, first.stuck yes]

end KeepsIff

/-- A loop, no pass of which goes wrong. -/
theorem keeps_flatMap {α : Type} {f : α → List (LockOp Mutex)} {l : List α}
    (each : ∀ a ∈ l, Keeps (f a) held) : Keeps (l.flatMap f) held :=
  (KeepsIff.flatMap each).congr (by simp)

theorem keeps_within_of_mem (mem : m ∈ held) : KeepsIff False (within m trace) held :=
  ⟨False.elim, fun _ => by simp [run_cons, mem]⟩

/-- A critical section with no lock operation in it. -/
theorem keeps_section (free : m ∉ held) : Keeps (within m []) held := keeps_nil.within free

theorem keeps_wait (mem : m ∈ held) : Keeps [.wait m] held :=
  keeps_of_run (by simp [run, mem])

theorem keeps_destroy (free : m ∉ held) : Keeps [.destroy m] held :=
  keeps_of_run (by simp [run, free])

end LockOp
