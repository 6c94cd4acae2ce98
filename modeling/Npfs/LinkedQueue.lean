import Npfs.LinkedChain

/-!
# Queues of links

A queue is a chain of links with a pointer to its first and to its last element.  An element is
linked in behind the last one and taken out at the front.
-/

namespace LinkedQueue

open LinkedChain

variable {α : Type} {next next' : α → Option α} {first last : Option α} {queue : List α}

/-- The two pointers and the links hold these elements. -/
structure Holds (next : α → Option α) (first last : Option α) (queue : List α) : Prop where
  path : Path next first queue
  last : last = queue.getLast?

namespace Holds

theorem empty : Holds next none none [] := ⟨.nil, rfl⟩

theorem first_eq (holds : Holds next first last queue) : first = queue.head? := by
  cases holds.path with
  | nil => rfl
  | cons tail => rfl

theorem nil_of_none (holds : Holds next none last queue) : queue = [] := by
  cases holds.path with
  | nil => rfl

theorem nodup (holds : Holds next first last queue) : queue.Nodup := holds.path.nodup

/-- Links outside of the queue do not matter to it. -/
theorem congr (holds : Holds next first last queue) (same : ∀ p ∈ queue, next' p = next p) :
    Holds next' first last queue :=
  ⟨holds.path.congr same, holds.last⟩

/-- Take the first element out. -/
theorem pop [DecidableEq α] {p : α} {rest : List α} (holds : Holds next first last (p :: rest)) :
    Holds next (next p) (if last = some p then none else last) rest := by
  have once := List.nodup_cons.mp holds.nodup
  cases holds.path with
  | cons tail =>
      refine ⟨tail, ?_⟩
      rw [holds.last]
      cases rest with
      | nil => simp
      | cons q rest =>
          have behind : (p :: q :: rest).getLast? = (q :: rest).getLast? := by simp
          rw [behind, if_neg]
          intro same
          exact once.1 (List.mem_of_getLast? same)

/-- Link an element in behind the last one. -/
theorem push {p : α} (holds : Holds next first last queue) (ends : next' p = none)
    (linked : ∀ q, last = some q → next' q = some p)
    (same : ∀ q ∈ queue, last ≠ some q → next' q = next q) :
    Holds next' (if last = none then some p else first) (some p) (queue ++ [p]) := by
  refine ⟨?_, by simp⟩
  obtain ⟨path, rfl⟩ := holds
  induction path with
  | nil => exact .cons (by rw [ends]; exact .nil)
  | @cons q rest tail ih =>
      rw [List.getLast?_cons, if_neg (by simp)]
      apply Path.cons
      cases rest with
      | nil =>
          have link : next' q = some p := linked q rfl
          rw [link]
          exact .cons (by rw [ends]; exact .nil)
      | cons r rest =>
          have once := (Path.cons tail).nodup
          have kept : next' q = next q := by
            apply same q List.mem_cons_self
            rw [List.getLast?_cons_cons]
            intro found
            exact (List.nodup_cons.mp once).1 (List.mem_of_getLast? found)
          have rest := ih (fun s is => linked s (by rwa [List.getLast?_cons_cons]))
            fun s member other =>
              same s (List.mem_cons_of_mem _ member) (by rwa [List.getLast?_cons_cons])
          rw [List.getLast?_cons, if_neg (by simp)] at rest
          rw [kept]
          exact rest

end Holds

end LinkedQueue
