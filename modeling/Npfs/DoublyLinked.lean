import Npfs.LinkedChain

/-!
# Doubly linked lists

Every node has a link to the next node of its list and one to the node before it.
`Joined l before chain` says that the nodes of `chain` are linked in this order and that the first
of them has the back link `before`; the links of all other nodes are free.
-/

namespace DoublyLinked

/-- The link fields of all nodes. -/
structure Links (α : Type) where
  next : α → Option α
  prev : α → Option α

variable {α : Type}

/-- The nodes of `chain` are linked to each other in both directions. -/
def Joined (l : Links α) : Option α → List α → Prop
  | _, [] => True
  | before, p :: rest => l.prev p = before ∧ l.next p = rest.head? ∧ Joined l (some p) rest

variable {l l' : Links α} {before before' : Option α} {chain front back : List α} {p : α}

@[simp] theorem joined_nil : Joined l before [] := trivial

@[simp] theorem joined_cons : Joined l before (p :: chain) ↔
    l.prev p = before ∧ l.next p = chain.head? ∧ Joined l (some p) chain := Iff.rfl

namespace Joined

/-- The forward links of a list are a chain that ends. -/
theorem path (joined : Joined l before chain) : LinkedChain.Path l.next chain.head? chain := by
  induction chain generalizing before with
  | nil => exact .nil
  | cons p rest ih =>
      have tail := ih joined.2.2
      rw [← joined.2.1] at tail
      exact .cons tail

theorem nodup (joined : Joined l before chain) : chain.Nodup := joined.path.nodup

/-- The links of each node in a list. -/
theorem at_ (joined : Joined l before (front ++ p :: back)) :
    l.prev p = front.getLast?.or before ∧ l.next p = back.head? := by
  induction front generalizing before with
  | nil => exact ⟨joined.1, joined.2.1⟩
  | cons first front ih =>
      obtain ⟨prev, next⟩ := ih joined.2.2
      refine ⟨?_, next⟩
      rw [prev, List.getLast?_cons]
      cases front.getLast? <;> rfl

theorem prev_eq (joined : Joined l before (front ++ p :: back)) :
    l.prev p = front.getLast?.or before := joined.at_.1

theorem next_eq (joined : Joined l before (front ++ p :: back)) : l.next p = back.head? :=
  joined.at_.2

/-- Links of other nodes do not matter to a list. -/
theorem congr (joined : Joined l before chain) (next : ∀ q ∈ chain, l'.next q = l.next q)
    (prev : ∀ q ∈ chain, l'.prev q = l.prev q) : Joined l' before chain := by
  induction chain generalizing before with
  | nil => trivial
  | cons p rest ih =>
      refine ⟨(prev p List.mem_cons_self).trans joined.1,
        (next p List.mem_cons_self).trans joined.2.1, ?_⟩
      exact ih joined.2.2 (fun q mem => next q (List.mem_cons_of_mem _ mem))
        fun q mem => prev q (List.mem_cons_of_mem _ mem)

variable [DecidableEq α]

/-- Only the back link of the first node depends on what is before the list. -/
theorem rebase (joined : Joined l before chain) (next : ∀ q ∈ chain, l'.next q = l.next q)
    (prev : ∀ q ∈ chain, l'.prev q = if chain.head? = some q then before' else l.prev q) :
    Joined l' before' chain := by
  cases chain with
  | nil => trivial
  | cons p rest =>
      have once := joined.nodup
      refine ⟨by simpa using prev p List.mem_cons_self,
        (next p List.mem_cons_self).trans joined.2.1, ?_⟩
      refine joined.2.2.congr (fun q mem => next q (List.mem_cons_of_mem _ mem)) fun q mem => ?_
      have apart : p ≠ q := by
        rintro rfl
        exact (List.nodup_cons.mp once).1 mem
      simpa [apart] using prev q (List.mem_cons_of_mem _ mem)

/-- A new node goes in front of a list. -/
theorem push (joined : Joined l none chain) (first : l'.prev p = none ∧ l'.next p = chain.head?)
    (next : ∀ q ∈ chain, l'.next q = l.next q)
    (prev : ∀ q ∈ chain, l'.prev q = if chain.head? = some q then some p else l.prev q) :
    Joined l' none (p :: chain) :=
  ⟨first.1, first.2, joined.rebase next prev⟩

/-- A new node goes behind a list. -/
theorem append (joined : Joined l before chain)
    (last : l'.prev p = chain.getLast?.or before ∧ l'.next p = none)
    (next : ∀ q ∈ chain, l'.next q = if chain.getLast? = some q then some p else l.next q)
    (prev : ∀ q ∈ chain, l'.prev q = l.prev q) : Joined l' before (chain ++ [p]) := by
  induction chain generalizing before with
  | nil => simpa using last
  | cons first rest ih =>
      have once := List.nodup_cons.mp joined.nodup
      have back : l'.prev p = rest.getLast?.or (some first) := by
        rw [last.1, List.getLast?_cons]
        cases rest.getLast? <;> rfl
      have tail : Joined l' (some first) (rest ++ [p]) := by
        refine ih joined.2.2 ⟨back, last.2⟩ (fun q mem => ?_) fun q mem =>
          prev q (List.mem_cons_of_mem _ mem)
        have nonempty : rest ≠ [] := List.ne_nil_of_mem mem
        rw [next q (List.mem_cons_of_mem _ mem), List.getLast?_cons_of_ne_nil nonempty]
      refine ⟨(prev first List.mem_cons_self).trans joined.1, ?_, tail⟩
      rw [next first List.mem_cons_self]
      cases rest with
      | nil => simp
      | cons second rest =>
          have apart : (second :: rest).getLast? ≠ some first := fun same =>
            once.1 (List.mem_of_getLast? same)
          rw [List.getLast?_cons_cons, if_neg apart, joined.2.1]
          rfl

/-- A node leaves a list, and its neighbours are linked to each other. -/
theorem unlink (joined : Joined l before (front ++ p :: back))
    (apart : ∀ q ∈ front ++ p :: back, before ≠ some q)
    (next : ∀ q ∈ front ++ back, l'.next q = if l.prev p = some q then l.next p else l.next q)
    (prev : ∀ q ∈ front ++ back, l'.prev q = if l.next p = some q then l.prev p else l.prev q) :
    Joined l' before (front ++ back) := by
  induction front generalizing before with
  | nil =>
      refine Joined.rebase joined.2.2 (fun q mem => ?_) fun q mem => ?_
      · have other : l.prev p ≠ some q := by
          rw [joined.1]
          exact apart q (by simp [show q ∈ back from mem])
        rw [next q mem, if_neg other]
      · rw [prev q mem, joined.2.1, joined.1]
        rfl
  | cons first front ih =>
      have once := List.nodup_cons.mp joined.nodup
      have links := joined.at_
      have tail : Joined l' (some first) (front ++ back) := by
        refine ih joined.2.2 (fun q mem => ?_) (fun q mem => next q (List.mem_cons_of_mem _ mem))
          fun q mem => prev q (List.mem_cons_of_mem _ mem)
        rintro ⟨⟩
        exact once.1 mem
      refine ⟨?_, ?_, tail⟩
      · rw [prev first List.mem_cons_self, joined.1]
        refine if_neg ?_
        rw [links.2]
        intro same
        exact once.1 (List.mem_append_right _ (List.mem_cons_of_mem _ (List.mem_of_head? same)))
      · rw [next first List.mem_cons_self, links.1, links.2, joined.2.1]
        cases front with
        | nil => simp
        | cons second front =>
            rw [List.getLast?_cons_cons]
            refine if_neg ?_
            intro same
            have last : (second :: front).getLast? = some first := by
              cases found : (second :: front).getLast? with
              | none => simp at found
              | some q => simpa [found] using same
            exact once.1 (List.mem_append_left _ (List.mem_of_getLast? last))

/-- A node leaves a list.  The back link of the first node stays as it is, unless that node leaves:
then nothing may be before it. -/
theorem unlink_behind (joined : Joined l before (front ++ p :: back))
    (free : front = [] → before = none)
    (next : ∀ q ∈ front ++ back, l'.next q = if l.prev p = some q then l.next p else l.next q)
    (prev : ∀ q ∈ front ++ back, l'.prev q = if l.next p = some q then l.prev p else l.prev q) :
    Joined l' before (front ++ back) := by
  cases front with
  | nil =>
      rw [free rfl] at joined ⊢
      exact joined.unlink (by simp) next prev
  | cons first front =>
      have once := joined.nodup
      obtain ⟨links, further⟩ := joined.at_
      simp only [List.cons_append, List.nodup_cons, List.mem_append, List.mem_cons, not_or] at once
      have tail : Joined l' (some first) (front ++ back) := by
        refine joined.2.2.unlink ?_ (fun q mem => next q (List.mem_cons_of_mem _ mem))
          fun q mem => prev q (List.mem_cons_of_mem _ mem)
        rintro q mem ⟨⟩
        simp only [List.mem_append, List.mem_cons] at mem
        exact mem.elim once.1.1 (not_or.mpr once.1.2)
      refine ⟨?_, ?_, tail⟩
      · have apart : l.next p ≠ some first := fun head =>
          once.1.2.2 (List.mem_of_head? (further ▸ head))
        rw [prev first List.mem_cons_self, if_neg apart, joined.1]
      · rw [next first List.mem_cons_self, links, further, joined.2.1]
        cases front with
        | nil => simp
        | cons second front =>
            have apart : (second :: front).getLast? ≠ some first := fun last =>
              once.1.1 (List.mem_of_getLast? last)
            rw [List.getLast?_cons_cons, Option.or_of_isSome (by simp), if_neg apart]
            rfl

end Joined

/-! ## Assignments -/

section Assignments

variable [DecidableEq α]

/-- `p->next = v`, if there is a `p`. -/
def Links.setNext (l : Links α) (p v : Option α) : Links α :=
  { l with next := fun q => if p = some q then v else l.next q }

/-- `p->prev = v`, if there is a `p`. -/
def Links.setPrev (l : Links α) (p v : Option α) : Links α :=
  { l with prev := fun q => if p = some q then v else l.prev q }

variable {p v : Option α} {q : α}

theorem Links.next_setNext : (l.setNext p v).next q = if p = some q then v else l.next q := rfl

@[simp] theorem Links.prev_setNext : (l.setNext p v).prev q = l.prev q := rfl

theorem Links.prev_setPrev : (l.setPrev p v).prev q = if p = some q then v else l.prev q := rfl

@[simp] theorem Links.next_setPrev : (l.setPrev p v).next q = l.next q := rfl

/-- `if (p->prev) p->prev->next = p->next; if (p->next) p->next->prev = p->prev`. -/
def Links.unlink (l : Links α) (p : α) : Links α :=
  let l := l.setNext (l.prev p) (l.next p)
  l.setPrev (l.next p) (l.prev p)

theorem Links.next_unlink (p : α) :
    (l.unlink p).next q = if l.prev p = some q then l.next p else l.next q := rfl

theorem Links.prev_unlink (p : α) :
    (l.unlink p).prev q = if l.next p = some q then l.prev p else l.prev q := by
  simp [unlink, prev_setPrev, next_setNext]

/-- The two assignments of `unlink` may be made in either order. -/
theorem Links.unlink_comm (p : α) :
    (let l := l.setPrev (l.next p) (l.prev p)
     l.setNext (l.prev p) (l.next p)) = l.unlink p := by
  simp [unlink, setNext, setPrev]

/-- A node leaves a list that nothing is before. -/
theorem Joined.removed {p : α} (joined : Joined l none (front ++ p :: back)) :
    Joined (l.unlink p) none (front ++ back) :=
  joined.unlink (by simp) (fun _ _ => Links.next_unlink p) fun _ _ => Links.prev_unlink p

end Assignments

end DoublyLinked
