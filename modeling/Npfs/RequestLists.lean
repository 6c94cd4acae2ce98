import Npfs.DoublyLinked

/-!
# The lists of requests

The list of pending requests and the list of working requests of an `Npsrv`, over the `next` and
`prev` fields that both use, and the four functions of `libnpfs/srv.c` that change them.  None of
them clears the fields of a request that it removes.
-/

namespace Npfs.Requests

open DoublyLinked

/-- The fields of an `Npsrv` and its requests that make the lists. -/
structure Lists where
  /-- `req->next` and `req->prev`, by the address of the request. -/
  links : Links ℕ
  reqsFirst : Option ℕ
  reqsLast : Option ℕ
  workreqs : Option ℕ

namespace Lists

variable (l : Lists) (req : ℕ)

/-- `np_srv_add_req`. -/
def npSrvAddReq : Lists :=
  { l with
    links := (l.links.setPrev (some req) l.reqsLast).setNext l.reqsLast (some req)
    reqsLast := some req
    reqsFirst := if l.reqsFirst = none then some req else l.reqsFirst }

/-- `np_srv_remove_req`. -/
def npSrvRemoveReq : Lists :=
  let links := l.links.unlink req
  { l with
    links
    reqsFirst := if l.reqsFirst = some req then links.next req else l.reqsFirst
    reqsLast := if l.reqsLast = some req then links.prev req else l.reqsLast }

/-- `np_srv_add_workreq`. -/
def npSrvAddWorkreq : Lists :=
  let links := l.links.setPrev l.workreqs (some req)
  { l with
    links := (links.setNext (some req) l.workreqs).setPrev (some req) none
    workreqs := some req }

/-- `np_srv_remove_workreq`. -/
def npSrvRemoveWorkreq : Lists :=
  { l with
    links := l.links.unlink req
    workreqs := if l.links.prev req = none then l.links.next req else l.workreqs }

/-- `req->next = next`. -/
def putNext (next : Option ℕ) : Lists := { l with links := l.links.setNext (some req) next }

/-- `np_req_alloc` clears both fields. -/
def clear : Lists :=
  { l with links := (l.links.setNext (some req) none).setPrev (some req) none }

/-- The requests at these addresses are the pending ones, in order, and the working ones. -/
structure Shaped (l : Lists) (pending working : List ℕ) : Prop where
  queued : Joined l.links none pending
  first : l.reqsFirst = pending.head?
  last : l.reqsLast = pending.getLast?
  served : Joined l.links none working
  head : l.workreqs = working.head?
  apart : ∀ q ∈ pending, q ∉ working

variable {l req} {l' : Lists} {pending working front back : List ℕ} {q : ℕ}

theorem next_clear : (l.clear req).links.next req = none := by
  simp [clear, Links.next_setNext]

theorem next_clear_of_ne (other : q ≠ req) :
    (l.clear req).links.next q = l.links.next q := by
  simp [clear, Links.next_setNext, Ne.symm other]

theorem next_putNext_of_ne (other : q ≠ req) {next : Option ℕ} :
    (l.putNext req next).links.next q = l.links.next q := by
  simp [putNext, Links.next_setNext, Ne.symm other]

namespace Shaped

theorem nodup (shaped : l.Shaped pending working) : (pending ++ working).Nodup :=
  List.nodup_append.mpr ⟨shaped.queued.nodup, shaped.served.nodup,
    fun _ mem _ mem' same => shaped.apart _ mem (same ▸ mem')⟩

/-- Fields of other requests do not matter. -/
theorem congr (shaped : l.Shaped pending working)
    (next : ∀ q ∈ pending ++ working, l'.links.next q = l.links.next q)
    (prev : ∀ q ∈ pending ++ working, l'.links.prev q = l.links.prev q)
    (first : l'.reqsFirst = l.reqsFirst) (last : l'.reqsLast = l.reqsLast)
    (head : l'.workreqs = l.workreqs) : l'.Shaped pending working where
  queued := shaped.queued.congr (fun q mem => next q (List.mem_append_left _ mem))
    fun q mem => prev q (List.mem_append_left _ mem)
  first := first.trans shaped.first
  last := last.trans shaped.last
  served := shaped.served.congr (fun q mem => next q (List.mem_append_right _ mem))
    fun q mem => prev q (List.mem_append_right _ mem)
  head := head.trans shaped.head
  apart := shaped.apart

theorem putNext (shaped : l.Shaped pending working) (out : req ∉ pending ++ working)
    (next : Option ℕ) : (l.putNext req next).Shaped pending working := by
  refine shaped.congr (fun q mem => ?_) (fun q mem => rfl) rfl rfl rfl
  have other : req ≠ q := fun same => out (same ▸ mem)
  simp [Lists.putNext, Links.next_setNext, other]

theorem clear (shaped : l.Shaped pending working) (out : req ∉ pending ++ working) :
    (l.clear req).Shaped pending working := by
  refine shaped.congr (fun q mem => ?_) (fun q mem => ?_) rfl rfl rfl
  · have other : req ≠ q := fun same => out (same ▸ mem)
    simp [Lists.clear, Links.next_setNext, other]
  · have other : req ≠ q := fun same => out (same ▸ mem)
    simp [Lists.clear, Links.prev_setPrev, other]

/-- A new request becomes the last pending one. -/
theorem addReq (shaped : l.Shaped pending working) (out : req ∉ pending ++ working)
    (new : l.links.next req = none) : (l.npSrvAddReq req).Shaped (pending ++ [req]) working := by
  obtain ⟨idle, waiting⟩ : req ∉ pending ∧ req ∉ working := by simpa using out
  have idle' : ∀ q ∈ pending, req ≠ q := fun q mem same => idle (same ▸ mem)
  have waiting' : ∀ q ∈ working, req ≠ q := fun q mem same => waiting (same ▸ mem)
  have next : ∀ q, (l.npSrvAddReq req).links.next q =
      if l.reqsLast = some q then some req else l.links.next q := fun q => rfl
  have prev : ∀ q, (l.npSrvAddReq req).links.prev q =
      if req = q then l.reqsLast else l.links.prev q := by
    intro q
    simp [npSrvAddReq, Links.prev_setPrev]
  have tail : l.reqsLast ≠ some req := by
    rw [shaped.last]
    exact fun last => idle (List.mem_of_getLast? last)
  exact
    { queued := by
        refine shaped.queued.append ⟨?_, ?_⟩ (fun q mem => ?_) fun q mem => ?_
        · rw [prev, if_pos rfl, shaped.last, Option.or_none]
        · rw [next, if_neg tail, new]
        · rw [next, shaped.last]
        · rw [prev, if_neg (idle' q mem)]
      first := by
        rw [List.head?_append, ← shaped.first]
        cases first : l.reqsFirst <;> simp [npSrvAddReq, first]
      last := by simp [npSrvAddReq]
      served := by
        refine shaped.served.congr (fun q mem => ?_) fun q mem => ?_
        · have other : l.reqsLast ≠ some q := by
            rw [shaped.last]
            exact fun last => shaped.apart q (List.mem_of_getLast? last) mem
          rw [next, if_neg other]
        · rw [prev, if_neg (waiting' q mem)]
      head := shaped.head
      apart := fun q mem => by
        rcases List.mem_append.mp mem with mem | mem
        · exact shaped.apart q mem
        · rw [List.mem_singleton.mp mem]
          exact waiting }

/-- Taking a request out of one list does not touch the requests of another. -/
theorem unlink_other {other : List ℕ} (joined : Joined l.links none (front ++ req :: back))
    (joined' : Joined l.links none other) (apart : ∀ q ∈ front ++ req :: back, q ∉ other) :
    Joined (l.links.unlink req) none other := by
  refine joined'.congr (fun q mem => ?_) fun q mem => ?_
  · have before : l.links.prev req ≠ some q := by
      rw [joined.prev_eq, Option.or_none]
      intro last
      exact apart q (List.mem_append_left _ (List.mem_of_getLast? last)) mem
    rw [Links.next_unlink, if_neg before]
  · have after : l.links.next req ≠ some q := by
      rw [joined.next_eq]
      intro first
      exact apart q (List.mem_append_right _
        (List.mem_cons_of_mem _ (List.mem_of_head? first))) mem
    rw [Links.prev_unlink, if_neg after]

/-- The fields of a request that is taken out stay as they are. -/
theorem unlink_self (joined : Joined l.links none (front ++ req :: back)) :
    (l.links.unlink req).next req = back.head? ∧
      (l.links.unlink req).prev req = front.getLast? := by
  have once := joined.nodup
  simp only [List.nodup_append, List.nodup_cons, List.mem_cons] at once
  have before : l.links.prev req ≠ some req := by
    rw [joined.prev_eq, Option.or_none]
    exact fun last => once.2.2 req (List.mem_of_getLast? last) req (.inl rfl) rfl
  have after : l.links.next req ≠ some req := by
    rw [joined.next_eq]
    exact fun first => once.2.1.1 (List.mem_of_head? first)
  rw [Links.next_unlink, if_neg before, Links.prev_unlink, if_neg after, joined.next_eq,
    joined.prev_eq, Option.or_none]
  exact ⟨rfl, rfl⟩

/-- Any pending request may leave: the others stay in order. -/
theorem removeReq (shaped : l.Shaped (front ++ req :: back) working) :
    (l.npSrvRemoveReq req).Shaped (front ++ back) working where
  queued := shaped.queued.removed
  first := by
    have once := shaped.queued.nodup
    have self := unlink_self shaped.queued
    simp only [npSrvRemoveReq, shaped.first, self]
    cases front with
    | nil => simp
    | cons first front =>
        have other : first ≠ req := by
          rintro rfl
          simp at once
        simp [other]
  last := by
    have once := shaped.queued.nodup
    have self := unlink_self shaped.queued
    simp only [npSrvRemoveReq, shaped.last, self]
    cases back with
    | nil => simp
    | cons second back =>
        have other : (second :: back).getLast? ≠ some req := by
          intro last
          have mem := List.mem_of_getLast? last
          simp only [List.nodup_append, List.nodup_cons] at once
          exact once.2.1.1 mem
        have last : ∀ f : List ℕ, (f ++ second :: back).getLast? = (second :: back).getLast? := by
          intro f
          rw [List.getLast?_append, List.getLast?_cons]
          rfl
        have ends : (front ++ req :: second :: back).getLast? = (second :: back).getLast? := by
          rw [List.append_cons, last]
        rw [ends, if_neg other, last]
  served := unlink_other shaped.queued shaped.served shaped.apart
  head := shaped.head
  apart q mem := shaped.apart q (by
    rcases List.mem_append.mp mem with mem | mem
    · exact List.mem_append_left _ mem
    · exact List.mem_append_right _ (List.mem_cons_of_mem _ mem))

/-- A request becomes the first working one. -/
theorem addWorkreq (shaped : l.Shaped pending working) (out : req ∉ pending ++ working) :
    (l.npSrvAddWorkreq req).Shaped pending (req :: working) := by
  obtain ⟨idle, waiting⟩ : req ∉ pending ∧ req ∉ working := by simpa using out
  have idle' : ∀ q ∈ pending, req ≠ q := fun q mem same => idle (same ▸ mem)
  have waiting' : ∀ q ∈ working, req ≠ q := fun q mem same => waiting (same ▸ mem)
  have next : ∀ q, (l.npSrvAddWorkreq req).links.next q =
      if req = q then l.workreqs else l.links.next q := by
    intro q
    simp [npSrvAddWorkreq, Links.next_setNext]
  have prev : ∀ q, (l.npSrvAddWorkreq req).links.prev q =
      if req = q then none else if l.workreqs = some q then some req else l.links.prev q := by
    intro q
    simp [npSrvAddWorkreq, Links.prev_setPrev]
  exact
    { queued := by
        refine shaped.queued.congr (fun q mem => ?_) fun q mem => ?_
        · rw [next, if_neg (idle' q mem)]
        · have other : l.workreqs ≠ some q := by
            rw [shaped.head]
            exact fun head => shaped.apart q mem (List.mem_of_head? head)
          rw [prev, if_neg (idle' q mem), if_neg other]
      first := shaped.first
      last := shaped.last
      served := by
        refine shaped.served.push ⟨?_, ?_⟩ (fun q mem => ?_) fun q mem => ?_
        · rw [prev, if_pos rfl]
        · rw [next, if_pos rfl, shaped.head]
        · rw [next, if_neg (waiting' q mem)]
        · rw [prev, if_neg (waiting' q mem), shaped.head]
      head := rfl
      apart := fun q mem => by
        have other : q ≠ req := fun same => idle (same ▸ mem)
        simp [other, shaped.apart q mem] }

/-- Any working request may leave: the others stay in order. -/
theorem removeWorkreq (shaped : l.Shaped pending (front ++ req :: back)) :
    (l.npSrvRemoveWorkreq req).Shaped pending (front ++ back) where
  queued := unlink_other shaped.served shaped.queued fun q mem mem' => shaped.apart q mem' mem
  first := shaped.first
  last := shaped.last
  served := shaped.served.removed
  head := by
    simp only [npSrvRemoveWorkreq, shaped.head, shaped.served.prev_eq, shaped.served.next_eq,
      Option.or_none]
    cases front with
    | nil => simp
    | cons first front => simp [List.getLast?_cons]
  apart q mem mem' := shaped.apart q mem (by
    rcases List.mem_append.mp mem' with mem' | mem'
    · exact List.mem_append_left _ mem'
    · exact List.mem_append_right _ (List.mem_cons_of_mem _ mem'))

/-! ### The requests that are on neither list -/

theorem next_addReq (shaped : l.Shaped pending working) (out : q ∉ pending) :
    (l.npSrvAddReq req).links.next q = l.links.next q := by
  have other : l.reqsLast ≠ some q := by
    rw [shaped.last]
    exact fun last => out (List.mem_of_getLast? last)
  exact if_neg other

theorem next_unlink (joined : Joined l.links none (front ++ req :: back))
    (out : q ∉ front ++ req :: back) : (l.links.unlink req).next q = l.links.next q := by
  have other : l.links.prev req ≠ some q := by
    rw [joined.prev_eq, Option.or_none]
    exact fun last => out (List.mem_append_left _ (List.mem_of_getLast? last))
  rw [Links.next_unlink, if_neg other]

theorem next_addWorkreq (other : q ≠ req) :
    (l.npSrvAddWorkreq req).links.next q = l.links.next q := by
  simp [npSrvAddWorkreq, Links.next_setNext, Ne.symm other]

end Shaped

end Lists

end Npfs.Requests
