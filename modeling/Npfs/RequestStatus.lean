import Npfs.Requests

/-!
# The status of a request

At every moment a request is in one place: in the hands of one thread, on one list, or behind one
other request in a chain of flushes.  A status function says which, and `Consistent` says what the
fields of the server show of it.
-/

namespace Npfs.Requests

/-- What a request is to the thread that has it. -/
inductive Role where
  /-- Allocated, not yet queued. -/
  | entering
  /-- On the working list, not yet answered. -/
  | serving
  /-- The same, with `responded` set. -/
  | marking
  /-- Off the working list, not yet answered. -/
  | sending
  /-- Answered; the thread has the first reference and reads `flushreq` next. -/
  | rooting
  /-- Answered, with its `flushreq` read; the thread has the first reference. -/
  | tail
  /-- The flush that is answered next. -/
  | next
  /-- Answered and released; the thread reads `flushreq` next. -/
  | passing
  deriving DecidableEq

/-- Where a request is. -/
inductive Status (threads : Nat) where
  | unborn
  | queued
  | kept
  /-- A flush behind request `prev`. -/
  | chained (prev : ReqId)
  /-- A flush whose link was overwritten. -/
  | lost
  | cancelled
  | answered
  /-- In the hands of a thread. -/
  | hands (t : Fin threads) (role : Role)
  deriving DecidableEq

/-- The requests that a thread has at its position, with their roles. -/
def Pc.Has : Pc → ReqId → Role → Prop
  | .idle, _, _ => False
  | .flushed _, _, _ => False
  | .allocated req, r, role => r = req ∧ role = .entering
  | .serving req, r, role => r = req ∧ role = .serving
  | .respond req _, r, role => r = req ∧ role = .serving
  | .marked req _, r, role => r = req ∧ role = .marking
  | .unlinked req _, r, role => r = req ∧ role = .sending
  | .writing req _, r, role => r = req ∧ role = .sending
  | .responded req, r, role => r = req ∧ role = .rooting
  | .flushing req freq, r, role => r = req ∧ role = .tail ∨ r = freq ∧ role = .next
  | .flushWriting req freq, r, role => r = req ∧ role = .tail ∨ r = freq ∧ role = .next
  | .flushResponded req freq, r, role => r = req ∧ role = .tail ∨ r = freq ∧ role = .rooting
  | .released req freq, r, role => r = req ∧ role = .tail ∨ r = freq ∧ role = .passing
  | .finishing req, r, role => r = req ∧ role = .tail

theorem Pc.has_loop (req : ReqId) (freq : Option ReqId) (r : ReqId) (role : Role) :
    (Pc.loop req freq).Has r role ↔ r = req ∧ role = .tail ∨ freq = some r ∧ role = .next := by
  cases freq with
  | none => simp [Pc.loop, Pc.Has]
  | some freq => simp [Pc.loop, Pc.Has, eq_comm]

theorem Pc.loop_ne_flushed (req : ReqId) (freq : Option ReqId) (r : ReqId) :
    Pc.loop req freq ≠ .flushed r := by
  cases freq <;> simp [Pc.loop]

namespace Status

variable {threads : Nat}

/-- The first reference, from `np_req_alloc`, has not been dropped. -/
def based : Status threads → Bool
  | .unborn | .cancelled | .answered | .hands _ .passing => false
  | _ => true

/-- The `flushreq` field of the request's structure is still to be read. -/
def linked : Status threads → Bool
  | .unborn | .cancelled | .answered | .hands _ .tail => false
  | _ => true

/-- The request has its answer. -/
def logged : Status threads → Bool
  | .answered | .hands _ .rooting | .hands _ .tail | .hands _ .passing => true
  | _ => false

/-- The request has to be on the working list. -/
def mustWork : Status threads → Bool
  | .kept | .hands _ .serving | .hands _ .marking => true
  | _ => false

/-- The request may be on the working list. -/
def mayWork : Status threads → Bool
  | .kept | .hands _ .serving | .hands _ .marking | .chained _ | .lost => true
  | _ => false

/-- The request has never been on the working list. -/
def early : Status threads → Bool
  | .queued | .hands _ .entering => true
  | _ => false

/-- Nobody has called `np_respond` for the request. -/
def fresh : Status threads → Bool
  | .queued | .kept | .hands _ .entering | .hands _ .serving => true
  | _ => false

theorem linked_chained (prev : ReqId) : (chained prev : Status threads).linked = true := rfl

theorem linked_next (t : Fin threads) : (hands t .next).linked = true := rfl

theorem linked_of_early {status : Status threads} (early : status.early = true) :
    status.linked = true := by
  cases status with
  | hands t role => cases role <;> simp_all [Status.early, Status.linked]
  | _ => simp_all [Status.early, Status.linked]

theorem early_of_mayWork {status : Status threads} (may : status.mayWork = true) :
    status.early = false := by
  cases status with
  | hands t role => cases role <;> simp_all [Status.mayWork, Status.early]
  | _ => simp_all [Status.mayWork, Status.early]

theorem not_mayWork_of_logged {status : Status threads} (logged : status.logged = true) :
    status.mayWork = false := by
  cases status with
  | hands t role => cases role <;> simp_all [Status.mayWork, Status.logged]
  | _ => simp_all [Status.mayWork, Status.logged]

theorem linked_of_mayWork {status : Status threads} (may : status.mayWork = true) :
    status.linked = true := by
  cases status with
  | hands t role => cases role <;> simp_all [Status.mayWork, Status.linked]
  | _ => simp_all [Status.mayWork, Status.linked]

end Status

variable {threads : Nat}

/-- How many threads are in `np_flush` with a reference on the request. -/
def Server.holders (s : Server threads) (req : ReqId) : Nat :=
  (Finset.univ.filter fun t => s.pc t = .flushed req).card

/-- What the fields of the server show of the status of the requests. -/
structure Consistent (s : Server threads) (status : ReqId → Status threads) : Prop where
  hands : ∀ t r role, status r = .hands t role ↔ (s.pc t).Has r role
  queued : ∀ r, status r = .queued ↔ r ∈ s.reqs
  queued_nodup : s.reqs.Nodup
  kept : ∀ r, status r = .kept ↔ r ∈ s.kept
  kept_nodup : s.kept.Nodup
  chained : ∀ p r, status r = .chained p ↔ (status p).linked = true ∧ s.link p = some r
  cancelled : ∀ r, status r = .cancelled ↔ r ∈ s.cancelled
  answered : ∀ r, (status r).logged = true ↔ r ∈ s.answered
  answered_nodup : s.answered.Nodup
  born : ∀ r, status r = .unborn ↔ s.next ≤ r
  entered : ∀ r, r ∈ s.entered ↔ status r ≠ .unborn ∧ ∀ t, status r ≠ .hands t .entering
  refcount : ∀ r, (s.req r).refcount = (status r).based.toNat + s.holders r
  found : ∀ t creq, s.pc t = .flushed creq → creq < s.next
  homes : ∀ p r, (status p).linked = true → (status r).linked = true →
    (s.req p).home = (s.req r).home → p = r
  alone : ∀ r, (status r).early = true → s.link r = none
  mustWork : ∀ r, (status r).mustWork = true → r ∈ s.workreqs
  mayWork : ∀ r ∈ s.workreqs, (status r).mayWork = true
  work_nodup : s.workreqs.Nodup
  work_prev : ∀ p r, status r = .chained p → r ∈ s.workreqs → p ∈ s.workreqs
  fresh : ∀ r, (status r).fresh = true → (s.req r).responded = false

variable {s s' : Server threads} {status : ReqId → Status threads}

open Function

private theorem holders_eq {t : Fin threads} {pc : Pc} {r : ReqId}
    (moved : s'.pc = update s.pc t pc) (here : pc = .flushed r ↔ s.pc t = .flushed r) :
    s'.holders r = s.holders r := by
  unfold Server.holders
  congr 1
  ext u
  by_cases same : u = t
  · simp [moved, same, here]
  · simp [moved, same]

private theorem holders_succ {t : Fin threads} {pc : Pc} {r : ReqId}
    (moved : s'.pc = update s.pc t pc) (before : s.pc t ≠ .flushed r) (after : pc = .flushed r) :
    s'.holders r = s.holders r + 1 := by
  unfold Server.holders
  rw [← Finset.card_insert_of_notMem (show t ∉ _ by simp [before])]
  congr 1
  ext u
  by_cases same : u = t
  · simp [moved, same, after]
  · simp [moved, same]

theorem holders_zero {r : ReqId} (unfound : ∀ t, s.pc t ≠ .flushed r) : s.holders r = 0 := by
  simp [Server.holders, unfound]

/-- The statuses after flush `req` was put behind `creq`: what was behind `creq` is now behind
`req`, and what was behind `req` is behind nothing. -/
def reattached (s : Server threads) (status : ReqId → Status threads) (req creq : ReqId) :
    ReqId → Status threads := fun r =>
  if r = req then .chained creq
  else if s.link creq = some r ∧ creq ≠ req then .chained req
  else if s.link req = some r then .lost
  else status r

/-- The statuses after thread `t` read the `flushreq` of request `req`, which becomes `place`. -/
def followed (s : Server threads) (status : ReqId → Status threads) (t : Fin threads) (req : ReqId)
    (place : Status threads) : ReqId → Status threads := fun r =>
  if s.link req = some r then .hands t .next else if r = req then place else status r

namespace Consistent

attribute [local grind] Status.linked Status.logged Status.mustWork Status.mayWork Status.early
  Status.fresh Status.based Server.link Server.answered Pc.Has

/-- A structure taken by `np_req_alloc` is not one whose `flushreq` is still to be read. -/
theorem linked_apart (h : Consistent s status) {home : Nat} (free : s.Free home)
    (unread : ∀ t, ∀ freq ∈ (s.pc t).dangling, (s.req freq).home ≠ home) {p : ReqId}
    (linked : (status p).linked = true) : (s.req p).home ≠ home := by
  intro same
  have alive : p < s.next := by
    by_contra late
    simp [(h.born p).2 (not_lt.mp late), Status.linked] at linked
  have released := free p alive same
  rw [h.refcount] at released
  cases place : status p with
  | hands t role =>
      cases role with
      | passing =>
          have position := (h.hands t p .passing).1 place
          refine unread t p ?_ same
          cases pc : s.pc t <;> simp_all [Pc.Has, Pc.dangling]
      | _ => simp [place, Status.based] at released
  | _ => simp_all [Status.based, Status.linked]

theorem unlinked (h : Consistent s status) {r : ReqId} (early : (status r).early = true) :
    s.flushreq (s.req r).home = none := h.alone r early

theorem records (h : Consistent s status) :
    s.reqs.Nodup ∧ s.kept.Nodup ∧ s.workreqs.Nodup ∧ (s.log.map Answer.req).Nodup ∧
      (∀ r, (status r).logged = true ↔ r ∈ s.log.map Answer.req) ∧
      (∀ t creq, s.pc t = .flushed creq → creq < s.next) ∧
      ∀ p r, (status p).linked = true → (status r).linked = true →
        (s.req p).home = (s.req r).home → p = r :=
  ⟨h.queued_nodup, h.kept_nodup, h.work_nodup, h.answered_nodup, h.answered, h.found, h.homes⟩

theorem worklist (h : Consistent s status) :
    (∀ r, (status r).mustWork = true → r ∈ s.workreqs) ∧
      (∀ r ∈ s.workreqs, (status r).mayWork = true) ∧
      (∀ p r, status r = .chained p → r ∈ s.workreqs → p ∈ s.workreqs) ∧
      ∀ r, (status r).fresh = true → (s.req r).responded = false :=
  ⟨h.mustWork, h.mayWork, h.work_prev, h.fresh⟩

theorem npReqAlloc (h : Consistent s status) {t : Fin threads} {conn home : Nat}
    {tc : Npfcall} (pc : s.pc t = .idle) (free : s.Free home)
    (unread : ∀ t, ∀ freq ∈ (s.pc t).dangling, (s.req freq).home ≠ home) :
    Consistent (s.npReqAlloc t conn tc home) (update status s.next (.hands t .entering)) := by
  have apart := fun p => h.linked_apart free unread (p := p)
  have unborn : status s.next = .unborn := (h.born _).2 le_rfl
  have none : s.holders s.next = 0 := holders_zero fun u found => (h.found u _ found).false
  have held : ∀ r, (s.npReqAlloc t conn tc home).holders r = s.holders r := fun r =>
    holders_eq rfl (by simp [pc])
  constructor
  case' refcount =>
    intro r
    rw [held]
  all_goals simp only [Server.npReqAlloc, Server.setPc, update_apply]
  case hands | refcount => grind -linarith [h.hands, h.refcount]
  case queued | kept | cancelled | born | entered =>
    grind -linarith [h.queued, h.kept, h.cancelled, h.born, h.entered]
  case chained | alone => grind -linarith [h.chained, h.unlinked]
  case queued_nodup | kept_nodup | work_nodup | answered | answered_nodup | found | homes =>
    have records := h.records
    grind -linarith
  case mustWork | mayWork | work_prev | fresh =>
    have works := h.worklist
    grind -linarith

theorem npSrvAddReq (h : Consistent s status) {t : Fin threads} {req : ReqId}
    (pc : s.pc t = .allocated req) :
    Consistent (s.npSrvAddReq t req) (update status req .queued) := by
  have hreq : status req = .hands t .entering := (h.hands t req .entering).2 (by simp [pc, Pc.Has])
  have held : ∀ r, (s.npSrvAddReq t req).holders r = s.holders r := fun r =>
    holders_eq rfl (by simp [pc])
  constructor
  case' refcount =>
    intro r
    rw [held]
  all_goals simp only [Server.npSrvAddReq, Server.setPc, update_apply]
  case queued_nodup =>
    have nodup := h.queued_nodup
    grind -linarith [h.queued]
  case hands | refcount => grind -linarith [h.hands, h.refcount]
  case queued | kept | cancelled | born | entered =>
    grind -linarith [h.queued, h.kept, h.cancelled, h.born, h.entered]
  case chained | alone => grind -linarith [h.chained, h.unlinked]
  case kept_nodup | work_nodup | answered | answered_nodup | found | homes =>
    have records := h.records
    grind -linarith
  case mustWork | mayWork | work_prev | fresh =>
    have works := h.worklist
    grind -linarith

theorem takeReq (h : Consistent s status) {t : Fin threads} {req : ReqId} {rest : List ReqId}
    (pc : s.pc t = .idle) (first : s.reqs = req :: rest) :
    Consistent (s.takeReq t req rest) (update status req (.hands t .serving)) := by
  have place : status req = .queued := (h.queued req).2 (by simp [first])
  have held : ∀ r, (s.takeReq t req rest).holders r = s.holders r := fun r =>
    holders_eq rfl (by simp [pc])
  constructor
  case' refcount =>
    intro r
    rw [held]
  all_goals simp only [Server.takeReq, Server.setPc, update_apply]
  case queued_nodup =>
    have nodup := h.queued_nodup
    grind -linarith
  case queued =>
    have nodup := h.queued_nodup
    grind -linarith [h.queued]
  case work_nodup =>
    have nodup := h.work_nodup
    have mayWork := h.mayWork
    grind -linarith
  case hands | refcount => grind -linarith [h.hands, h.refcount]
  case kept | cancelled | born | entered =>
    grind -linarith [h.queued, h.kept, h.cancelled, h.born, h.entered]
  case chained | alone => grind -linarith [h.chained, h.unlinked]
  case kept_nodup | answered | answered_nodup | found | homes =>
    have records := h.records
    grind -linarith
  case mustWork | mayWork | work_prev | fresh =>
    have works := h.worklist
    grind -linarith

theorem keep (h : Consistent s status) {t : Fin threads} {req : ReqId}
    (pc : s.pc t = .serving req) :
    Consistent (s.keep t req) (update status req .kept) := by
  have place : status req = .hands t .serving := (h.hands t req .serving).2 (by simp [pc, Pc.Has])
  have held : ∀ r, (s.keep t req).holders r = s.holders r := fun r =>
    holders_eq rfl (by simp [pc])
  constructor
  case' refcount =>
    intro r
    rw [held]
  all_goals simp only [Server.keep, Server.setPc, update_apply]
  case kept_nodup =>
    have nodup := h.kept_nodup
    grind -linarith [h.kept]
  case hands | refcount => grind -linarith [h.hands, h.refcount]
  case queued | kept | cancelled | born | entered =>
    grind -linarith [h.queued, h.kept, h.cancelled, h.born, h.entered]
  case chained | alone => grind -linarith [h.chained, h.unlinked]
  case queued_nodup | work_nodup | answered | answered_nodup | found | homes =>
    have records := h.records
    grind -linarith
  case mustWork | mayWork | work_prev | fresh =>
    have works := h.worklist
    grind -linarith

theorem resume (h : Consistent s status) {t : Fin threads} {req : ReqId} {rtype : UInt8}
    (pc : s.pc t = .idle) (mem : req ∈ s.kept) :
    Consistent (s.resume t req rtype) (update status req (.hands t .serving)) := by
  have place : status req = .kept := (h.kept req).2 mem
  have held : ∀ r, (s.resume t req rtype).holders r = s.holders r := fun r =>
    holders_eq rfl (by simp [pc])
  constructor
  case' refcount =>
    intro r
    rw [held]
  all_goals simp only [Server.resume, Server.setPc, update_apply]
  case kept_nodup => exact h.kept_nodup.erase _
  case kept => grind -linarith [h.kept, h.kept_nodup, List.Nodup.mem_erase_iff]
  case hands | refcount => grind -linarith [h.hands, h.refcount]
  case queued | cancelled | born | entered =>
    grind -linarith [h.queued, h.kept, h.cancelled, h.born, h.entered]
  case chained | alone => grind -linarith [h.chained, h.unlinked]
  case queued_nodup | work_nodup | answered | answered_nodup | found | homes =>
    have records := h.records
    grind -linarith
  case mustWork | mayWork | work_prev | fresh =>
    have works := h.worklist
    grind -linarith

/-- A step inside one handler or one `np_conn_respond` moves no request. -/
theorem setPc (h : Consistent s status) {t : Fin threads} {pc : Pc}
    (roles : ∀ r role, pc.Has r role ↔ (s.pc t).Has r role) (before : ∀ r, s.pc t ≠ .flushed r)
    (after : ∀ r, pc ≠ .flushed r) : Consistent (s.setPc t pc) status := by
  have held : ∀ r, (s.setPc t pc).holders r = s.holders r := fun r =>
    holders_eq rfl (by simp [before, after])
  obtain ⟨hands, queued, queued_nodup, kept, kept_nodup, chained, cancelled, answered,
    answered_nodup, born, entered, refcount, found, homes, alone, mustWork, mayWork,
    work_nodup, work_prev, fresh⟩ := h
  constructor
  case hands =>
    simp only [Server.setPc, update_apply]
    grind -linarith
  case refcount =>
    intro r
    rw [held]
    exact refcount r
  case found =>
    simp only [Server.setPc, update_apply]
    grind -linarith
  all_goals assumption

theorem flushPending (h : Consistent s status) {t : Fin threads} {req creq : ReqId}
    (pc : s.pc t = .serving req) (mem : creq ∈ s.reqs) :
    Consistent (s.flushPending t req creq) (update status creq .cancelled) := by
  have place : status creq = .queued := (h.queued creq).2 mem
  have held : ∀ r, (s.flushPending t req creq).holders r = s.holders r := fun r =>
    holders_eq rfl (by simp [pc])
  constructor
  case' refcount =>
    intro r
    rw [held]
  all_goals simp only [Server.flushPending, Server.npReqUnref, Server.setPc, update_apply]
  case queued_nodup => exact h.queued_nodup.erase _
  case queued => grind -linarith [h.queued, h.queued_nodup, List.Nodup.mem_erase_iff]
  case hands | refcount => grind -linarith [h.hands, h.refcount]
  case kept | cancelled | born | entered =>
    grind -linarith [h.queued, h.kept, h.cancelled, h.born, h.entered]
  case chained | alone => grind -linarith [h.chained, h.unlinked]
  case kept_nodup | work_nodup | answered | answered_nodup | found | homes =>
    have records := h.records
    grind -linarith
  case mustWork | mayWork | work_prev | fresh =>
    have works := h.worklist
    grind -linarith

theorem flushDone (h : Consistent s status) {t : Fin threads} {creq : ReqId}
    (pc : s.pc t = .flushed creq) : Consistent (s.flushDone t creq) status := by
  have held : ∀ r ≠ creq, (s.flushDone t creq).holders r = s.holders r := fun r other =>
    holders_eq rfl (by simp [pc, other.symm])
  have one : s.holders creq = (s.flushDone t creq).holders creq + 1 :=
    have moved : s.pc = update (s.flushDone t creq).pc t (.flushed creq) := by
      simp [Server.flushDone, Server.setPc, ← pc, Server.npReqUnref]
    have before : (s.flushDone t creq).pc t ≠ .flushed creq := by
      simp [Server.flushDone, Server.setPc]
    holders_succ moved before rfl
  constructor
  case refcount =>
    intro r
    have count := h.refcount r
    by_cases same : r = creq
    · subst same
      simp only [Server.flushDone, Server.npReqUnref, Server.setPc, update_self]
      simp only [Server.flushDone, Server.npReqUnref, Server.setPc] at one
      omega
    · rw [held r same]
      simp [Server.flushDone, Server.npReqUnref, Server.setPc, same, count]
  all_goals simp only [Server.flushDone, Server.npReqUnref, Server.setPc, update_apply]
  case hands => grind -linarith [h.hands]
  case queued | kept | cancelled | born | entered =>
    grind -linarith [h.queued, h.kept, h.cancelled, h.born, h.entered]
  case queued_nodup | kept_nodup | work_nodup | answered | answered_nodup | found | homes =>
    have records := h.records
    grind -linarith
  case chained | alone => grind -linarith [h.chained, h.unlinked]
  case mustWork | mayWork | work_prev | fresh =>
    have works := h.worklist
    grind -linarith

/-- A request that reaches `np_respond` was not responded to before. -/
theorem respondMark_eq (h : Consistent s status) {t : Fin threads} {req : ReqId} {rtype : UInt8}
    (pc : s.pc t = .respond req rtype) :
    s.respondMark t req rtype = { s with
      req := Function.update s.req req ({ s.req req with responded := true }) }.setPc t
      (.marked req rtype) := by
  have place : status req = .hands t .serving := (h.hands t req .serving).2 (by simp [pc, Pc.Has])
  have first : (s.req req).responded = false := h.fresh req (by simp [place, Status.fresh])
  simp [Server.respondMark, first]

theorem respondMark (h : Consistent s status) {t : Fin threads} {req : ReqId} {rtype : UInt8}
    (pc : s.pc t = .respond req rtype) :
    Consistent (s.respondMark t req rtype) (update status req (.hands t .marking)) := by
  have place : status req = .hands t .serving := (h.hands t req .serving).2 (by simp [pc, Pc.Has])
  rw [h.respondMark_eq pc]
  have held : ∀ r, ({ s with
      req := Function.update s.req req ({ s.req req with responded := true }) }.setPc t
      (.marked req rtype)).holders r = s.holders r := fun r =>
    holders_eq rfl (by simp [pc])
  constructor
  case' refcount =>
    intro r
    rw [held]
  all_goals simp only [Server.setPc, update_apply]
  case hands | refcount => grind -linarith [h.hands, h.refcount]
  case queued | kept | cancelled | born | entered =>
    grind -linarith [h.queued, h.kept, h.cancelled, h.born, h.entered]
  case chained | alone => grind -linarith [h.chained, h.unlinked]
  case queued_nodup | kept_nodup | work_nodup | answered | answered_nodup | found | homes =>
    have records := h.records
    grind -linarith
  case mustWork | mayWork | work_prev | fresh =>
    have works := h.worklist
    grind -linarith

theorem link_chained (h : Consistent s status) {p r : ReqId} (linked : (status p).linked = true)
    (link : s.link p = some r) : status r = .chained p := (h.chained p r).2 ⟨linked, link⟩

theorem flushWorking (h : Consistent s status) {t : Fin threads} {req creq : ReqId}
    (pc : s.pc t = .serving req) (mem : creq ∈ s.workreqs) :
    Consistent (s.flushWorking t req creq) (reattached s status req creq) := by
  have place : status req = .hands t .serving := (h.hands t req .serving).2 (by simp [pc, Pc.Has])
  have linked : (status req).linked = true := by simp [place, Status.linked]
  have may : (status creq).mayWork = true := h.mayWork creq mem
  have clinked : (status creq).linked = true := Status.linked_of_mayWork may
  have behind : ∀ r, s.link creq = some r → status r = .chained creq := fun r =>
    h.link_chained clinked
  have mine : ∀ r, s.link req = some r → status r = .chained req := fun r => h.link_chained linked
  have held : ∀ r ≠ creq, (s.flushWorking t req creq).holders r = s.holders r := fun r other =>
    holders_eq rfl (by simp [pc, other.symm])
  have one : (s.flushWorking t req creq).holders creq = s.holders creq + 1 :=
    holders_succ rfl (by simp [pc]) rfl
  have crq : creq < s.next := by
    by_contra late
    simp [(h.born creq).2 (not_lt.mp late), Status.linked] at clinked
  constructor
  case hands =>
    simp only [Server.flushWorking, Server.npReqRef, Server.setPc, update_apply, reattached]
    grind -linarith [h.hands]
  case refcount =>
    intro r
    have count := h.refcount r
    by_cases same : r = creq
    · subst same
      rw [one]
      simp only [Server.flushWorking, Server.npReqRef, Server.setPc, update_self, reattached]
      grind -linarith
    · rw [held r same]
      simp only [Server.flushWorking, Server.npReqRef, Server.setPc, update_apply, reattached]
      grind -linarith
  case chained =>
    intro p r
    have same : (reattached s status req creq p).linked = (status p).linked := by
      unfold reattached
      split_ifs with first second third
      · simp [first, place, Status.linked]
      · simp [behind p second.1, Status.linked]
      · simp [mine p third, Status.linked]
      · rfl
    have atCreq := h.homes p creq
    have atReq := h.homes p req
    have between := h.homes creq req
    have t1 := h.chained p r
    have t2 := h.chained creq r
    have t3 := h.chained req r
    rw [same]
    simp only [Server.flushWorking, Server.npReqRef, Server.setPc, update_apply, reattached,
      Server.link] at *
    grind -linarith
  case alone =>
    intro r
    have atCreq := h.homes r creq
    have atReq := h.homes r req
    have clear := Status.early_of_mayWork may
    have early := h.alone r
    have reach := @Status.linked_of_early _ (status r)
    simp only [Server.flushWorking, Server.npReqRef, Server.setPc, update_apply, reattached,
      Server.link] at *
    grind -linarith
  all_goals simp only [Server.flushWorking, Server.npReqRef, Server.setPc, update_apply, reattached]
  case queued | kept | cancelled | born | entered =>
    grind -linarith [h.queued, h.kept, h.cancelled, h.born, h.entered]
  case queued_nodup | kept_nodup | work_nodup | answered | answered_nodup | found | homes =>
    have records := h.records
    grind -linarith
  case mustWork | mayWork | work_prev | fresh =>
    have works := h.worklist
    grind -linarith

/-- Behind a request whose `flushreq` is still to be read there are flushes only, each behind the
one before it. -/
theorem path_chained (h : Consistent s status) {p : ReqId} (linked : (status p).linked = true)
    {chain : List ReqId} (path : LinkedChain.Path s.link (s.link p) chain) :
    ∀ r ∈ chain, ∃ q ∈ p :: chain, status r = .chained q := by
  have step : ∀ {start chain}, LinkedChain.Path s.link start chain → ∀ q, (status q).linked = true →
      s.link q = start → ∀ r ∈ chain, ∃ q' ∈ q :: chain, status r = .chained q' := by
    intro start chain path
    induction path with
    | nil => simp
    | @cons first rest tail ih =>
        intro q linked link r mem
        have place := h.link_chained linked link
        rcases List.mem_cons.mp mem with rfl | mem
        · exact ⟨q, List.mem_cons_self, place⟩
        · obtain ⟨q', mem', place'⟩ := ih first (by simp [place, Status.linked]) rfl r mem
          exact ⟨q', List.mem_cons_of_mem _ mem', place'⟩
  exact step path p linked rfl

theorem respondUnlink (h : Consistent s status) {t : Fin threads} {req : ReqId} {rtype : UInt8}
    {chain : List ReqId} (pc : s.pc t = .marked req rtype)
    (path : LinkedChain.Path s.link (s.link req) chain) :
    Consistent (s.respondUnlink t req rtype chain) (update status req (.hands t .sending)) := by
  have place : status req = .hands t .marking := (h.hands t req .marking).2 (by simp [pc, Pc.Has])
  have behind := h.path_chained (by simp [place, Status.linked]) path
  have inside : ∀ p ∈ req :: chain, ∀ r, s.link p = some r → r ∈ chain := by
    intro p mem r link
    rcases List.mem_cons.mp mem with rfl | mem
    · rw [link] at path
      exact path.start_mem
    · exact path.next_mem mem link
  have work : ∀ r, r ∈ s.workreqs.diff (req :: chain) ↔ r ∈ s.workreqs ∧ r ∉ req :: chain :=
    fun r => h.work_nodup.mem_sdiff_iff
  have held : ∀ r, (s.respondUnlink t req rtype chain).holders r = s.holders r := fun r =>
    holders_eq rfl (by simp [pc])
  constructor
  case' refcount =>
    intro r
    rw [held]
  all_goals simp only [Server.respondUnlink, Server.setPc, update_apply]
  case work_nodup => exact h.work_nodup.diff
  case work_prev =>
    have chained := h.chained
    have work_prev := h.work_prev
    simp only [work]
    simp only [Server.link] at *
    grind -linarith
  case mustWork =>
    have mustWork := h.mustWork
    simp only [work]
    grind -linarith
  case mayWork =>
    have mayWork := h.mayWork
    simp only [work]
    grind -linarith
  case hands | refcount => grind -linarith [h.hands, h.refcount]
  case queued | kept | cancelled | born | entered =>
    grind -linarith [h.queued, h.kept, h.cancelled, h.born, h.entered]
  case chained | alone => grind -linarith [h.chained, h.unlinked]
  case queued_nodup | kept_nodup | answered | answered_nodup | found | homes =>
    have records := h.records
    grind -linarith
  case fresh =>
    have works := h.worklist
    grind -linarith

/-- `np_conn_respond` answers a request: from the front of `np_respond`, or from its second loop. -/
theorem answer (h : Consistent s status) {t : Fin threads} {req : ReqId} {rtype : UInt8}
    {written : Bool} {pc : Pc} {role : Role} (place : status req = .hands t role)
    (due : role = .sending ∨ role = .next)
    (roles : ∀ r role, pc.Has r role ↔ if r = req then role = .rooting else (s.pc t).Has r role)
    (before : ∀ r, s.pc t ≠ .flushed r) (after : ∀ r, pc ≠ .flushed r) :
    Consistent (s.answer t req rtype written pc) (update status req (.hands t .rooting)) := by
  have held : ∀ r, (s.answer t req rtype written pc).holders r = s.holders r := fun r =>
    holders_eq rfl (by simp [before, after])
  have log : (s.answer t req rtype written pc).answered = s.answered ++ [req] := by
    simp [Server.answer, Server.setPc, Server.answered]
  have linked : (status req).linked = true := by
    rcases due with rfl | rfl <;> simp [place, Status.linked]
  have based : (status req).based = true := by
    rcases due with rfl | rfl <;> simp [place, Status.based]
  have unanswered : req ∉ s.answered := by
    rcases due with rfl | rfl <;> simp [← h.answered, place, Status.logged]
  have offWork : req ∉ s.workreqs := by
    intro mem
    have may := h.mayWork req mem
    rcases due with rfl | rfl <;> simp [place, Status.mayWork] at may
  constructor
  case' refcount =>
    intro r
    rw [held]
  case answered =>
    rw [log]
    simp only [update_apply]
    have answered := h.answered
    grind -linarith
  case answered_nodup =>
    rw [log]
    have nodup := h.answered_nodup
    grind -linarith
  all_goals simp only [Server.answer, Server.setPc, update_apply]
  case hands | refcount => grind -linarith [h.hands, h.refcount]
  case queued | kept | cancelled | born | entered =>
    grind -linarith [h.queued, h.kept, h.cancelled, h.born, h.entered]
  case chained | alone => grind -linarith [h.chained, h.unlinked]
  case queued_nodup | kept_nodup | work_nodup | found | homes =>
    have records := h.records
    grind -linarith
  case mustWork | mayWork | work_prev | fresh =>
    have works := h.worklist
    grind -linarith

/-- The second loop of `np_respond` reads the next `flushreq`. -/
theorem nextFlush (h : Consistent s status) {t : Fin threads} {root req : ReqId}
    {new : Status threads}
    (pc : s.pc t = .responded root ∧ req = root ∧ new = .hands t .tail ∨
      s.pc t = .released root req ∧ new = .answered) :
    Consistent (s.nextFlush t root (s.link req)) (followed s status t req new) := by
  have place : (status req).linked = true ∧ (status req).logged = true ∧
      (status req).based = new.based ∧ new.linked = false ∧ new.logged = true ∧
      new.mustWork = false ∧ new.mayWork = false ∧ new.fresh = false ∧ new.early = false := by
    rcases pc with ⟨pc, rfl, rfl⟩ | ⟨pc, rfl⟩
    · simp [(h.hands t req .rooting).2 (by simp [pc, Pc.Has]), Status.linked, Status.logged,
        Status.based, Status.mustWork, Status.mayWork, Status.fresh, Status.early]
    · simp [(h.hands t req .passing).2 (by simp [pc, Pc.Has]), Status.linked,
        Status.logged, Status.based, Status.mustWork, Status.mayWork, Status.fresh, Status.early]
  have behind : ∀ r, s.link req = some r → status r = .chained req := fun r =>
    h.link_chained place.1
  have rootless : s.link req ≠ some root := by
    intro link
    have place := behind root link
    rcases pc with ⟨pc, rfl, -⟩ | ⟨pc, -⟩
    · simp [(h.hands t req .rooting).2 (by simp [pc, Pc.Has])] at place
    · simp [(h.hands t root .tail).2 (by simp [pc, Pc.Has])] at place
  have offWork : req ∉ s.workreqs := by
    intro mem
    simpa [Status.not_mayWork_of_logged place.2.1] using h.mayWork req mem
  have offWork' : ∀ r, s.link req = some r → r ∉ s.workreqs := fun r link mem =>
    offWork (h.work_prev req r (behind r link) mem)
  have held : ∀ r, (s.nextFlush t root (s.link req)).holders r = s.holders r := fun r =>
    holders_eq rfl (by rcases pc with ⟨pc, -⟩ | ⟨pc, -⟩ <;> simp [pc, Pc.loop_ne_flushed])
  constructor
  case hands =>
    have mine := h.hands t
    simp only [Server.nextFlush, Server.setPc, update_apply, followed]
    rcases pc with ⟨pc, rfl, rfl⟩ | ⟨pc, rfl⟩
    · simp only [pc, Pc.Has] at mine
      have here : status req = .hands t .rooting := (mine req _).2 ⟨rfl, rfl⟩
      grind -linarith [h.hands, Pc.has_loop]
    · simp only [pc, Pc.Has] at mine
      have here : status req = .hands t .passing := (mine req _).2 (.inr ⟨rfl, rfl⟩)
      have front : status root = .hands t .tail := (mine root _).2 (.inl ⟨rfl, rfl⟩)
      grind -linarith [h.hands, Pc.has_loop]
  case refcount =>
    intro r
    have count := h.refcount r
    rw [held]
    simp only [Server.nextFlush, Server.setPc, followed]
    grind -linarith
  case found =>
    have found := h.found
    simp only [Server.nextFlush, Server.setPc, update_apply]
    grind -linarith [Pc.loop_ne_flushed]
  case chained =>
    intro p r
    have here := h.chained req r
    have there := h.chained p r
    have next := h.chained req p
    have unchained : ∀ q, new ≠ .chained q := by
      rcases pc with ⟨-, -, rfl⟩ | ⟨-, rfl⟩ <;> simp
    have first : ∀ q, status req ≠ .chained q := by
      intro q chained
      simp [chained, Status.logged] at place
    simp only [Server.nextFlush, Server.setPc, followed, Server.link] at *
    by_cases same : p = req
    · grind -linarith [Status.linked_chained, Status.linked_next]
    · grind -linarith [Status.linked_chained, Status.linked_next]
  all_goals simp only [Server.nextFlush, Server.setPc, followed]
  case queued | kept | cancelled | born | entered =>
    grind -linarith [h.queued, h.kept, h.cancelled, h.born, h.entered]
  case queued_nodup | kept_nodup | work_nodup | answered | answered_nodup | homes =>
    have records := h.records
    grind -linarith
  case alone => grind -linarith [h.unlinked]
  case mustWork | mayWork | work_prev | fresh =>
    have works := h.worklist
    grind -linarith

theorem releaseFlush (h : Consistent s status) {t : Fin threads} {req freq : ReqId}
    (pc : s.pc t = .flushResponded req freq) :
    Consistent (s.releaseFlush t req freq) (update status freq (.hands t .passing)) := by
  have place : status freq = .hands t .rooting :=
    (h.hands t freq .rooting).2 (by simp [pc, Pc.Has])
  have held : ∀ r, (s.releaseFlush t req freq).holders r = s.holders r := fun r =>
    holders_eq rfl (by simp [pc])
  constructor
  case' refcount =>
    intro r
    rw [held]
  all_goals simp only [Server.releaseFlush, Server.npReqUnref, Server.setPc, update_apply]
  case hands | refcount => grind -linarith [h.hands, h.refcount]
  case queued | kept | cancelled | born | entered =>
    grind -linarith [h.queued, h.kept, h.cancelled, h.born, h.entered]
  case chained | alone => grind -linarith [h.chained, h.unlinked]
  case queued_nodup | kept_nodup | work_nodup | answered | answered_nodup | found | homes =>
    have records := h.records
    grind -linarith
  case mustWork | mayWork | work_prev | fresh =>
    have works := h.worklist
    grind -linarith

theorem respondDone (h : Consistent s status) {t : Fin threads} {req : ReqId}
    (pc : s.pc t = .finishing req) :
    Consistent (s.respondDone t req) (update status req .answered) := by
  have place : status req = .hands t .tail := (h.hands t req .tail).2 (by simp [pc, Pc.Has])
  have held : ∀ r, (s.respondDone t req).holders r = s.holders r := fun r =>
    holders_eq rfl (by simp [pc])
  constructor
  case' refcount =>
    intro r
    rw [held]
  all_goals simp only [Server.respondDone, Server.npReqUnref, Server.setPc, update_apply]
  case hands | refcount => grind -linarith [h.hands, h.refcount]
  case queued | kept | cancelled | born | entered =>
    grind -linarith [h.queued, h.kept, h.cancelled, h.born, h.entered]
  case chained | alone => grind -linarith [h.chained, h.unlinked]
  case queued_nodup | kept_nodup | work_nodup | answered | answered_nodup | found | homes =>
    have records := h.records
    grind -linarith
  case mustWork | mayWork | work_prev | fresh =>
    have works := h.worklist
    grind -linarith

/-- The server before the first request. -/
theorem start : Consistent (Server.start threads) fun _ => .unborn := by
  constructor
  case refcount =>
    intro r
    have none : (Server.start threads).holders r = 0 := holders_zero fun t => by
      simp [Server.start]
    rw [none]
    rfl
  all_goals simp [Server.start, Server.answered, Server.link, Pc.Has, Status.linked, Status.logged,
    Status.mustWork, Status.early, Status.fresh]

/-- The searches of `np_flush` leave a record of what they were to find. -/
theorem setTargets (h : Consistent s status) (targets : ReqId → List ReqId) :
    Consistent { s with targets } status :=
  { h with }

end Consistent

/-- The request whose `np_respond` is past the first loop, and where the chain that is still to be
answered starts. -/
def Server.remaining (s : Server threads) : Pc → Option (ReqId × Option ReqId)
  | .unlinked req _ | .writing req _ | .responded req => some (req, s.link req)
  | .flushing req freq | .flushWriting req freq => some (req, some freq)
  | .flushResponded req freq | .released req freq => some (req, s.link freq)
  | .finishing req => some (req, none)
  | _ => none

theorem Server.remaining_loop (req : ReqId) (freq : Option ReqId) :
    s.remaining (Pc.loop req freq) = some (req, freq) := by
  cases freq <;> rfl

/-- The flush that thread `t` processes, if it is at the critical section of `np_flush`. -/
def Server.processed (s : Server threads) (t : Fin threads) : Event → Option ReqId
  | .advance =>
    match s.pc t with
    | .serving req => some req
    | _ => none
  | _ => none

/-- What one section of thread `t` does to the server and to the status of the requests. -/
inductive Section (s : Server threads) (status : ReqId → Status threads) (t : Fin threads) :
    Event → Server threads → (ReqId → Status threads) → Prop
  | alloc {conn home : Nat} {tc : Npfcall} (pc : s.pc t = .idle) (free : s.Free home) :
      Section s status t (.receive conn tc home) (s.npReqAlloc t conn tc home)
        (update status s.next (.hands t .entering))
  | add {req : ReqId} (pc : s.pc t = .allocated req) :
      Section s status t .advance (s.npSrvAddReq t req) (update status req .queued)
  | take {req : ReqId} {rest : List ReqId} (pc : s.pc t = .idle) (first : s.reqs = req :: rest) :
      Section s status t .take (s.takeReq t req rest) (update status req (.hands t .serving))
  | keep {req : ReqId} (pc : s.pc t = .serving req) :
      Section s status t .keep (s.keep t req) (update status req .kept)
  | resume {req : ReqId} {rtype : UInt8} (pc : s.pc t = .idle) (mem : req ∈ s.kept) :
      Section s status t (.resume req rtype) (s.resume t req rtype)
        (update status req (.hands t .serving))
  | stay {event : Event} {pc : Pc} (roles : ∀ r role, pc.Has r role ↔ (s.pc t).Has r role)
      (before : ∀ r, s.pc t ≠ .flushed r) (after : ∀ r, pc ≠ .flushed r ∧ pc ≠ .serving r)
      (same : s.remaining pc = s.remaining (s.pc t)) :
      Section s status t event (s.setPc t pc) status
  | flushPending {req creq : ReqId} (pc : s.pc t = .serving req)
      (found : s.reqs.find? (s.carries (s.req req).conn (s.req req).tcall.oldtag) = some creq) :
      Section s status t .advance ((s.search req).flushPending t req creq)
        (update status creq .cancelled)
  | flushWorking {req creq : ReqId} (pc : s.pc t = .serving req)
      (pending : s.reqs.find? (s.carries (s.req req).conn (s.req req).tcall.oldtag) = none)
      (found : s.workreqs.find? (s.carries (s.req req).conn (s.req req).tcall.oldtag) = some creq) :
      Section s status t .advance ((s.search req).flushWorking t req creq)
        (reattached s status req creq)
  | flushNone {req : ReqId} (pc : s.pc t = .serving req)
      (pending : s.reqs.find? (s.carries (s.req req).conn (s.req req).tcall.oldtag) = none)
      (working : s.workreqs.find? (s.carries (s.req req).conn (s.req req).tcall.oldtag) = none) :
      Section s status t .advance ((s.search req).setPc t (.respond req MsgType.rflush.code)) status
  | flushDone {creq : ReqId} (pc : s.pc t = .flushed creq) :
      Section s status t .advance (s.flushDone t creq) status
  | mark {req : ReqId} {rtype : UInt8} (pc : s.pc t = .respond req rtype) :
      Section s status t .advance (s.respondMark t req rtype)
        (update status req (.hands t .marking))
  | unlink {req : ReqId} {rtype : UInt8} {chain : List ReqId} (pc : s.pc t = .marked req rtype)
      (path : LinkedChain.Path s.link (s.link req) chain) :
      Section s status t .advance (s.respondUnlink t req rtype chain)
        (update status req (.hands t .sending))
  | answer {event : Event} {req : ReqId} {rtype : UInt8} {written : Bool}
      (pc : s.pc t = .unlinked req rtype ∨ s.pc t = .writing req rtype) :
      Section s status t event (s.answer t req rtype written (.responded req))
        (update status req (.hands t .rooting))
  | answerFlush {event : Event} {req freq : ReqId} {written : Bool}
      (pc : s.pc t = .flushing req freq ∨ s.pc t = .flushWriting req freq) :
      Section s status t event
        (s.answer t freq MsgType.rflush.code written (.flushResponded req freq))
        (update status freq (.hands t .rooting))
  | readLink {req : ReqId} (pc : s.pc t = .responded req) :
      Section s status t .advance (s.nextFlush t req (s.link req))
        (followed s status t req (.hands t .tail))
  | readFlushLink {req freq : ReqId} (pc : s.pc t = .released req freq) :
      Section s status t .advance (s.nextFlush t req (s.link freq))
        (followed s status t freq .answered)
  | releaseFlush {req freq : ReqId} (pc : s.pc t = .flushResponded req freq) :
      Section s status t .advance (s.releaseFlush t req freq)
        (update status freq (.hands t .passing))
  | done {req : ReqId} (pc : s.pc t = .finishing req) :
      Section s status t .advance (s.respondDone t req) (update status req .answered)

/-- The structure that `np_req_alloc` gets is not one whose `flushreq` a thread is about to read
without a reference. -/
def Unread (s : Server threads) : Event → Prop
  | .receive _ _ home => ∀ t, ∀ freq ∈ (s.pc t).dangling, (s.req freq).home ≠ home
  | _ => True

instance (s : Server threads) (event : Event) : Decidable (Unread s event) :=
  match event with
  | .receive _ _ home =>
    inferInstanceAs (Decidable (∀ t, ∀ freq ∈ (s.pc t).dangling, (s.req freq).home ≠ home))
  | .take | .resume .. | .reply _ | .keep | .send _ | .write _ | .advance => .isTrue trivial

/-- Every section keeps the fields and the statuses in agreement, as long as no structure is taken
again while its `flushreq` is still to be read. -/
theorem Consistent.of_section (h : Consistent s status) {t : Fin threads} {event : Event}
    {status' : ReqId → Status threads} (sec : Section s status t event s' status')
    (unread : Unread s event) : Consistent s' status' := by
  cases sec with
  | alloc pc free => exact h.npReqAlloc pc free unread
  | add pc => exact h.npSrvAddReq pc
  | take pc first => exact h.takeReq pc first
  | keep pc => exact h.keep pc
  | resume pc mem => exact h.resume pc mem
  | stay roles before after same => exact h.setPc roles before fun r => (after r).1
  | flushPending pc found =>
      exact (h.setTargets _).flushPending pc (List.mem_of_find?_eq_some found)
  | flushWorking pc pending found =>
      exact (h.setTargets _).flushWorking pc (List.mem_of_find?_eq_some found)
  | flushNone pc pending working =>
      exact (h.setTargets _).setPc (by simp [pc, Pc.Has]) (by simp [pc]) (by simp)
  | flushDone pc => exact h.flushDone pc
  | mark pc => exact h.respondMark pc
  | unlink pc path => exact h.respondUnlink pc path
  | @answer _ req _ _ pc =>
      have place : status req = .hands t .sending :=
        (h.hands t req .sending).2 (by rcases pc with pc | pc <;> simp [pc, Pc.Has])
      refine h.answer place (.inl rfl) ?_ ?_ (by simp)
      · rcases pc with pc | pc <;> simp [pc, Pc.Has] <;> grind -linarith
      · rcases pc with pc | pc <;> simp [pc]
  | @answerFlush _ req freq _ pc =>
      have place : status freq = .hands t .next :=
        (h.hands t freq .next).2 (by rcases pc with pc | pc <;> simp [pc, Pc.Has])
      have front : status req = .hands t .tail :=
        (h.hands t req .tail).2 (by rcases pc with pc | pc <;> simp [pc, Pc.Has])
      refine h.answer place (.inr rfl) ?_ ?_ (by simp)
      · rcases pc with pc | pc <;> simp [pc, Pc.Has] <;> grind -linarith
      · rcases pc with pc | pc <;> simp [pc]
  | readLink pc => exact h.nextFlush (.inl ⟨pc, rfl, rfl⟩)
  | readFlushLink pc => exact h.nextFlush (.inr ⟨pc, rfl⟩)
  | releaseFlush pc => exact h.releaseFlush pc
  | done pc => exact h.respondDone pc

end Npfs.Requests
