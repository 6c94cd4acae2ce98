import Npfs.RequestStatus
import Npfs.RequestLists
import Npfs.Transition

/-!
# The queues of a server

The lists of pending and working requests over runs of a server with any number of connections: the
sections of readers, workers and back ends, and `np_conn_reset`.  Each section is one step that
changes the fields of the lists as the source does, and the server beside them.
-/

namespace Npfs.Requests

open Function

variable {threads : ℕ}

/-! ## Requests that a reset takes off -/

namespace Server

/-- Requests leave the pending list, each with its reference. -/
def detach (s : Server threads) (out : ReqId → Bool) : Server threads :=
  { s with reqs := s.reqs.filter fun r => !out r }

/-- A request that was taken off the pending list loses its reference. -/
def cancel (s : Server threads) (req : ReqId) : Server threads :=
  { s with cancelled := s.cancelled ++ [req] }.npReqUnref req

end Server

variable {s s' : Server threads} {status status' : ReqId → Status threads}

/-- The statuses after requests have been taken off the pending list. -/
def detached (s : Server threads) (status : ReqId → Status threads) (out : ReqId → Bool) :
    ReqId → Status threads := fun r => if r ∈ s.reqs ∧ out r = true then .lost else status r

attribute [local grind] Status.linked Status.logged Status.mustWork Status.mayWork Status.early
  Status.fresh Status.based Server.link Server.answered

theorem Consistent.detach (h : Consistent s status) (out : ReqId → Bool) :
    Consistent (s.detach out) (detached s status out) := by
  have place : ∀ r ∈ s.reqs, status r = .queued := fun r => (h.queued r).2
  have held : ∀ r, (s.detach out).holders r = s.holders r := fun r => rfl
  constructor
  case' refcount =>
    intro r
    rw [held]
  case queued_nodup => exact h.queued_nodup.filter _
  all_goals simp only [Server.detach, detached]
  case hands | refcount => grind -linarith [h.hands, h.refcount]
  case queued | kept | cancelled | born | entered =>
    grind -linarith [h.queued, h.kept, h.cancelled, h.born, h.entered]
  case chained | alone => grind -linarith [h.chained, h.unlinked]
  case kept_nodup | work_nodup | answered | answered_nodup | found | homes =>
    have records := h.records
    grind -linarith
  case mustWork | mayWork | work_prev | fresh =>
    have works := h.worklist
    grind -linarith

theorem Consistent.cancel (h : Consistent s status) {req : ReqId} (place : status req = .lost)
    (link : s.link req = none) (off : req ∉ s.workreqs) :
    Consistent (s.cancel req) (update status req .cancelled) := by
  have held : ∀ r, (s.cancel req).holders r = s.holders r := fun r => rfl
  constructor
  case' refcount =>
    intro r
    rw [held]
  all_goals simp only [Server.cancel, Server.npReqUnref, update_apply]
  case hands | refcount => grind -linarith [h.hands, h.refcount]
  case queued | kept | cancelled | born | entered =>
    grind -linarith [h.queued, h.kept, h.cancelled, h.born, h.entered]
  case chained | alone => grind -linarith [h.chained, h.unlinked]
  case queued_nodup | kept_nodup | work_nodup | answered | answered_nodup | found | homes =>
    have records := h.records
    grind -linarith
  case mustWork | mayWork | work_prev | fresh =>
    have works := h.worklist
    grind -linarith

@[simp] theorem Server.home_npReqRef (req r : ReqId) :
    ((s.npReqRef req).req r).home = (s.req r).home := by
  simp only [Server.npReqRef, update_apply]
  split_ifs with same
  · rw [same]
  · rfl

@[simp] theorem Server.home_npReqUnref (req r : ReqId) :
    ((s.npReqUnref req).req r).home = (s.req r).home := by
  simp only [Server.npReqUnref, update_apply]
  split_ifs with same
  · rw [same]
  · rfl

@[simp] theorem Server.home_respondMark (t : Fin threads) (req : ReqId) (rtype : UInt8)
    (r : ReqId) : ((s.respondMark t req rtype).req r).home = (s.req r).home := by
  unfold Server.respondMark
  split_ifs
  · exact Server.home_npReqUnref req r
  · simp only [Server.setPc, update_apply]
    split_ifs with same
    · rw [same]
    · rfl

/-- A request that a reset has taken off: nothing else refers to it. -/
structure Apart (s : Server threads) (status : ReqId → Status threads) (r : ReqId) : Prop where
  lost : status r = .lost
  link : s.link r = none
  off : r ∉ s.workreqs

namespace Apart

variable {r : ReqId}

theorem of_same (apart : Apart s status r) (place : status' r = status r)
    (flushreq : s'.flushreq = s.flushreq) (home : (s'.req r).home = (s.req r).home)
    (off : r ∈ s'.workreqs → r ∈ s.workreqs) : Apart s' status' r where
  lost := place.trans apart.lost
  link := by
    change s'.flushreq (s'.req r).home = none
    rw [flushreq, home]
    exact apart.link
  off mem := apart.off (off mem)

/-- What no section does to a request that a reset has taken off. -/
theorem of_section (h : Consistent s status) {t : Fin threads} {event : Event}
    (apart : Apart s status r) (sec : Section s status t event s' status')
    (unread : Unread s event) : Apart s' status' r := by
  have lost := apart.lost
  have linked : (status r).linked = true := by simp [lost, Status.linked]
  have behind : ∀ p, (status p).linked = true → s.link p ≠ some r := by
    intro p before reach
    simp [h.link_chained before reach] at lost
  have hand : ∀ req role, (s.pc t).Has req role → r ≠ req := by
    rintro req role has rfl
    simp [(h.hands t r role).2 has] at lost
  have born : r ≠ s.next := by
    rintro rfl
    simp [(h.born s.next).2 le_rfl] at lost
  cases sec with
  | @alloc conn home tc pc free =>
      have other := h.linked_apart free unread linked
      exact
        { lost := by simp [born, lost]
          link := by
            change update s.flushreq home none (update s.req s.next _ r).home = none
            rw [update_of_ne born, update_of_ne other]
            exact apart.link
          off := apart.off }
  | @add req pc =>
      have other := hand req .entering (by simp [pc, Pc.Has])
      exact apart.of_same (update_of_ne other _ _) rfl rfl id
  | @take req rest pc first =>
      have other : r ≠ req := by
        rintro rfl
        simp [(h.queued r).2 (by simp [first])] at lost
      exact apart.of_same (update_of_ne other _ _) rfl rfl
        fun mem => (List.mem_cons.mp mem).resolve_left other
  | @keep req pc =>
      have other := hand req .serving (by simp [pc, Pc.Has])
      exact apart.of_same (update_of_ne other _ _) rfl rfl id
  | @resume req rtype pc mem =>
      have other : r ≠ req := by
        rintro rfl
        simp [(h.kept r).2 mem] at lost
      exact apart.of_same (update_of_ne other _ _) rfl rfl id
  | stay roles before after same => exact apart.of_same rfl rfl rfl id
  | @flushPending req creq pc found =>
      have other : r ≠ creq := by
        rintro rfl
        simp [(h.queued r).2 (List.mem_of_find?_eq_some found)] at lost
      exact apart.of_same (update_of_ne other _ _) rfl (Server.home_npReqUnref _ _) id
  | @flushWorking req creq pc pending found =>
      have other := hand req .serving (by simp [pc, Pc.Has])
      have other' : r ≠ creq := by
        rintro rfl
        exact apart.off (List.mem_of_find?_eq_some found)
      have place : (status req).linked = true := by
        simp [(h.hands t req .serving).2 (by simp [pc, Pc.Has]), Status.linked]
      have place' : (status creq).linked = true :=
        Status.linked_of_mayWork (h.mayWork creq (List.mem_of_find?_eq_some found))
      have apart₁ : (s.req r).home ≠ (s.req req).home := fun same =>
        other (h.homes r req linked place same)
      have apart₂ : (s.req r).home ≠ (s.req creq).home := fun same =>
        other' (h.homes r creq linked place' same)
      exact
        { lost := by simp [reattached, other, behind creq place', behind req place, lost]
          link := by
            have home : (((s.search req).flushWorking t req creq).req r).home = (s.req r).home :=
              Server.home_npReqRef creq r
            change update (update s.flushreq (s.req req).home (s.link creq)) (s.req creq).home
              (some req) (((s.search req).flushWorking t req creq).req r).home = none
            rw [home, update_of_ne apart₂, update_of_ne apart₁]
            exact apart.link
          off := apart.off }
  | flushNone pc pending working => exact apart.of_same rfl rfl rfl id
  | flushDone pc => exact apart.of_same rfl rfl (Server.home_npReqUnref _ _) id
  | @mark req rtype pc =>
      have other := hand req .serving (by simp [pc, Pc.Has])
      rw [h.respondMark_eq pc]
      refine apart.of_same (update_of_ne other _ _) rfl ?_ id
      simp [Server.setPc, other]
  | @unlink req rtype chain pc path =>
      have other := hand req .marking (by simp [pc, Pc.Has])
      exact apart.of_same (update_of_ne other _ _) rfl rfl fun mem =>
        (h.work_nodup.mem_sdiff_iff.mp mem).1
  | @answer _ req rtype written pc =>
      have other := hand req .sending
        (by rcases pc with pc | pc <;> simp [pc, Pc.Has])
      exact apart.of_same (update_of_ne other _ _) rfl rfl id
  | @answerFlush _ req freq written pc =>
      have other := hand freq .next
        (by rcases pc with pc | pc <;> simp [pc, Pc.Has])
      exact apart.of_same (update_of_ne other _ _) rfl rfl id
  | @readLink req pc =>
      have other := hand req .rooting (by simp [pc, Pc.Has])
      have place : (status req).linked = true := by
        simp [(h.hands t req .rooting).2 (by simp [pc, Pc.Has]), Status.linked]
      refine apart.of_same ?_ rfl rfl id
      simp [followed, behind req place, other]
  | @readFlushLink req freq pc =>
      have other := hand freq .passing (by simp [pc, Pc.Has])
      have place : (status freq).linked = true := by
        simp [(h.hands t freq .passing).2 (by simp [pc, Pc.Has]), Status.linked]
      refine apart.of_same ?_ rfl rfl id
      simp [followed, behind freq place, other]
  | @releaseFlush req freq pc =>
      have other := hand freq .rooting (by simp [pc, Pc.Has])
      exact apart.of_same (update_of_ne other _ _) rfl (Server.home_npReqUnref _ _) id
  | @done req pc =>
      have other := hand req .tail (by simp [pc, Pc.Has])
      exact apart.of_same (update_of_ne other _ _) rfl (Server.home_npReqUnref _ _) id

end Apart

/-- A flush behind a working request is a working request. -/
def Behind (s : Server threads) (status : ReqId → Status threads) : Prop :=
  ∀ p r, status r = .chained p → p ∈ s.workreqs → r ∈ s.workreqs

namespace Behind

theorem of_same (behind : Behind s status)
    (chained : ∀ p r, status' r = .chained p → status r = .chained p)
    (work : s'.workreqs = s.workreqs) : Behind s' status' := by
  intro p r place mem
  rw [work] at mem ⊢
  exact behind p r (chained p r place) mem

/-- A status that is not behind another request is replaced by one that is not, either. -/
theorem of_update (behind : Behind s status) {req : ReqId} {place : Status threads}
    (new : ∀ p, place ≠ .chained p) (work : s'.workreqs = s.workreqs) :
    Behind s' (update status req place) := by
  refine behind.of_same (fun p r chained => ?_) work
  rw [update_apply] at chained
  split_ifs at chained
  · exact absurd chained (new p)
  · exact chained

theorem followed_chained {t : Fin threads} {req : ReqId} {place : Status threads}
    (new : ∀ p, place ≠ .chained p) (p r : ReqId)
    (chained : followed s status t req place r = .chained p) : status r = .chained p := by
  unfold followed at chained
  split_ifs at chained
  · exact absurd chained (new p)
  · exact chained

theorem of_section (behind : Behind s status) (h : Consistent s status) {t : Fin threads}
    {event : Event} (sec : Section s status t event s' status') : Behind s' status' := by
  cases sec with
  | alloc | add | keep | resume | flushPending | answer | answerFlush | releaseFlush | done =>
      exact behind.of_update (by simp) rfl
  | mark pc =>
      rw [h.respondMark_eq pc]
      exact behind.of_update (by simp) rfl
  | @take req rest pc first =>
      intro p r place mem
      have queued : status req = .queued := (h.queued req).2 (by simp [first])
      rw [update_apply] at place
      split_ifs at place with same
      obtain ⟨linked, link⟩ := (h.chained p r).1 place
      have other : p ≠ req := by
        rintro rfl
        simp [h.alone p (by simp [queued, Status.early])] at link
      have mem : p ∈ req :: s.workreqs := mem
      exact List.mem_cons_of_mem _ (behind p r place ((List.mem_cons.mp mem).resolve_left other))
  | stay | flushNone | flushDone => exact behind.of_same (fun _ _ => id) rfl
  | @flushWorking req creq pc pending found =>
      have inside := List.mem_of_find?_eq_some found
      have serving : status req = .hands t .serving :=
        (h.hands t req .serving).2 (by simp [pc, Pc.Has])
      have place' : (status creq).linked = true := Status.linked_of_mayWork (h.mayWork creq inside)
      intro p r place mem
      change r ∈ s.workreqs
      change p ∈ s.workreqs at mem
      unfold reattached at place
      split_ifs at place with first second third
      · rw [first]
        exact h.mustWork req (by simp [serving, Status.mustWork])
      · exact behind creq r (h.link_chained place' second.1) inside
      · exact behind p r place mem
  | @unlink req rtype chain pc path =>
      have marking : status req = .hands t .marking :=
        (h.hands t req .marking).2 (by simp [pc, Pc.Has])
      have linked : (status req).linked = true := by simp [marking, Status.linked]
      intro p r place mem
      rw [update_apply] at place
      split_ifs at place with same
      have before := h.work_nodup.mem_sdiff_iff.mp mem
      refine h.work_nodup.mem_sdiff_iff.mpr ⟨behind p r place before.1, fun inside => ?_⟩
      rcases List.mem_cons.mp inside with here | inside
      · exact same here
      · obtain ⟨q, mem', place'⟩ := h.path_chained linked path r inside
        rw [place] at place'
        cases place'
        exact before.2 mem'
  | readLink => exact behind.of_same (followed_chained (by simp)) rfl
  | readFlushLink => exact behind.of_same (followed_chained (by simp)) rfl

end Behind

/-! ## The queues -/

/-- Where a thread is in `np_conn_reset`. -/
inductive Reset where
  | idle
  /-- `conn->resetting` is set; with `all`, `msize` is 0. -/
  | began (conn : ℕ) (all : Bool)
  /-- `preqs` have left the pending list, and `reqs` are referenced working requests. -/
  | left (conn : ℕ) (all : Bool) (preqs reqs : List ReqId)
  deriving DecidableEq

/-- The requests that a reset has taken off and has yet to release. -/
def Reset.preqs : Reset → List ReqId
  | .left _ _ preqs _ => preqs
  | _ => []

/-- The requests that a reset has references on. -/
def Reset.reqs : Reset → List ReqId
  | .left _ _ _ reqs => reqs
  | _ => []

/-- A worker took a request. -/
structure Take where
  req : ReqId
  /-- Its address. -/
  home : ℕ
  /-- `srv->reqs_first`. -/
  first : Option ℕ
  /-- The pending requests, in the order of their arrival. -/
  pending : List ReqId

/-- A server with the fields of its lists. -/
structure Queues (threads : ℕ) where
  server : Server threads
  lists : Lists
  reset : Fin threads → Reset
  /-- `conn->resetting`. -/
  resetting : ℕ → Bool
  /-- History: the requests that were queued, in order. -/
  arrived : List ReqId
  /-- History: the requests that workers took, the last one first. -/
  taken : List ReqId
  /-- History: the requests that a flush or a reset took off the pending list. -/
  removed : List ReqId
  /-- History: the requests that `np_respond` took off the working list. -/
  unlinked : List ReqId
  /-- History: how workers took their requests. -/
  takes : List Take

/-- What happens next. -/
inductive QueueEvent (threads : ℕ) where
  /-- A section of a reader, a worker or a back end. -/
  | serve (t : Fin threads) (event : Event)
  /-- The reader drops the request that it has allocated, as the connection is reset. -/
  | drop (t : Fin threads)
  /-- The pool of requests, or `free`, stores to the `next` field of a free structure. -/
  | pool (home : ℕ) (next : Option ℕ)
  /-- `np_conn_reset` is called, and sets `conn->resetting`. -/
  | reset (t : Fin threads) (conn : ℕ) (all : Bool)
  /-- Its first section under `srv->lock`. -/
  | detach (t : Fin threads)
  /-- `np_conn_respond` and `np_req_unref` of the next request in `preqs`. -/
  | release (t : Fin threads)
  /-- Its wait is over, and it returns. -/
  | finish (t : Fin threads)

namespace Queues

variable (s : Queues threads)

/-- A new server. -/
def start (threads : ℕ) : Queues threads where
  server := .start threads
  lists := ⟨⟨fun _ => none, fun _ => none⟩, none, none, none⟩
  reset _ := .idle
  resetting _ := false
  arrived := []
  taken := []
  removed := []
  unlinked := []
  takes := []

/-- The address of a request. -/
def home (req : ReqId) : ℕ := (s.server.req req).home

/-- The requests that arrived and were neither taken nor removed, in the order of their arrival. -/
def pending : List ReqId := s.arrived.filter fun r => decide (r ∉ s.taken ∧ r ∉ s.removed)

/-- The requests that were taken and are not answered. -/
def working : List ReqId := s.taken.filter fun r => decide (r ∉ s.unlinked)

/-- No reset has a reference on a request at this address. -/
def Unpinned (home : ℕ) : Prop := ∀ t, ∀ r ∈ (s.reset t).reqs, s.home r ≠ home

instance (home : ℕ) : Decidable (s.Unpinned home) :=
  inferInstanceAs (Decidable (∀ t, ∀ r ∈ (s.reset t).reqs, s.home r ≠ home))

/-- The test of `np_conn_reset` on working requests. -/
def concerns (conn : ℕ) (all : Bool) (r : ReqId) : Bool :=
  decide ((s.server.req r).conn = conn) &&
    (all || decide ((s.server.req r).tcall.type ≠ MsgType.tversion.code))

/-- What a section does to the lists. -/
def touch (t : Fin threads) (event : Event) : Queues threads :=
  match s.server.pc t, event with
  | .idle, .receive _ _ home => { s with lists := s.lists.clear home }
  | .idle, .take =>
    match s.server.reqs with
    | req :: _ =>
      { s with
        lists := (s.lists.npSrvRemoveReq (s.home req)).npSrvAddWorkreq (s.home req)
        taken := req :: s.taken
        takes := ⟨req, s.home req, s.lists.reqsFirst, s.pending⟩ :: s.takes }
    | [] => s
  | .allocated req, _ =>
    { s with lists := s.lists.npSrvAddReq (s.home req), arrived := s.arrived ++ [req] }
  | .serving req, .advance =>
    match s.server.reqs.find?
        (s.server.carries (s.server.req req).conn (s.server.req req).tcall.oldtag) with
    | some creq =>
      { s with
        lists := s.lists.npSrvRemoveReq (s.home creq)
        removed := creq :: s.removed }
    | none => s
  | .marked req _, _ =>
    match LinkedChain.walk s.server.link s.server.next (s.server.link req) with
    | some chain =>
      { s with
        lists := (req :: chain).foldl (fun l r => l.npSrvRemoveWorkreq (s.home r)) s.lists
        unlinked := (req :: chain) ++ s.unlinked }
    | none => s
  | _, _ => s

/-- What a section needs of the resets: a structure is free when no reset has it, and the reader
queues a request when its connection is not being reset. -/
def permits (t : Fin threads) (event : Event) : Bool :=
  match s.server.pc t, event with
  | .idle, .receive _ _ home => decide (s.Unpinned home)
  | .allocated req, _ => !s.resetting (s.server.req req).conn
  | _, _ => true

/-- The loop over the pending list in `np_conn_reset`, for the requests of the connection: each one
is removed, and put in front of `preqs`. -/
def detachAll : Lists → Option ℕ → List ReqId → Lists
  | l, _, [] => l
  | l, preqs, req :: rest =>
    detachAll ((l.npSrvRemoveReq (s.home req)).putNext (s.home req) preqs) (some (s.home req)) rest

/-- The first section of `np_conn_reset` under `srv->lock`. -/
def detach (t : Fin threads) (conn : ℕ) (all : Bool) : Queues threads :=
  let preqs := s.server.reqs.filter fun r => decide ((s.server.req r).conn = conn)
  { s with
    server := s.server.detach fun r => decide ((s.server.req r).conn = conn)
    lists := s.detachAll s.lists none preqs
    removed := preqs ++ s.removed
    reset := update s.reset t
      (.left conn all preqs.reverse (s.server.workreqs.filter (s.concerns conn all))) }

/-- A thread may call `np_conn_reset`: a reader that ends, or a worker with a `Tversion`. -/
def mayReset (t : Fin threads) : Bool :=
  match s.server.pc t with
  | .idle | .serving _ => true
  | _ => false

/-- One step; `none` when it cannot be taken. -/
def step : QueueEvent threads → Option (Queues threads)
  | .serve t event =>
    if s.reset t = .idle ∧ s.permits t event = true then
      (Requests.step s.server (t, event)).map fun server => { s.touch t event with server }
    else none
  | .drop t =>
    match s.server.pc t with
    | .allocated req =>
      if s.reset t = .idle ∧ s.resetting (s.server.req req).conn = true then
        some { s with server := ((s.server.npSrvAddReq t req).detach (· == req)).cancel req }
      else none
    | _ => none
  | .pool home next =>
    if s.server.Free home ∧ s.Unpinned home then
      some { s with lists := s.lists.putNext home next }
    else none
  | .reset t conn all =>
    if s.reset t = .idle ∧ s.mayReset t = true then
      some { s with
        reset := update s.reset t (.began conn all)
        resetting := update s.resetting conn true }
    else none
  | .detach t =>
    match s.reset t with
    | .began conn all => some (s.detach t conn all)
    | _ => none
  | .release t =>
    match s.reset t with
    | .left conn all (req :: rest) reqs =>
      some { s with
        server := s.server.cancel req
        reset := update s.reset t (.left conn all rest reqs) }
    | _ => none
  | .finish t =>
    match s.reset t with
    | .left conn all [] _ =>
      if ∀ r ∈ s.server.workreqs, s.concerns conn all r = false then
        some { s with
          reset := update s.reset t .idle
          resetting := update s.resetting conn false }
      else none
    | _ => none

/-- The `next` fields lead from the first of these requests to the last, and end there. -/
def Hangs (preqs : List ReqId) : Prop :=
  LinkedChain.Path s.lists.links.next (preqs.map s.home).head? (preqs.map s.home)

/-- The fields of the lists hold the pending requests in the order of their arrival, and the
working requests; no request is on both lists or twice on one; the requests that a reset has yet to
release hang together; and each request that a worker took was the oldest pending one. -/
structure WellFormed : Prop where
  shaped : s.lists.Shaped (s.pending.map s.home) (s.working.map s.home)
  apart : ((s.pending ++ s.working).map s.home).Nodup
  released : ∀ t, s.Hangs (s.reset t).preqs
  oldest : ∀ take ∈ s.takes, take.pending.head? = some take.req ∧ take.first = some take.home

/-- No structure is taken by `np_req_alloc` whose `flushreq` a thread is about to read without a
reference. -/
def Settled : QueueEvent threads → Prop
  | .serve _ event => Unread s.server event
  | _ => True

instance (event : QueueEvent threads) : Decidable (s.Settled event) :=
  match event with
  | .serve _ event => inferInstanceAs (Decidable (Unread s.server event))
  | .drop _ | .pool .. | .reset .. | .detach _ | .release _ | .finish _ => .isTrue trivial

/-! ## Sections of the threads -/

variable {s}

/-- What one section of thread `t` does to the queues. -/
inductive Serves (s : Queues threads) (status : ReqId → Status threads) (t : Fin threads) :
    Event → Queues threads → (ReqId → Status threads) → Prop
  | alloc {conn home : ℕ} {tc : Npfcall} (pc : s.server.pc t = .idle)
      (free : s.server.Free home) :
      Serves s status t (.receive conn tc home)
        { s with
          server := s.server.npReqAlloc t conn tc home
          lists := s.lists.clear home }
        (update status s.server.next (.hands t .entering))
  | add {req : ReqId} (pc : s.server.pc t = .allocated req) :
      Serves s status t .advance
        { s with
          server := s.server.npSrvAddReq t req
          lists := s.lists.npSrvAddReq (s.home req)
          arrived := s.arrived ++ [req] }
        (update status req .queued)
  | take {req : ReqId} {rest : List ReqId} (pc : s.server.pc t = .idle)
      (first : s.server.reqs = req :: rest) :
      Serves s status t .take
        { s with
          server := s.server.takeReq t req rest
          lists := (s.lists.npSrvRemoveReq (s.home req)).npSrvAddWorkreq (s.home req)
          taken := req :: s.taken
          takes := ⟨req, s.home req, s.lists.reqsFirst, s.pending⟩ :: s.takes }
        (update status req (.hands t .serving))
  | flushPending {req creq : ReqId} (pc : s.server.pc t = .serving req)
      (found : s.server.reqs.find?
        (s.server.carries (s.server.req req).conn (s.server.req req).tcall.oldtag) = some creq) :
      Serves s status t .advance
        { s with
          server := (s.server.search req).flushPending t req creq
          lists := s.lists.npSrvRemoveReq (s.home creq)
          removed := creq :: s.removed }
        (update status creq .cancelled)
  | unlink {req : ReqId} {rtype : UInt8} {chain : List ReqId}
      (pc : s.server.pc t = .marked req rtype)
      (path : LinkedChain.Path s.server.link (s.server.link req) chain) :
      Serves s status t .advance
        { s with
          server := s.server.respondUnlink t req rtype chain
          lists := (req :: chain).foldl (fun l r => l.npSrvRemoveWorkreq (s.home r)) s.lists
          unlinked := (req :: chain) ++ s.unlinked }
        (update status req (.hands t .sending))
  | other {event : Event} {server : Server threads} {status' : ReqId → Status threads}
      (sec : Section s.server status t event server status')
      (reqs : server.reqs = s.server.reqs) (workreqs : server.workreqs = s.server.workreqs)
      (entered : server.entered = s.server.entered)
      (homes : ∀ r, (server.req r).home = (s.server.req r).home)
      (entering : ∀ u r, server.pc u = .allocated r → s.server.pc u = .allocated r) :
      Serves s status t event { s with server } status'

theorem allocated_of_setPc {server : Server threads} {t u : Fin threads} {pc : Pc} {r : ReqId}
    (other : ∀ r, pc ≠ .allocated r) (there : (server.setPc t pc).pc u = .allocated r) :
    server.pc u = .allocated r := by
  simp only [Server.setPc, update_apply] at there
  split_ifs at there
  · exact absurd there (other r)
  · exact there

theorem loop_ne_allocated (req : ReqId) (freq : Option ReqId) (r : ReqId) :
    Pc.loop req freq ≠ .allocated r := by
  cases freq <;> simp [Pc.loop]

theorem serves_of_step {t : Fin threads} {event : Event} {server : Server threads}
    (taken : Requests.step s.server (t, event) = some server) :
    ∃ status', Serves s status t event { s.touch t event with server } status' := by
  cases pc : s.server.pc t with
  | idle =>
      simp only [Requests.step, pc] at taken
      cases event with
      | receive conn tc home =>
          simp only at taken
          split at taken
          · cases taken
            simp only [touch, pc]
            exact ⟨_, .alloc pc ‹_›⟩
          · cases taken
      | take =>
          simp only at taken
          split at taken
          · rename_i req rest first
            cases taken
            simp only [touch, pc, first]
            exact ⟨_, .take pc first⟩
          · cases taken
      | resume req rtype =>
          simp only at taken
          split at taken
          · cases taken
            simp only [touch, pc]
            exact ⟨_, .other (.resume pc ‹_›) rfl rfl rfl (fun _ => rfl) fun _ _ there =>
              allocated_of_setPc (by simp) there⟩
          · cases taken
      | _ => cases taken
  | allocated req =>
      simp only [Requests.step, pc] at taken
      split at taken
      · cases taken
        simp only [touch, pc]
        exact ⟨_, .add pc⟩
      · cases taken
  | serving req =>
      simp only [Requests.step, pc] at taken
      split at taken
      · cases taken
        simp only [touch, pc, Server.npFlush]
        cases found : s.server.reqs.find?
            (s.server.carries (s.server.req req).conn (s.server.req req).tcall.oldtag) with
        | some creq => exact ⟨_, .flushPending pc found⟩
        | none =>
            simp only
            split
            · exact ⟨_, .other (.flushWorking pc found ‹_›) rfl rfl rfl
                (fun r => Server.home_npReqRef _ r) fun _ _ there =>
                allocated_of_setPc (by simp) there⟩
            · exact ⟨_, .other (.flushNone pc found ‹_›) rfl rfl rfl (fun _ => rfl) fun _ _ there =>
                allocated_of_setPc (by simp) there⟩
      · cases taken
        simp only [touch, pc]
        exact ⟨_, .other (.stay (by simp [pc, Pc.Has]) (by simp [pc]) (by simp)
          (by rw [pc]; rfl)) rfl rfl rfl (fun _ => rfl) fun _ _ there =>
          allocated_of_setPc (by simp) there⟩
      · cases taken
        simp only [touch, pc]
        exact ⟨_, .other (.keep pc) rfl rfl rfl (fun _ => rfl) fun _ _ there =>
          allocated_of_setPc (by simp) there⟩
      · cases taken
  | flushed creq =>
      simp only [Requests.step, pc] at taken
      split at taken
      · cases taken
        simp only [touch, pc]
        exact ⟨_, .other (.flushDone pc) rfl rfl rfl (fun r => Server.home_npReqUnref _ r)
          fun _ _ there => allocated_of_setPc (by simp) there⟩
      · cases taken
  | respond req rtype =>
      simp only [Requests.step, pc] at taken
      split at taken
      · cases taken
        simp only [touch, pc]
        refine ⟨_, .other (.mark pc) ?_ ?_ ?_ (fun r => Server.home_respondMark t req rtype r) ?_⟩
        · unfold Server.respondMark
          split_ifs <;> rfl
        · unfold Server.respondMark
          split_ifs <;> rfl
        · unfold Server.respondMark
          split_ifs <;> rfl
        · intro u r there
          unfold Server.respondMark at there
          split_ifs at there
          · exact allocated_of_setPc (by simp) there
          · exact allocated_of_setPc (by simp) there
      · cases taken
  | marked req rtype =>
      simp only [Requests.step, pc] at taken
      split at taken
      · obtain ⟨chain, walked, rfl⟩ := Option.map_eq_some_iff.mp taken
        simp only [touch, pc, walked]
        exact ⟨_, .unlink pc (LinkedChain.path_of_walk walked)⟩
      · cases taken
  | unlinked req rtype =>
      simp only [Requests.step, pc] at taken
      split at taken
      · cases taken
        simp only [touch, pc]
        exact ⟨_, .other (.stay (by simp [pc, Pc.Has]) (by simp [pc]) (by simp)
          (by rw [pc]; rfl)) rfl rfl rfl (fun _ => rfl) fun _ _ there =>
          allocated_of_setPc (by simp) there⟩
      · cases taken
        simp only [touch, pc]
        exact ⟨_, .other (.answer (.inl pc)) rfl rfl rfl (fun _ => rfl) fun _ _ there =>
          allocated_of_setPc (by simp) there⟩
      · cases taken
  | writing req rtype =>
      simp only [Requests.step, pc] at taken
      split at taken
      · cases taken
        simp only [touch, pc]
        exact ⟨_, .other (.answer (.inr pc)) rfl rfl rfl (fun _ => rfl) fun _ _ there =>
          allocated_of_setPc (by simp) there⟩
      · cases taken
  | responded req =>
      simp only [Requests.step, pc] at taken
      split at taken
      · cases taken
        simp only [touch, pc]
        exact ⟨_, .other (.readLink pc) rfl rfl rfl (fun _ => rfl) fun _ _ there =>
          allocated_of_setPc (loop_ne_allocated _ _) there⟩
      · cases taken
  | flushing req freq =>
      simp only [Requests.step, pc] at taken
      split at taken
      · cases taken
        simp only [touch, pc]
        exact ⟨_, .other (.stay (by simp [pc, Pc.Has]) (by simp [pc]) (by simp)
          (by rw [pc]; rfl)) rfl rfl rfl (fun _ => rfl) fun _ _ there =>
          allocated_of_setPc (by simp) there⟩
      · cases taken
        simp only [touch, pc]
        exact ⟨_, .other (.answerFlush (.inl pc)) rfl rfl rfl (fun _ => rfl) fun _ _ there =>
          allocated_of_setPc (by simp) there⟩
      · cases taken
  | flushWriting req freq =>
      simp only [Requests.step, pc] at taken
      split at taken
      · cases taken
        simp only [touch, pc]
        exact ⟨_, .other (.answerFlush (.inr pc)) rfl rfl rfl (fun _ => rfl) fun _ _ there =>
          allocated_of_setPc (by simp) there⟩
      · cases taken
  | flushResponded req freq =>
      simp only [Requests.step, pc] at taken
      split at taken
      · cases taken
        simp only [touch, pc]
        exact ⟨_, .other (.releaseFlush pc) rfl rfl rfl (fun r => Server.home_npReqUnref _ r)
          fun _ _ there => allocated_of_setPc (by simp) there⟩
      · cases taken
  | released req freq =>
      simp only [Requests.step, pc] at taken
      split at taken
      · cases taken
        simp only [touch, pc]
        exact ⟨_, .other (.readFlushLink pc) rfl rfl rfl (fun _ => rfl) fun _ _ there =>
          allocated_of_setPc (loop_ne_allocated _ _) there⟩
      · cases taken
  | finishing req =>
      simp only [Requests.step, pc] at taken
      split at taken
      · cases taken
        simp only [touch, pc]
        exact ⟨_, .other (.done pc) rfl rfl rfl (fun r => Server.home_npReqUnref _ r)
          fun _ _ there => allocated_of_setPc (by simp) there⟩
      · cases taken

/-! ## What holds of the queues -/

/-- The lists of the server are what the record of arrivals and departures leaves. -/
structure Recorded (s : Queues threads) : Prop where
  pending : s.server.reqs = s.pending
  working : s.server.workreqs = s.working
  arrived : ∀ r ∈ s.arrived, r ∈ s.server.entered
  taken : ∀ r ∈ s.taken, r ∈ s.arrived
  removed : ∀ r ∈ s.removed, r ∈ s.arrived
  unlinked : ∀ r ∈ s.unlinked, r ∈ s.taken
  takes : ∀ take ∈ s.takes, take.pending.head? = some take.req ∧ take.first = some take.home

/-- The requests that the resets have taken off are theirs alone. -/
structure Separate (s : Queues threads) (status : ReqId → Status threads) : Prop where
  apart : ∀ t, ∀ r ∈ (s.reset t).preqs, Apart s.server status r
  once : ∀ t, (s.reset t).preqs.Nodup
  alone : ∀ t u r, r ∈ (s.reset t).preqs → r ∈ (s.reset u).preqs → t = u
  chain : ∀ t, s.Hangs (s.reset t).preqs

/-- What holds as long as each step is settled. -/
structure Sound (s : Queues threads) (status : ReqId → Status threads) : Prop where
  consistent : Consistent s.server status
  behind : Behind s.server status
  shaped : s.lists.Shaped (s.server.reqs.map s.home) (s.server.workreqs.map s.home)
  entering : ∀ t r, s.server.pc t = .allocated r → s.lists.links.next (s.home r) = none
  recorded : s.Recorded
  separate : s.Separate status

theorem sound_start : (start threads).Sound fun _ => .unborn where
  consistent := .start
  behind p r place := by cases place
  shaped :=
    { queued := trivial
      first := rfl
      last := rfl
      served := trivial
      head := rfl
      apart := by simp [start, Server.start] }
  entering t r there := by cases there
  recorded :=
    { pending := rfl
      working := rfl
      arrived := by simp [start]
      taken := by simp [start]
      removed := by simp [start]
      unlinked := by simp [start]
      takes := by simp [start] }
  separate :=
    { apart := by simp [start, Reset.preqs]
      once := by simp [start, Reset.preqs]
      alone := by simp [start, Reset.preqs]
      chain := fun t => .nil }

namespace Sound

theorem wellFormed (sound : s.Sound status) : s.WellFormed where
  shaped := by
    rw [← sound.recorded.pending, ← sound.recorded.working]
    exact sound.shaped
  apart := by
    rw [← sound.recorded.pending, ← sound.recorded.working, List.map_append]
    exact sound.shaped.nodup
  released := sound.separate.chain
  oldest := sound.recorded.takes

/-- The requests on the lists have their first references. -/
theorem listed (sound : s.Sound status) {r : ReqId}
    (mem : r ∈ s.server.reqs ++ s.server.workreqs) :
    (status r).linked = true ∧ (status r).based = true ∧ r < s.server.next := by
  have place : (status r).linked = true ∧ (status r).based = true := by
    rcases List.mem_append.mp mem with mem | mem
    · simp [(sound.consistent.queued r).2 mem, Status.linked, Status.based]
    · have may := sound.consistent.mayWork r mem
      refine ⟨Status.linked_of_mayWork may, ?_⟩
      cases place : status r with
      | hands t role => cases role <;> simp_all [Status.mayWork, Status.based]
      | _ => simp_all [Status.mayWork, Status.based]
  refine ⟨place.1, place.2, ?_⟩
  by_contra late
  simp [(sound.consistent.born r).2 (not_lt.mp late), Status.linked] at place

/-- A request that has its reference does not live in a free structure. -/
theorem home_ne (sound : s.Sound status) {home : ℕ} (free : s.server.Free home) {r : ReqId}
    (based : (status r).based = true) : s.home r ≠ home := by
  intro same
  have born : r < s.server.next := by
    by_contra late
    simp [(sound.consistent.born r).2 (not_lt.mp late), Status.based] at based
  have none := free r born same
  rw [sound.consistent.refcount, based] at none
  simp at none

/-- A free structure is on neither list. -/
theorem out_of_free (sound : s.Sound status) {home : ℕ} (free : s.server.Free home) :
    home ∉ s.server.reqs.map s.home ++ s.server.workreqs.map s.home := by
  rw [← List.map_append]
  intro mem
  obtain ⟨r, mem, same⟩ := List.mem_map.mp mem
  exact sound.home_ne free (sound.listed mem).2.1 same

/-- A request that is on neither list has an address that is on neither list. -/
theorem out_of_linked (sound : s.Sound status) {r : ReqId} (linked : (status r).linked = true)
    (out : r ∉ s.server.reqs ++ s.server.workreqs) :
    s.home r ∉ s.server.reqs.map s.home ++ s.server.workreqs.map s.home := by
  rw [← List.map_append]
  intro mem
  obtain ⟨q, mem, same⟩ := List.mem_map.mp mem
  have one := sound.consistent.homes q r (sound.listed mem).1 linked same
  exact out (one ▸ mem)

/-- What is known of a request that the reader has allocated. -/
theorem of_allocated (sound : s.Sound status) {t : Fin threads} {r : ReqId}
    (pc : s.server.pc t = .allocated r) :
    status r = .hands t .entering ∧ r ∉ s.server.reqs ++ s.server.workreqs ∧
      r ∉ s.server.entered := by
  have place : status r = .hands t .entering :=
    (sound.consistent.hands t r .entering).2 (by simp [pc, Pc.Has])
  refine ⟨place, fun mem => ?_, fun mem => ?_⟩
  · rcases List.mem_append.mp mem with mem | mem
    · simp [(sound.consistent.queued r).2 mem] at place
    · have may := sound.consistent.mayWork r mem
      simp [place, Status.mayWork] at may
  · exact ((sound.consistent.entered r).1 mem).2 t place

/-- The address of such a request is on neither list. -/
theorem out_of_allocated (sound : s.Sound status) {t : Fin threads} {r : ReqId}
    (pc : s.server.pc t = .allocated r) :
    s.home r ∉ s.server.reqs.map s.home ++ s.server.workreqs.map s.home := by
  obtain ⟨place, out, -⟩ := sound.of_allocated pc
  exact sound.out_of_linked (by simp [place, Status.linked]) out

/-- A request that has been allocated is not the next one. -/
theorem old (sound : s.Sound status) {r : ReqId} (born : status r ≠ .unborn) :
    r ≠ s.server.next := by
  rintro rfl
  exact born ((sound.consistent.born s.server.next).2 le_rfl)

theorem off_of_apart (sound : s.Sound status) {r : ReqId} (apart : Apart s.server status r) :
    r ∉ s.server.reqs ++ s.server.workreqs := by
  intro mem
  rcases List.mem_append.mp mem with mem | mem
  · have queued := (sound.consistent.queued r).2 mem
    simp [apart.lost] at queued
  · exact apart.off mem

end Sound

/-! ## Sections and the lists -/

variable {s' : Queues threads}

theorem Serves.section_ {t : Fin threads} {event : Event}
    (serves : Serves s status t event s' status') :
    Section s.server status t event s'.server status' ∧ s'.reset = s.reset := by
  cases serves with
  | alloc pc free => exact ⟨.alloc pc free, rfl⟩
  | add pc => exact ⟨.add pc, rfl⟩
  | take pc first => exact ⟨.take pc first, rfl⟩
  | flushPending pc found => exact ⟨.flushPending pc found, rfl⟩
  | unlink pc path => exact ⟨.unlink pc path, rfl⟩
  | other sec => exact ⟨sec, rfl⟩

theorem Hangs.of_same {preqs : List ReqId} (hangs : s.Hangs preqs)
    (home : ∀ r ∈ preqs, s'.home r = s.home r)
    (next : ∀ r ∈ preqs, s'.lists.links.next (s.home r) = s.lists.links.next (s.home r)) :
    s'.Hangs preqs := by
  have homes := List.map_congr_left home
  unfold Hangs
  rw [homes]
  refine hangs.congr fun q mem => ?_
  obtain ⟨r, inside, rfl⟩ := List.mem_map.mp mem
  exact next r inside

theorem shaped_of_homes {lists : Lists} {reqs workreqs : List ReqId}
    (shaped : lists.Shaped (reqs.map s.home) (workreqs.map s.home))
    (homes : ∀ r ∈ reqs ++ workreqs, s'.home r = s.home r) :
    lists.Shaped (reqs.map s'.home) (workreqs.map s'.home) := by
  rw [List.map_congr_left fun r mem => homes r (List.mem_append_left _ mem),
    List.map_congr_left fun r mem => homes r (List.mem_append_right _ mem)]
  exact shaped

theorem erase_middle {front back : List ReqId} {r : ReqId} (once : (front ++ r :: back).Nodup) :
    (front ++ r :: back).erase r = front ++ back := by
  have out : r ∉ front := by
    simp only [List.nodup_append, List.mem_cons] at once
    exact fun mem => once.2.2 r mem r (.inl rfl) rfl
  rw [List.erase_append_right _ out, List.erase_cons_head]

/-- Working requests leave one after the other, and the requests on neither list keep their
fields. -/
theorem shaped_unlink {rs : List ReqId} {l : Lists} {work : List ReqId}
    (shaped : l.Shaped (s.server.reqs.map s.home) (work.map s.home))
    (inside : ∀ r ∈ rs, r ∈ work) (once : rs.Nodup) (once' : work.Nodup) :
    (rs.foldl (fun l r => l.npSrvRemoveWorkreq (s.home r)) l).Shaped
        (s.server.reqs.map s.home) ((work.diff rs).map s.home) ∧
      ∀ q ∉ work.map s.home,
        (rs.foldl (fun l r => l.npSrvRemoveWorkreq (s.home r)) l).links.next q =
          l.links.next q := by
  induction rs generalizing l work with
  | nil => exact ⟨by simpa using shaped, fun _ _ => rfl⟩
  | cons r rest ih =>
      obtain ⟨front, back, rfl⟩ := List.append_of_mem (inside r List.mem_cons_self)
      have left := erase_middle once'
      rw [List.map_append, List.map_cons] at shaped
      have removed := shaped.removeWorkreq
      rw [← List.map_append] at removed
      have inside' : ∀ q ∈ rest, q ∈ front ++ back := by
        intro q mem
        have other : q ≠ r := fun same => (List.nodup_cons.mp once).1 (same ▸ mem)
        simpa [other] using inside q (List.mem_cons_of_mem _ mem)
      obtain ⟨after, next⟩ := ih removed inside' (List.nodup_cons.mp once).2
        (left ▸ once'.erase r)
      refine ⟨?_, fun q out => ?_⟩
      · rw [List.diff_cons, left]
        exact after
      · rw [List.map_append, List.map_cons] at out
        refine (next q fun mem => out ?_).trans (Lists.Shaped.next_unlink shaped.served out)
        rw [List.map_append] at mem
        rcases List.mem_append.mp mem with mem | mem
        · exact List.mem_append_left _ mem
        · exact List.mem_append_right _ (List.mem_cons_of_mem _ mem)

/-- The loop of `np_conn_reset` over the pending list: the requests that it takes off hang together,
the last one first, and the requests on neither list keep their fields. -/
theorem shaped_detachAll {gone : List ReqId} {l : Lists} {reqs : List ReqId} {working : List ℕ}
    (done : List ReqId) (shaped : l.Shaped (reqs.map s.home) working)
    (inside : ∀ r ∈ gone, r ∈ reqs) (once : gone.Nodup)
    (chain : LinkedChain.Path l.links.next (done.map s.home).head? (done.map s.home))
    (apart : ∀ r ∈ done, s.home r ∉ reqs.map s.home) :
    (s.detachAll l (done.map s.home).head? gone).Shaped ((reqs.diff gone).map s.home) working ∧
      LinkedChain.Path (s.detachAll l (done.map s.home).head? gone).links.next
        ((gone.reverse ++ done).map s.home).head? ((gone.reverse ++ done).map s.home) ∧
      ∀ q ∉ reqs.map s.home,
        (s.detachAll l (done.map s.home).head? gone).links.next q = l.links.next q := by
  induction gone generalizing l reqs done with
  | nil => exact ⟨shaped, chain, fun _ _ => rfl⟩
  | cons r rest ih =>
      obtain ⟨front, back, rfl⟩ := List.append_of_mem (inside r List.mem_cons_self)
      have distinct : (front ++ r :: back).Nodup :=
        (List.nodup_append.mp shaped.nodup).1.of_map
      have left := erase_middle distinct
      rw [List.map_append, List.map_cons] at shaped
      -- where the removed request is no longer
      have out : s.home r ∉ (front ++ back).map s.home ++ working := by
        have nodup := shaped.nodup
        simp only [List.map_append, List.nodup_append, List.nodup_cons, List.mem_append,
          List.mem_cons] at nodup ⊢
        grind -linarith
      have removed := shaped.removeReq
      rw [← List.map_append] at removed
      have placed := removed.putNext out (done.map s.home).head?
      have next : ∀ q ∉ (front ++ r :: back).map s.home,
          ((l.npSrvRemoveReq (s.home r)).putNext (s.home r) (done.map s.home).head?).links.next q =
            l.links.next q := by
        intro q off
        rw [List.map_append, List.map_cons] at off
        have other : q ≠ s.home r := by
          rintro rfl
          exact off (List.mem_append_right _ List.mem_cons_self)
        exact (Lists.next_putNext_of_ne other).trans
          (Lists.Shaped.next_unlink shaped.queued off)
      have inside' : ∀ q ∈ rest, q ∈ front ++ back := by
        intro q mem
        have other : q ≠ r := fun same => (List.nodup_cons.mp once).1 (same ▸ mem)
        simpa [other] using inside q (List.mem_cons_of_mem _ mem)
      have chain' : LinkedChain.Path
          ((l.npSrvRemoveReq (s.home r)).putNext (s.home r) (done.map s.home).head?).links.next
          (some (s.home r)) (s.home r :: done.map s.home) := by
        refine .cons ?_
        have here : ((l.npSrvRemoveReq (s.home r)).putNext (s.home r)
            (done.map s.home).head?).links.next (s.home r) = (done.map s.home).head? :=
          if_pos rfl
        rw [here]
        refine chain.congr fun q mem => ?_
        obtain ⟨d, earlier, rfl⟩ := List.mem_map.mp mem
        exact next _ (apart d earlier)
      have apart' : ∀ d ∈ r :: done, s.home d ∉ (front ++ back).map s.home := by
        intro d mem
        rcases List.mem_cons.mp mem with rfl | mem
        · exact fun inside => out (List.mem_append_left _ inside)
        · intro inside
          refine apart d mem ?_
          rw [List.map_append] at inside ⊢
          rcases List.mem_append.mp inside with inside | inside
          · exact List.mem_append_left _ inside
          · exact List.mem_append_right _ (List.mem_cons_of_mem _ inside)
      obtain ⟨after, hangs, kept⟩ := ih (r :: done) placed inside' (List.nodup_cons.mp once).2
        chain' apart'
      refine ⟨?_, ?_, fun q off => ?_⟩
      · rw [List.diff_cons, left]
        exact after
      · rw [List.reverse_cons, List.append_assoc]
        exact hangs
      · refine (kept q fun mem => off ?_).trans (next q off)
        rw [List.map_append] at mem ⊢
        rcases List.mem_append.mp mem with mem | mem
        · exact List.mem_append_left _ mem
        · exact List.mem_append_right _ (List.mem_cons_of_mem _ mem)

/-- The request that is answered and the flushes behind it are working requests. -/
theorem Sound.chain_inside (sound : s.Sound status) {t : Fin threads} {req : ReqId} {rtype : UInt8}
    {chain : List ReqId} (pc : s.server.pc t = .marked req rtype)
    (path : LinkedChain.Path s.server.link (s.server.link req) chain) :
    (∀ r ∈ req :: chain, r ∈ s.server.workreqs) ∧ (req :: chain).Nodup := by
  have h := sound.consistent
  have place : status req = .hands t .marking :=
    (h.hands t req .marking).2 (by simp [pc, Pc.Has])
  have work : req ∈ s.server.workreqs := h.mustWork req (by simp [place, Status.mustWork])
  have follow : ∀ {start chain}, LinkedChain.Path s.server.link start chain → ∀ p,
      p ∈ s.server.workreqs → s.server.link p = start → ∀ r ∈ chain, r ∈ s.server.workreqs := by
    intro start chain path
    induction path with
    | nil => simp
    | @cons first rest tail ih =>
        intro p mem link r inside
        have linked := Status.linked_of_mayWork (h.mayWork p mem)
        have next := sound.behind p first (h.link_chained linked link) mem
        rcases List.mem_cons.mp inside with rfl | inside
        · exact next
        · exact ih first next rfl r inside
  have apart : req ∉ chain := by
    intro mem
    obtain ⟨p, -, chained⟩ := h.path_chained (by simp [place, Status.linked]) path req mem
    simp [place] at chained
  refine ⟨fun r mem => ?_, List.nodup_cons.mpr ⟨apart, path.nodup⟩⟩
  rcases List.mem_cons.mp mem with rfl | mem
  · exact work
  · exact follow path req work rfl r mem

/-- The requests that are left when more are taken or removed. -/
theorem filter_gone (arrived taken removed out off : List ReqId) :
    (arrived.filter fun r => decide (r ∉ out ++ taken ∧ r ∉ off ++ removed)) =
      (arrived.filter fun r => decide (r ∉ taken ∧ r ∉ removed)).filter fun r =>
        decide (r ∉ out ∧ r ∉ off) := by
  rw [List.filter_filter]
  refine List.filter_congr fun r _ => ?_
  simp only [List.mem_append, not_or, Bool.decide_and]
  ac_rfl

namespace Sound

/-- The lists after a section. -/
theorem shaped_of_serves (sound : s.Sound status) {t : Fin threads} {event : Event}
    (serves : Serves s status t event s' status') :
    s'.lists.Shaped (s'.server.reqs.map s'.home) (s'.server.workreqs.map s'.home) := by
  cases serves with
  | alloc pc free =>
      refine shaped_of_homes (sound.shaped.clear (sound.out_of_free free)) fun r mem => ?_
      have other := (sound.listed mem).2.2.ne
      exact congrArg Npreq.home (update_of_ne other _ _)
  | @add req pc =>
      have shaped := sound.shaped.addReq (sound.out_of_allocated pc) (sound.entering t req pc)
      change Lists.Shaped _ ((s.server.reqs ++ [req]).map s.home) _
      rw [List.map_append]
      exact shaped
  | @take req rest pc first =>
      have before := sound.shaped
      rw [first, List.map_cons] at before
      have apart := before.nodup
      rw [List.cons_append, List.nodup_cons] at apart
      change s.lists.Shaped ([] ++ s.home req :: rest.map s.home) _ at before
      exact before.removeReq.addWorkreq apart.1
  | @flushPending req creq pc found =>
      obtain ⟨front, back, parts⟩ := List.append_of_mem (List.mem_of_find?_eq_some found)
      have before := sound.shaped
      rw [parts, List.map_append, List.map_cons] at before
      have shaped := before.removeReq
      rw [← List.map_append] at shaped
      have left : s.server.reqs.erase creq = front ++ back := by
        have once := sound.consistent.queued_nodup
        rw [parts] at once ⊢
        exact erase_middle once
      rw [← left] at shaped
      exact shaped_of_homes shaped fun r _ => Server.home_npReqUnref creq r
  | @unlink req rtype chain pc path =>
      obtain ⟨inside, once⟩ := sound.chain_inside pc path
      exact (shaped_unlink sound.shaped inside once sound.consistent.work_nodup).1
  | other sec reqs workreqs entered homes entering =>
      refine shaped_of_homes ?_ fun r _ => homes r
      rw [reqs, workreqs]
      exact sound.shaped

/-- The address of a request does not change. -/
theorem home_of_serves {t : Fin threads} {event : Event}
    (serves : Serves s status t event s' status') {r : ReqId} (old : r ≠ s.server.next) : s'.home r = s.home r := by
  cases serves with
  | alloc pc free => exact congrArg Npreq.home (update_of_ne old _ _)
  | add | take | unlink => rfl
  | flushPending pc found => exact Server.home_npReqUnref _ r
  | other sec reqs workreqs entered homes entering => exact homes r

/-- A request that is on neither list keeps its `next` field through a section. -/
theorem next_of_serves (sound : s.Sound status) {t : Fin threads} {event : Event}
    (serves : Serves s status t event s' status') {r : ReqId} (linked : (status r).linked = true)
    (based : (status r).based = true) (off : r ∉ s.server.reqs ++ s.server.workreqs) :
    s'.lists.links.next (s.home r) = s.lists.links.next (s.home r) := by
  have out := sound.out_of_linked linked off
  cases serves with
  | alloc pc free => exact Lists.next_clear_of_ne (sound.home_ne free based)
  | add pc => exact sound.shaped.next_addReq fun mem => out (List.mem_append_left _ mem)
  | @take req rest pc first =>
      have queued := sound.shaped.queued
      rw [first, List.map_cons] at queued out
      have other : s.home r ≠ s.home req := fun same => out (by simp [same])
      change DoublyLinked.Joined _ none ([] ++ s.home req :: rest.map s.home) at queued
      refine (Lists.Shaped.next_addWorkreq other).trans (Lists.Shaped.next_unlink queued ?_)
      exact fun mem => out (List.mem_append_left _ mem)
  | @flushPending req creq pc found =>
      obtain ⟨front, back, parts⟩ := List.append_of_mem (List.mem_of_find?_eq_some found)
      have queued := sound.shaped.queued
      rw [parts, List.map_append, List.map_cons] at queued out
      exact Lists.Shaped.next_unlink queued fun mem => out (List.mem_append_left _ mem)
  | @unlink req rtype chain pc path =>
      obtain ⟨inside, once⟩ := sound.chain_inside pc path
      have kept := (shaped_unlink sound.shaped inside once sound.consistent.work_nodup).2
      exact kept _ fun mem => out (List.mem_append_right _ mem)
  | other => rfl

/-- A request that is allocated after a section was allocated before, or is new. -/
theorem allocated_of_serves {t : Fin threads} {event : Event}
    (serves : Serves s status t event s' status') {u : Fin threads} {r : ReqId}
    (there : s'.server.pc u = .allocated r) :
    s.server.pc u = .allocated r ∨ s'.lists.links.next (s'.home r) = none := by
  cases serves with
  | @alloc conn home tc pc free =>
      change update s.server.pc t (.allocated s.server.next) u = .allocated r at there
      rw [update_apply] at there
      split_ifs at there with same
      · cases there
        have place : ((s.server.npReqAlloc t conn tc home).req s.server.next).home = home :=
          congrArg Npreq.home (update_self (f := s.server.req) ..)
        exact .inr ((congrArg (s.lists.clear home).links.next place).trans Lists.next_clear)
      · exact .inl there
  | add pc => exact .inl (allocated_of_setPc (by simp) there)
  | take pc first => exact .inl (allocated_of_setPc (by simp) there)
  | flushPending pc found => exact .inl (allocated_of_setPc (by simp) there)
  | unlink pc path => exact .inl (allocated_of_setPc (by simp) there)
  | other sec reqs workreqs entered homes entering => exact .inl (entering u r there)

/-- An allocated request keeps its cleared `next` field through a section. -/
theorem entering_of_serves (sound : s.Sound status) {t : Fin threads} {event : Event}
    (serves : Serves s status t event s' status') (u : Fin threads) (r : ReqId)
    (there : s'.server.pc u = .allocated r) : s'.lists.links.next (s'.home r) = none := by
  rcases allocated_of_serves serves there with before | new
  · obtain ⟨place, off, -⟩ := sound.of_allocated before
    have old := sound.old (r := r) (by simp [place])
    have kept := sound.next_of_serves serves (by simp [place, Status.linked])
      (by simp [place, Status.based]) off
    rw [home_of_serves serves old, kept]
    exact sound.entering u r before
  · exact new

/-- What the resets have taken off stays theirs through a section. -/
theorem separate_of_serves (sound : s.Sound status) {t : Fin threads} {event : Event}
    (serves : Serves s status t event s' status') (unread : Unread s.server event) :
    s'.Separate status' := by
  obtain ⟨sec, reset⟩ := serves.section_
  have separate := sound.separate
  constructor
  case apart =>
    intro u r mem
    rw [reset] at mem
    exact (separate.apart u r mem).of_section sound.consistent sec unread
  case once =>
    intro u
    rw [reset]
    exact separate.once u
  case alone =>
    intro u v r mem mem'
    rw [reset] at mem mem'
    exact separate.alone u v r mem mem'
  case chain =>
    intro u
    rw [reset]
    refine (separate.chain u).of_same (fun r mem => ?_) fun r mem => ?_
    · exact home_of_serves serves (sound.old (by simp [(separate.apart u r mem).lost]))
    · have apart := separate.apart u r mem
      exact sound.next_of_serves serves (by simp [apart.lost, Status.linked])
        (by simp [apart.lost, Status.based]) (sound.off_of_apart apart)

/-- The record after a section. -/
theorem recorded_of_serves (sound : s.Sound status) {t : Fin threads} {event : Event}
    (serves : Serves s status t event s' status') : s'.Recorded := by
  obtain ⟨pending, working, arrived, taken, removed, unlinked, takes⟩ := sound.recorded
  cases serves with
  | alloc pc free => exact ⟨pending, working, arrived, taken, removed, unlinked, takes⟩
  | @add req pc =>
      obtain ⟨-, -, new⟩ := sound.of_allocated pc
      have fresh : req ∉ s.arrived := fun mem => new (arrived req mem)
      refine ⟨?_, working, ?_, ?_, ?_, unlinked, takes⟩
      · change s.server.reqs ++ [req] = _
        rw [pending]
        have stays : req ∉ s.taken ∧ req ∉ s.removed :=
          ⟨fun mem => fresh (taken req mem), fun mem => fresh (removed req mem)⟩
        simp [Queues.pending, List.filter_append, stays]
      · intro r mem
        rcases List.mem_append.mp mem with mem | mem
        · exact List.mem_append_left _ (arrived r mem)
        · exact List.mem_append_right _ mem
      · exact fun r mem => List.mem_append_left _ (taken r mem)
      · exact fun r mem => List.mem_append_left _ (removed r mem)
  | @take req rest pc first =>
      have queue : s.pending = req :: rest := pending.symm.trans first
      have once : (req :: rest).Nodup := first ▸ sound.consistent.queued_nodup
      have inside : req ∈ s.pending := queue ▸ List.mem_cons_self
      obtain ⟨came, untaken, -⟩ : req ∈ s.arrived ∧ req ∉ s.taken ∧ req ∉ s.removed := by
        simpa [Queues.pending] using inside
      have left : req ∉ s.unlinked := fun mem => untaken (unlinked req mem)
      refine ⟨?_, ?_, arrived, ?_, removed, ?_, ?_⟩
      · change rest = _
        have gone := filter_gone s.arrived s.taken s.removed [req] []
        refine Eq.trans ?_ gone.symm
        change rest = s.pending.filter _
        rw [queue]
        have apart : ∀ r ∈ rest, r ≠ req := fun r mem same =>
          (List.nodup_cons.mp once).1 (same ▸ mem)
        rw [List.filter_cons_of_neg (by simp)]
        exact (List.filter_eq_self.mpr fun r mem => by simpa using apart r mem).symm
      · change req :: s.server.workreqs = (req :: s.taken).filter _
        rw [List.filter_cons_of_pos (by simpa using left), working]
        rfl
      · exact List.forall_mem_cons.mpr ⟨came, taken⟩
      · exact fun r mem => List.mem_cons_of_mem _ (unlinked r mem)
      · refine List.forall_mem_cons.mpr ⟨⟨by rw [queue]; rfl, ?_⟩, takes⟩
        rw [sound.shaped.first, first]
        rfl
  | @flushPending req creq pc found =>
      have mem : creq ∈ s.server.reqs := List.mem_of_find?_eq_some found
      have came : creq ∈ s.arrived := List.mem_of_mem_filter (pending ▸ mem)
      have off := List.forall_mem_cons.mpr ⟨came, removed⟩
      refine ⟨?_, working, arrived, taken, off, unlinked, takes⟩
      change s.server.reqs.erase creq = _
      refine Eq.trans ?_ (filter_gone s.arrived s.taken s.removed [] [creq]).symm
      change s.server.reqs.erase creq = s.pending.filter _
      rw [sound.consistent.queued_nodup.erase_eq_filter, pending]
      refine List.filter_congr fun r _ => ?_
      simp [bne, beq_eq_decide]
  | @unlink req rtype chain pc path =>
      obtain ⟨inside, -⟩ := sound.chain_inside pc path
      have came : ∀ r ∈ req :: chain, r ∈ s.taken := fun r mem =>
        List.mem_of_mem_filter (working ▸ inside r mem)
      refine ⟨pending, ?_, arrived, taken, removed, ?_, takes⟩
      · change s.server.workreqs.diff (req :: chain) = s.taken.filter _
        rw [sound.consistent.work_nodup.sdiff_eq_filter, working, Queues.working,
          List.filter_filter]
        refine List.filter_congr fun r _ => ?_
        simp [Bool.and_assoc]
      · exact List.forall_mem_append.mpr ⟨came, unlinked⟩
  | @other event server status' sec reqs workreqs entered homes entering =>
      exact
        { pending := reqs.trans pending
          working := workreqs.trans working
          arrived := fun r mem => entered.symm ▸ arrived r mem
          taken
          removed
          unlinked
          takes }

/-- A section of a thread. -/
theorem serve (sound : s.Sound status) {t : Fin threads} {event : Event}
    (serves : Serves s status t event s' status') (unread : Unread s.server event) :
    s'.Sound status' := by
  have sec := serves.section_.1
  exact
    { consistent := sound.consistent.of_section sec unread
      behind := sound.behind.of_section sound.consistent sec
      shaped := sound.shaped_of_serves serves
      entering := sound.entering_of_serves serves
      recorded := sound.recorded_of_serves serves
      separate := sound.separate_of_serves serves unread }

/-! ### The other steps -/

/-- The reader drops its request. -/
theorem drop (sound : s.Sound status) {t : Fin threads} {req : ReqId}
    (pc : s.server.pc t = .allocated req) :
    Sound { s with server := ((s.server.npSrvAddReq t req).detach (· == req)).cancel req }
      (update status req .cancelled) := by
  obtain ⟨place, off, -⟩ := sound.of_allocated pc
  have added := sound.consistent.npSrvAddReq pc
  have off' : req ∉ s.server.reqs ∧ req ∉ s.server.workreqs := by simpa using off
  have left : ((s.server.npSrvAddReq t req).detach (· == req)).reqs = s.server.reqs := by
    change (s.server.reqs ++ [req]).filter _ = _
    rw [List.filter_append]
    have stay : s.server.reqs.filter (fun r => !(r == req)) = s.server.reqs :=
      List.filter_eq_self.mpr fun r mem => by
        have other : r ≠ req := fun same => off'.1 (same ▸ mem)
        simpa using other
    rw [stay]
    simp
  have statuses : update (detached (s.server.npSrvAddReq t req) (update status req .queued)
      (· == req)) req .cancelled = update status req .cancelled := by
    funext r
    by_cases same : r = req
    · simp [same]
    · simp [same, detached]
  have homes : ∀ r, (((s.server.npSrvAddReq t req).detach (· == req)).cancel req |>.req r).home =
      s.home r := fun r => Server.home_npReqUnref req r
  have placed : detached (s.server.npSrvAddReq t req) (update status req .queued)
      (· == req) req = .lost := by simp [detached, Server.npSrvAddReq, Server.setPc]
  have cancelled := (added.detach (· == req)).cancel placed
    (sound.consistent.alone req (by simp [place, Status.early])) off'.2
  rw [statuses] at cancelled
  exact
    { consistent := cancelled
      behind := sound.behind.of_update (by simp) rfl
      shaped := by
        refine shaped_of_homes ?_ fun r _ => homes r
        change s.lists.Shaped
          (((s.server.npSrvAddReq t req).detach (· == req)).reqs.map s.home) _
        rw [left]
        exact sound.shaped
      entering := fun u r there =>
        (congrArg s.lists.links.next (homes r)).trans
          (sound.entering u r (allocated_of_setPc (by simp) there))
      recorded :=
        { sound.recorded with
          pending := left.trans sound.recorded.pending
          arrived := fun r mem => List.mem_append_left _ (sound.recorded.arrived r mem) }
      separate :=
        { sound.separate with
          apart := fun u r mem => by
            have apart := sound.separate.apart u r mem
            have other : r ≠ req := by
              rintro rfl
              have lost := apart.lost
              simp [place] at lost
            exact apart.of_same (update_of_ne other _ _) rfl (homes r) id
          chain := fun u => (sound.separate.chain u).of_same (fun r _ => homes r) fun _ _ => rfl } }

/-- The pool stores to a free structure. -/
theorem pool (sound : s.Sound status) {home : ℕ} (free : s.server.Free home) (next : Option ℕ) :
    Sound { s with lists := s.lists.putNext home next } status :=
  { sound with
    shaped := sound.shaped.putNext (sound.out_of_free free) next
    entering := fun u r there => by
      obtain ⟨place, -, -⟩ := sound.of_allocated there
      have other := sound.home_ne free (r := r) (by simp [place, Status.based])
      exact (Lists.next_putNext_of_ne other).trans (sound.entering u r there)
    recorded := { sound.recorded with }
    separate :=
      { sound.separate with
        chain := fun u => (sound.separate.chain u).of_same (fun _ _ => rfl) fun r mem => by
          have lost := (sound.separate.apart u r mem).lost
          exact Lists.next_putNext_of_ne
            (sound.home_ne free (r := r) (by simp [lost, Status.based])) } }

/-- A reset that takes nothing off and releases nothing. -/
theorem of_preqs (sound : s.Sound status) {reset : Fin threads → Reset} {resetting : ℕ → Bool}
    (same : ∀ u, (reset u).preqs = (s.reset u).preqs) :
    Sound { s with reset, resetting } status :=
  { sound with
    recorded := { sound.recorded with }
    separate :=
      { apart := fun u r mem => sound.separate.apart u r (same u ▸ mem)
        once := fun u => (same u).symm ▸ sound.separate.once u
        alone := fun u v r mem mem' => sound.separate.alone u v r (same u ▸ mem) (same v ▸ mem')
        chain := fun u => (same u).symm ▸ sound.separate.chain u } }

/-- A reset releases the next of the requests that it has taken off. -/
theorem release (sound : s.Sound status) {t : Fin threads} {conn : ℕ} {all : Bool} {req : ReqId}
    {rest reqs : List ReqId} (pos : s.reset t = .left conn all (req :: rest) reqs) :
    Sound { s with
      server := s.server.cancel req
      reset := update s.reset t (.left conn all rest reqs) } (update status req .cancelled) := by
  have separate := sound.separate
  have mine : (s.reset t).preqs = req :: rest := by rw [pos]; rfl
  have apart := separate.apart t req (by simp [mine])
  have once := separate.once t
  rw [mine, List.nodup_cons] at once
  have homes : ∀ r, ((s.server.cancel req).req r).home = s.home r := Server.home_npReqUnref req
  have preqs : ∀ u, ((update s.reset t (.left conn all rest reqs)) u).preqs =
      if u = t then rest else (s.reset u).preqs := by
    intro u
    rw [update_apply]
    split_ifs <;> rfl
  have still : ∀ u r, r ∈ ((update s.reset t (.left conn all rest reqs)) u).preqs →
      r ∈ (s.reset u).preqs ∧ r ≠ req := by
    intro u r mem
    rw [preqs] at mem
    split_ifs at mem with same
    · subst same
      rw [mine]
      exact ⟨List.mem_cons_of_mem _ mem, fun same => once.1 (same ▸ mem)⟩
    · refine ⟨mem, ?_⟩
      rintro rfl
      exact same (separate.alone u t r mem (by simp [mine]))
  exact
    { consistent := sound.consistent.cancel apart.lost apart.link apart.off
      behind := sound.behind.of_update (by simp) rfl
      shaped := shaped_of_homes sound.shaped fun r _ => homes r
      entering := fun u r there =>
        (congrArg s.lists.links.next (homes r)).trans (sound.entering u r there)
      recorded := { sound.recorded with }
      separate :=
        { apart := fun u r mem => by
            obtain ⟨before, other⟩ := still u r mem
            exact (separate.apart u r before).of_same (update_of_ne other _ _) rfl (homes r) id
          once := fun u => by
            rw [preqs]
            split_ifs with same
            · exact once.2
            · exact separate.once u
          alone := fun u v r mem mem' => separate.alone u v r (still u r mem).1 (still v r mem').1
          chain := fun u => by
            rw [preqs]
            split_ifs with same
            · have chain := separate.chain t
              rw [mine] at chain
              have tail : s.Hangs rest := by
                change LinkedChain.Path _ _ ([] ++ s.home req :: rest.map s.home) at chain
                have tail := chain.suffix
                rw [tail.start_eq] at tail
                exact tail
              exact tail.of_same (fun r _ => homes r) fun _ _ => rfl
            · exact (separate.chain u).of_same (fun r _ => homes r) fun _ _ => rfl } }

/-- A reset takes the pending requests of its connection off. -/
theorem detach (sound : s.Sound status) (t : Fin threads) (conn : ℕ) (all : Bool) :
    Sound (s.detach t conn all)
      (detached s.server status fun r => decide ((s.server.req r).conn = conn)) := by
  have separate := sound.separate
  have h := sound.consistent
  let out : ReqId → Bool := fun r => decide ((s.server.req r).conn = conn)
  let gone := s.server.reqs.filter out
  have inside : ∀ r ∈ gone, r ∈ s.server.reqs ∧ out r = true := fun r => List.mem_filter.mp
  have once : gone.Nodup := h.queued_nodup.filter _
  have rest : s.server.reqs.diff gone = s.server.reqs.filter fun r => !out r := by
    rw [h.queued_nodup.sdiff_eq_filter]
    refine List.filter_congr fun r mem => ?_
    simp [gone, mem]
  obtain ⟨shaped, hangs, next⟩ := shaped_detachAll [] sound.shaped
    (fun r mem => (inside r mem).1) once .nil (by simp)
  rw [rest] at shaped
  rw [List.append_nil] at hangs
  have preqs : ∀ u, ((s.detach t conn all).reset u).preqs =
      if u = t then gone.reverse else (s.reset u).preqs := by
    intro u
    change (update s.reset t _ u).preqs = _
    rw [update_apply]
    split_ifs <;> rfl
  have lost : ∀ r ∈ gone, detached s.server status out r = .lost := fun r mem =>
    if_pos (inside r mem)
  have others : ∀ u r, r ∈ (s.reset u).preqs → r ∉ s.server.reqs := fun u r mem listed =>
    sound.off_of_apart (separate.apart u r mem) (List.mem_append_left _ listed)
  have keeps : ∀ u r, r ∈ ((s.detach t conn all).reset u).preqs →
      u = t ∧ r ∈ gone ∨ u ≠ t ∧ r ∈ (s.reset u).preqs := by
    intro u r mem
    rw [preqs] at mem
    split_ifs at mem with same
    · exact .inl ⟨same, List.mem_reverse.mp mem⟩
    · exact .inr ⟨same, mem⟩
  exact
    { consistent := h.detach out
      behind := sound.behind.of_same (fun p r place => by
        unfold detached at place
        split_ifs at place
        exact place) rfl
      shaped := shaped
      entering := fun u r there => by
        have off := sound.out_of_allocated there
        exact (next _ fun mem => off (List.mem_append_left _ mem)).trans (sound.entering u r there)
      recorded :=
        { sound.recorded with
          pending := by
            change s.server.reqs.filter _ = _
            refine Eq.trans ?_ (filter_gone s.arrived s.taken s.removed [] gone).symm
            change _ = s.pending.filter _
            rw [← sound.recorded.pending]
            refine List.filter_congr fun r mem => ?_
            simp [gone, out, mem]
          removed := List.forall_mem_append.mpr ⟨fun r mem =>
            List.mem_of_mem_filter (sound.recorded.pending ▸ (inside r mem).1),
            sound.recorded.removed⟩ }
      separate :=
        { apart := fun u r mem => by
            rcases keeps u r mem with ⟨-, mem⟩ | ⟨-, mem⟩
            · have queued := (h.queued r).2 (inside r mem).1
              exact
                { lost := lost r mem
                  link := h.alone r (by simp [queued, Status.early])
                  off := fun work => by
                    have may := h.mayWork r work
                    simp [queued, Status.mayWork] at may }
            · exact (separate.apart u r mem).of_same
                (if_neg fun both => others u r mem both.1) rfl rfl id
          once := fun u => by
            rw [preqs]
            split_ifs
            · exact List.nodup_reverse.mpr once
            · exact separate.once u
          alone := fun u v r mem mem' => by
            rcases keeps u r mem with ⟨here, off⟩ | ⟨-, off⟩
            · rcases keeps v r mem' with ⟨here', -⟩ | ⟨-, off'⟩
              · exact here.trans here'.symm
              · exact absurd (inside r off).1 (others v r off')
            · rcases keeps v r mem' with ⟨-, off'⟩ | ⟨-, off'⟩
              · exact absurd (inside r off').1 (others u r off)
              · exact separate.alone u v r off off'
          chain := fun u => by
            rw [preqs]
            split_ifs
            · exact hangs
            · refine (separate.chain u).of_same (fun _ _ => rfl) fun r mem => ?_
              refine next _ fun listed => ?_
              have apart := separate.apart u r mem
              exact sound.out_of_linked (by simp [apart.lost, Status.linked])
                (sound.off_of_apart apart) (List.mem_append_left _ listed) } }

/-- Every settled step keeps what holds. -/
theorem step (sound : s.Sound status) {event : QueueEvent threads} (settled : s.Settled event)
    (taken : s.step event = some s') : ∃ status', s'.Sound status' := by
  cases event with
  | serve t event =>
      simp only [Queues.step] at taken
      split at taken
      · obtain ⟨server, stepped, rfl⟩ := Option.map_eq_some_iff.mp taken
        obtain ⟨status', serves⟩ := serves_of_step stepped
        exact ⟨status', sound.serve serves settled⟩
      · cases taken
  | drop t =>
      simp only [Queues.step] at taken
      split at taken
      · split at taken
        · cases taken
          exact ⟨_, sound.drop ‹_›⟩
        · cases taken
      · cases taken
  | pool home next =>
      simp only [Queues.step] at taken
      split at taken
      · rename_i free
        cases taken
        exact ⟨_, sound.pool free.1 next⟩
      · cases taken
  | reset t conn all =>
      simp only [Queues.step] at taken
      split at taken
      · rename_i idle
        cases taken
        refine ⟨_, sound.of_preqs fun u => ?_⟩
        rw [update_apply]
        split_ifs with same
        · rw [same, idle.1]
          rfl
        · rfl
      · cases taken
  | detach t =>
      simp only [Queues.step] at taken
      split at taken
      · cases taken
        exact ⟨_, sound.detach t _ _⟩
      · cases taken
  | release t =>
      simp only [Queues.step] at taken
      split at taken
      · cases taken
        exact ⟨_, sound.release ‹_›⟩
      · cases taken
  | finish t =>
      simp only [Queues.step] at taken
      split at taken
      · rename_i pos
        split at taken
        · cases taken
          refine ⟨_, sound.of_preqs fun u => ?_⟩
          rw [update_apply]
          split_ifs with same
          · rw [same, pos]
            rfl
          · rfl
        · cases taken
      · cases taken

end Sound

end Queues

end Npfs.Requests
