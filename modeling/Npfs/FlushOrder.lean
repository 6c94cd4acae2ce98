import Npfs.RequestStatus

/-!
# The order of flushed replies

`np_flush` answers at once when it finds no request with the tag, or takes the request off the
queue; otherwise the answer waits behind the request.  `Ordered` is the invariant behind the promise
that no reply to a flushed request follows the answer to the flush.
-/

namespace Npfs.Requests

open Function

variable {threads : Nat} {s s' : Server threads} {status status' : ReqId → Status threads}

/-- The requests whose answer the transport took, in this order. -/
def Server.written (s : Server threads) : List ReqId := (s.log.filter Answer.written).map Answer.req

/-- Follow targets: the request, what it flushed, what that flushed, and so on. -/
def Flushed (targets : ReqId → List ReqId) : ReqId → ReqId → Prop :=
  Relation.ReflTransGen fun req target => target ∈ targets req

namespace Status

/-- The request has not been served. -/
def unserved : Status threads → Bool
  | .unborn | .queued | .kept | .cancelled | .hands _ .entering => true
  | _ => false

/-- A thread has the request, to answer it itself. -/
def unsent : Status threads → Bool
  | .hands _ .serving | .hands _ .marking | .hands _ .sending => true
  | _ => false

end Status

/-- A request is answered after what it flushed, unless that is never answered. -/
structure Ordered (s : Server threads) (status : ReqId → Status threads) : Prop where
  unserved : ∀ r, (status r).unserved = true → s.targets r = []
  serving : ∀ t r, s.pc t = .serving r → s.targets r = []
  unsent : ∀ r, (status r).unsent = true → ∀ target ∈ s.targets r, target ∈ s.cancelled
  next : ∀ t r, status r = .hands t .next → ∀ target ∈ s.targets r,
    target ∈ s.answered ∨ target ∈ s.cancelled
  answered : ∀ r ∈ s.answered, ∀ target ∈ s.targets r,
    target ∈ s.answered ∨ target ∈ s.cancelled
  chained : ∀ p r, status r = .chained p → ∀ target ∈ s.targets r, Flushed s.targets p target
  order : ∀ r, ∀ target ∈ s.targets r, ¬ [r, target].Sublist s.answered

/-- When `np_flush` searches, the requests of the connection that carry the tag are at most one, and
it is on one of the two lists. -/
def Findable (s : Server threads) (req : ReqId) : Prop :=
  (∀ a ∈ s.carriers (s.req req).conn (s.req req).tcall.oldtag,
    a ∈ s.reqs ∨ a ∈ s.workreqs) ∧
  ∀ a ∈ s.carriers (s.req req).conn (s.req req).tcall.oldtag,
    ∀ b ∈ s.carriers (s.req req).conn (s.req req).tcall.oldtag, a = b

instance (s : Server threads) (req : ReqId) : Decidable (Findable s req) :=
  inferInstanceAs (Decidable (_ ∧ _))

/-- The condition on a step under which flushes keep their promise: the search of a flush is
conclusive, and no structure is taken again while its `flushreq` is still to be read. -/
def Orderly (s : Server threads) (label : Fin threads × Event) : Prop :=
  Unread s label.2 ∧ ∀ req ∈ s.processed label.1 label.2, Findable s req

instance (s : Server threads) (label : Fin threads × Event) : Decidable (Orderly s label) :=
  inferInstanceAs (Decidable (_ ∧ _))

private theorem pair_sublist_concat {a b c : ReqId} {l : List ReqId}
    (sub : [a, b].Sublist (l ++ [c])) : [a, b].Sublist l ∨ a ∈ l ∧ b = c := by
  obtain ⟨front, back, split, subFront, subBack⟩ := List.sublist_append_iff.mp sub
  match front, split with
  | [], split =>
      obtain rfl : [a, b] = back := split
      simpa using subBack.length_le
  | [x], split =>
      obtain ⟨rfl, rfl⟩ : a = x ∧ [b] = back := by simpa using split
      exact .inr ⟨List.singleton_sublist.mp subFront, by simpa using subBack⟩
  | [x, y], split =>
      obtain ⟨rfl, rfl, rfl⟩ : a = x ∧ b = y ∧ back = [] := by simpa using split
      exact .inl subFront
  | x :: y :: z :: rest, split => simp at split

theorem Pc.loop_ne_serving (req : ReqId) (freq : Option ReqId) (r : ReqId) :
    Pc.loop req freq ≠ .serving r := by
  cases freq <;> simp [Pc.loop]

private theorem serving_of_moved {t : Fin threads} {pc : Pc} (moved : s'.pc = update s.pc t pc)
    (apart : ∀ r, pc ≠ .serving r) (u : Fin threads) (r : ReqId) (serving : s'.pc u = .serving r) :
    u ≠ t ∧ s.pc u = .serving r := by
  by_cases same : u = t
  · simp [moved, same, apart] at serving
  · simpa [moved, same] using serving

namespace Ordered

/-- A step that gives no answer and processes no flush. -/
theorem move (h : Ordered s status) (targets : s'.targets = s.targets)
    (answered : s'.answered = s.answered) (cancelled : s'.cancelled = s.cancelled)
    (serving : ∀ t r, s'.pc t = .serving r → s.pc t = .serving r ∨ (status r).unserved = true)
    (unserved : ∀ r, (status' r).unserved = true →
      (status r).unserved = true ∨ s.targets r = [])
    (unsent : ∀ r, (status' r).unsent = true →
      (status r).unsent = true ∨ (status r).unserved = true)
    (next : ∀ t r, status' r = .hands t .next → status r = .hands t .next)
    (chained : ∀ p r, status' r = .chained p → status r = .chained p) : Ordered s' status' := by
  constructor
  case unserved =>
    intro r place
    rw [targets]
    exact (unserved r place).elim (h.unserved r) id
  case serving =>
    intro t r pc
    rw [targets]
    exact (serving t r pc).elim (h.serving t r) (h.unserved r)
  case unsent =>
    intro r place
    rw [targets, cancelled]
    rcases unsent r place with place | place
    · exact h.unsent r place
    · simp [h.unserved r place]
  case next =>
    intro t r place
    rw [targets, answered, cancelled]
    exact h.next t r (next t r place)
  case answered =>
    rw [targets, answered, cancelled]
    exact h.answered
  case chained =>
    intro p r place
    rw [targets]
    exact h.chained p r (chained p r place)
  case order =>
    rw [targets, answered]
    exact h.order

/-- What an answered request flushed, directly or through other flushes, is answered or was taken
off the queue. -/
theorem settled (h : Ordered s status) (con : Consistent s status) {p target : ReqId}
    (answered : p ∈ s.answered) (flushed : Flushed s.targets p target) :
    target ∈ s.answered ∨ target ∈ s.cancelled := by
  induction flushed with
  | refl => exact .inl answered
  | @tail a b _ mem ih =>
      rcases ih with answered | cancelled
      · exact h.answered a answered b mem
      · have place := (con.cancelled a).2 cancelled
        simp [h.unserved a (by simp [place, Status.unserved])] at mem

/-- An answer to a request that comes after all that it flushed. -/
theorem answer (h : Ordered s status) (con : Consistent s status) {req : ReqId}
    (log : s'.answered = s.answered ++ [req]) (targets : s'.targets = s.targets)
    (cancelled : s'.cancelled = s.cancelled) (serving : ∀ t r, s'.pc t = .serving r →
    s.pc t = .serving r)
    (unanswered : (status req).logged = false) (uncancelled : status req ≠ .cancelled)
    (due : ∀ target ∈ s.targets req, target ∈ s.answered ∨ target ∈ s.cancelled) {t : Fin threads} :
    Ordered s' (update status req (.hands t .rooting)) := by
  have notAnswered : req ∉ s.answered := by
    simp [← con.answered, unanswered]
  have notCancelled : req ∉ s.cancelled := by
    simpa [← con.cancelled] using uncancelled
  constructor
  case unserved =>
    intro r place
    rw [targets]
    by_cases same : r = req
    · simp [same, Status.unserved] at place
    · exact h.unserved r (by simpa [same] using place)
  case serving =>
    rw [targets]
    exact fun t r pc => h.serving t r (serving t r pc)
  case unsent =>
    intro r place
    rw [targets, cancelled]
    by_cases same : r = req
    · simp [same, Status.unsent] at place
    · exact h.unsent r (by simpa [same] using place)
  case next =>
    intro u r place target mem
    rw [targets] at mem
    rw [log, cancelled]
    by_cases same : r = req
    · simp [same] at place
    · have := h.next u r (by simpa [same] using place) target mem
      simp; tauto
  case answered =>
    intro r mem target mem'
    rw [targets] at mem'
    rw [log] at mem
    rw [log, cancelled]
    rcases List.mem_append.mp mem with mem | mem
    · have := h.answered r mem target mem'
      simp; tauto
    · obtain rfl : r = req := by simpa using mem
      have := due target mem'
      simp; tauto
  case chained =>
    intro p r place
    rw [targets]
    by_cases same : r = req
    · simp [same] at place
    · exact h.chained p r (by simpa [same] using place)
  case order =>
    intro r target mem
    rw [targets] at mem
    rw [log]
    intro sub
    rcases pair_sublist_concat sub with sub | ⟨before, rfl⟩
    · exact h.order r target mem sub
    · exact (h.answered r before target mem).elim notAnswered notCancelled

/-- The second loop of `np_respond` goes on to what is behind an answered request. -/
theorem nextFlush (h : Ordered s status) (con : Consistent s status) {t : Fin threads}
    {root req : ReqId} {place : Status threads} (answered : req ∈ s.answered)
    (linked : (status req).linked = true)
    (kind : place = .hands t .tail ∨ place = .answered) :
    Ordered (s.nextFlush t root (s.link req)) (followed s status t req place) := by
  have behind : ∀ r, s.link req = some r → status r = .chained req := fun r =>
    con.link_chained linked
  constructor
  case unserved =>
    intro r unserved
    refine h.unserved r ?_
    unfold followed at unserved
    split_ifs at unserved
    · simp [Status.unserved] at unserved
    · rcases kind with rfl | rfl <;> simp [Status.unserved] at unserved
    · exact unserved
  case serving =>
    intro u r pc
    exact h.serving u r (serving_of_moved rfl (Pc.loop_ne_serving root _) u r pc).2
  case unsent =>
    intro r unsent
    refine h.unsent r ?_
    unfold followed at unsent
    split_ifs at unsent
    · simp [Status.unsent] at unsent
    · rcases kind with rfl | rfl <;> simp [Status.unsent] at unsent
    · exact unsent
  case next =>
    intro u r next target mem
    unfold followed at next
    split_ifs at next with link same
    · exact h.settled con answered (h.chained req r (behind r link) target mem)
    · rcases kind with rfl | rfl <;> simp at next
    · exact h.next u r next target mem
  case answered => exact h.answered
  case chained =>
    intro p r chained
    refine h.chained p r ?_
    unfold followed at chained
    split_ifs at chained
    · rcases kind with rfl | rfl <;> simp at chained
    · exact chained
  case order => exact h.order

section Search

variable {t : Fin threads} {req creq : ReqId}

/-- Processing a flush adds targets to a request that had none. -/
theorem flushed_search (h : Ordered s status) (pc : s.pc t = .serving req) {a b : ReqId}
    (flushed : Flushed s.targets a b) : Flushed (s.search req).targets a b := by
  refine Relation.ReflTransGen.mono (fun x y mem => ?_) _ _ flushed
  by_cases same : x = req
  · simp [same, h.serving t req pc] at mem
  · simpa [Server.search, same] using mem

/-- A request on one of the lists with the tag is what the flush is to find. -/
theorem carrier_mem (con : Consistent s status) (born : status creq ≠ .unborn)
    (queued : ∀ t, status creq ≠ .hands t .entering) (unanswered : (status creq).logged = false)
    (uncancelled : status creq ≠ .cancelled)
    (carries : s.carries (s.req req).conn (s.req req).tcall.oldtag creq = true) :
    creq ∈ s.carriers (s.req req).conn (s.req req).tcall.oldtag := by
  have notAnswered : creq ∉ s.answered := by
    simp [← con.answered, unanswered]
  have notCancelled : creq ∉ s.cancelled := by
    simpa [← con.cancelled] using uncancelled
  simp [Server.carriers, carries, notAnswered, notCancelled, (con.entered creq).2 ⟨born, queued⟩]

/-- The section of `np_flush` keeps the order when the targets that it records for the flush are
settled by what it does. -/
theorem search (h : Ordered s status) (con : Consistent s status) (pc : s.pc t = .serving req)
    (targets : s'.targets = (s.search req).targets) (answered : s'.answered = s.answered)
    (cancelled : ∀ r ∈ s.cancelled, r ∈ s'.cancelled)
    (serving : ∀ u r, s'.pc u = .serving r → u ≠ t ∧ s.pc u = .serving r)
    (unserved : ∀ r, (status' r).unserved = true → r ≠ req ∧ s.targets r = [])
    (unsent : ∀ r, (status' r).unsent = true → r ≠ req ∧ (status r).unsent = true ∨
      ∀ target ∈ (s.search req).targets r, target ∈ s'.cancelled)
    (next : ∀ u r, status' r = .hands u .next → r ≠ req ∧ status r = .hands u .next)
    (chained : ∀ p r, status' r = .chained p → r ≠ req ∧ status r = .chained p ∨
      ∀ target ∈ (s.search req).targets r, Flushed (s.search req).targets p target) :
    Ordered s' status' := by
  have mine : status req = .hands t .serving :=
    (con.hands t req .serving).2 (by simp [pc, Pc.Has])
  have other : ∀ r ≠ req, s'.targets r = s.targets r := fun r apart => by
    simp [targets, Server.search, apart]
  have unanswered : req ∉ s.answered := by
    simp [← con.answered, mine, Status.logged]
  constructor
  case unserved =>
    intro r place
    obtain ⟨apart, none⟩ := unserved r place
    rw [other r apart, none]
  case serving =>
    intro u r pcu
    obtain ⟨apart, pcu⟩ := serving u r pcu
    have place : status r = .hands u .serving :=
      (con.hands u r .serving).2 (by simp [pcu, Pc.Has])
    have apart' : r ≠ req := by
      rintro rfl
      simp [place] at mine
      exact apart mine
    rw [other r apart']
    exact h.serving u r pcu
  case unsent =>
    intro r place target mem
    rcases unsent r place with ⟨apart, place⟩ | all
    · rw [other r apart] at mem
      exact cancelled target (h.unsent r place target mem)
    · rw [targets] at mem
      exact all target mem
  case next =>
    intro u r place target mem
    obtain ⟨apart, place⟩ := next u r place
    rw [other r apart] at mem
    rw [answered]
    exact (h.next u r place target mem).imp_right (cancelled target)
  case answered =>
    intro r done target mem
    rw [answered] at done
    have apart : r ≠ req := by
      rintro rfl
      exact unanswered done
    rw [other r apart] at mem
    rw [answered]
    exact (h.answered r done target mem).imp_right (cancelled target)
  case chained =>
    intro p r place target mem
    rw [targets]
    rcases chained p r place with ⟨apart, place⟩ | all
    · rw [other r apart] at mem
      exact h.flushed_search pc (h.chained p r place target mem)
    · rw [targets] at mem
      exact all target mem
  case order =>
    intro r target mem sub
    rw [answered] at sub
    have apart : r ≠ req := by
      rintro rfl
      exact unanswered (sub.subset List.mem_cons_self)
    rw [other r apart] at mem
    exact h.order r target mem sub

theorem flushPending (h : Ordered s status) (con : Consistent s status)
    (pc : s.pc t = .serving req) (findable : Findable s req)
    (found : s.reqs.find? (s.carries (s.req req).conn (s.req req).tcall.oldtag) = some creq) :
    Ordered ((s.search req).flushPending t req creq) (update status creq .cancelled) := by
  have mine : status req = .hands t .serving :=
    (con.hands t req .serving).2 (by simp [pc, Pc.Has])
  have place : status creq = .queued := (con.queued creq).2 (List.mem_of_find?_eq_some found)
  have carrier : creq ∈ s.carriers (s.req req).conn (s.req req).tcall.oldtag :=
    carrier_mem con (by simp [place]) (by simp [place]) (by simp [place, Status.logged])
      (by simp [place]) (List.find?_some found)
  have apart : req ≠ creq := by
    rintro rfl
    simp [place] at mine
  refine h.search con pc rfl rfl (fun r mem => List.mem_append_left _ mem)
    (serving_of_moved rfl (by simp)) ?_ ?_ ?_ ?_
  · intro r unserved
    by_cases same : r = creq
    · subst same
      exact ⟨apart.symm, h.unserved r (by simp [place, Status.unserved])⟩
    · simp only [ne_eq, same, not_false_eq_true, update_of_ne] at unserved
      refine ⟨?_, h.unserved r unserved⟩
      rintro rfl
      simp [mine, Status.unserved] at unserved
  · intro r unsent
    by_cases isReq : r = req
    · right
      intro target mem
      -- the request that was found is the only one with the tag
      obtain rfl : target = creq := findable.2 target
        (by simpa [Server.search, isReq] using mem) creq carrier
      exact List.mem_append_right _ List.mem_cons_self
    · left
      by_cases same : r = creq
      · simp [same, Status.unsent] at unsent
      · exact ⟨isReq, by simpa [same] using unsent⟩
  · intro u r next
    by_cases same : r = creq
    · simp [same] at next
    · simp only [ne_eq, same, not_false_eq_true, update_of_ne] at next
      exact ⟨by rintro rfl; simp [mine] at next, next⟩
  · intro p r chained
    left
    by_cases same : r = creq
    · simp [same] at chained
    · simp only [ne_eq, same, not_false_eq_true, update_of_ne] at chained
      exact ⟨by rintro rfl; simp [mine] at chained, chained⟩

theorem flushWorking (h : Ordered s status) (con : Consistent s status)
    (pc : s.pc t = .serving req) (findable : Findable s req)
    (found : s.workreqs.find? (s.carries (s.req req).conn (s.req req).tcall.oldtag) = some creq) :
    Ordered ((s.search req).flushWorking t req creq) (reattached s status req creq) := by
  have mine : status req = .hands t .serving :=
    (con.hands t req .serving).2 (by simp [pc, Pc.Has])
  have may : (status creq).mayWork = true :=
    con.mayWork creq (List.mem_of_find?_eq_some found)
  have carrier : creq ∈ s.carriers (s.req req).conn (s.req req).tcall.oldtag := by
    refine carrier_mem con ?_ ?_ ?_ ?_ (List.find?_some found)
    · intro place
      simp [place, Status.mayWork] at may
    · intro u place
      simp [place, Status.mayWork] at may
    · by_contra logged
      simp [Status.not_mayWork_of_logged (by simpa using logged)] at may
    · intro place
      simp [place, Status.mayWork] at may
  have target_eq : ∀ target ∈ (s.search req).targets req, target = creq := fun target mem =>
    findable.2 target (by simpa [Server.search] using mem) creq carrier
  refine h.search con pc rfl rfl (fun r mem => mem)
    (serving_of_moved rfl (by simp)) ?_ ?_ ?_ ?_
  · intro r unserved
    unfold reattached at unserved
    split_ifs at unserved with isReq
    · simp [Status.unserved] at unserved
    · simp [Status.unserved] at unserved
    · simp [Status.unserved] at unserved
    · exact ⟨isReq, h.unserved r unserved⟩
  · intro r unsent
    unfold reattached at unsent
    split_ifs at unsent with isReq
    · simp [Status.unsent] at unsent
    · simp [Status.unsent] at unsent
    · simp [Status.unsent] at unsent
    · exact .inl ⟨isReq, unsent⟩
  · intro u r next
    unfold reattached at next
    split_ifs at next with isReq
    exact ⟨isReq, next⟩
  · intro p r chained
    unfold reattached at chained
    split_ifs at chained with isReq behind
    · -- the flush itself, behind the request that it flushes
      right
      obtain rfl : creq = p := by simpa using chained
      subst isReq
      intro target mem
      rw [target_eq target mem]
      exact .refl
    · -- what was behind that request, now behind the flush
      right
      obtain rfl : req = p := by simpa using chained
      intro target mem
      have old : Flushed s.targets creq target :=
        h.chained creq r (con.link_chained (Status.linked_of_mayWork may) behind.1) target
          (by simpa [Server.search, isReq] using mem)
      exact .head (by simpa [Server.search] using carrier) (h.flushed_search pc old)
    · exact .inl ⟨isReq, chained⟩

theorem flushNone (h : Ordered s status) (con : Consistent s status)
    (pc : s.pc t = .serving req) (findable : Findable s req)
    (pending : s.reqs.find? (s.carries (s.req req).conn (s.req req).tcall.oldtag) = none)
    (working : s.workreqs.find? (s.carries (s.req req).conn (s.req req).tcall.oldtag) = none) :
    Ordered ((s.search req).setPc t (.respond req MsgType.rflush.code)) status := by
  have mine : status req = .hands t .serving :=
    (con.hands t req .serving).2 (by simp [pc, Pc.Has])
  have none : ∀ target, target ∉ s.carriers (s.req req).conn (s.req req).tcall.oldtag := by
    intro target mem
    have carries : s.carries (s.req req).conn (s.req req).tcall.oldtag target = true := by
      have := (List.mem_filter.mp mem).2
      simp_all
    rcases findable.1 target mem with mem | mem
    · exact List.find?_eq_none.mp pending target mem carries
    · exact List.find?_eq_none.mp working target mem carries
  refine h.search con pc rfl rfl (fun r mem => mem) (serving_of_moved rfl (by simp)) ?_ ?_ ?_ ?_
  · intro r unserved
    exact ⟨by rintro rfl; simp [mine, Status.unserved] at unserved, h.unserved r unserved⟩
  · intro r unsent
    by_cases isReq : r = req
    · right
      intro target mem
      exact absurd (by simpa [Server.search, isReq] using mem) (none target)
    · exact .inl ⟨isReq, unsent⟩
  · intro u r next
    exact ⟨by rintro rfl; simp [mine] at next, next⟩
  · intro p r chained
    exact .inl ⟨by rintro rfl; simp [mine] at chained, chained⟩

end Search

attribute [local grind] Status.unserved Status.unsent

/-- Every orderly section keeps the order. -/
theorem of_section (h : Ordered s status) (con : Consistent s status) {t : Fin threads}
    {event : Event} (sec : Section s status t event s' status') (orderly : Orderly s (t, event)) :
    Ordered s' status' := by
  cases sec with
  | alloc pc free =>
      have unborn : status s.next = .unborn := (con.born _).2 le_rfl
      refine h.move rfl rfl rfl
        (fun u r pcu => .inl (serving_of_moved rfl (by simp) u r pcu).2) ?_ ?_ ?_ ?_ <;>
        simp only [update_apply] <;> grind -linarith
  | @add req pc =>
      have place := (con.hands t req .entering).2 (by simp [pc, Pc.Has])
      refine h.move rfl rfl rfl
        (fun u r pcu => .inl (serving_of_moved rfl (by simp) u r pcu).2) ?_ ?_ ?_ ?_ <;>
        simp only [update_apply] <;> grind -linarith
  | @take req rest pc first =>
      have place : status req = .queued := (con.queued req).2 (by simp [first])
      refine h.move rfl rfl rfl ?_ ?_ ?_ ?_ ?_
      · intro u r pcu
        simp only [Server.takeReq, Server.setPc, update_apply] at pcu
        grind -linarith
      all_goals
        simp only [update_apply]
        grind -linarith
  | @keep req pc =>
      have place := (con.hands t req .serving).2 (by simp [pc, Pc.Has])
      have none := h.serving t req pc
      refine h.move rfl rfl rfl
        (fun u r pcu => .inl (serving_of_moved rfl (by simp) u r pcu).2) ?_ ?_ ?_ ?_ <;>
        simp only [update_apply] <;> grind -linarith
  | @resume req rtype pc mem =>
      have place := (con.kept req).2 mem
      refine h.move rfl rfl rfl
        (fun u r pcu => .inl (serving_of_moved rfl (by simp) u r pcu).2) ?_ ?_ ?_ ?_ <;>
        simp only [update_apply] <;> grind -linarith
  | stay roles before after same =>
      refine h.move rfl rfl rfl
        (fun u r pcu => .inl (serving_of_moved rfl (fun r => (after r).2) u r
          pcu).2) ?_ ?_ ?_ ?_ <;>
        simp +contextual
  | flushPending pc found =>
      exact h.flushPending con pc (orderly.2 _ (by simp [Server.processed, pc])) found
  | flushWorking pc pending found =>
      exact h.flushWorking con pc (orderly.2 _ (by simp [Server.processed, pc])) found
  | flushNone pc pending working =>
      exact h.flushNone con pc (orderly.2 _ (by simp [Server.processed, pc])) pending working
  | flushDone pc =>
      refine h.move rfl rfl rfl
        (fun u r pcu => .inl (serving_of_moved rfl (by simp) u r pcu).2) ?_ ?_ ?_ ?_ <;>
        simp +contextual
  | @mark req rtype pc =>
      have place := (con.hands t req .serving).2 (by simp [pc, Pc.Has])
      rw [con.respondMark_eq pc]
      refine h.move rfl rfl rfl
        (fun u r pcu => .inl (serving_of_moved rfl (by simp) u r pcu).2) ?_ ?_ ?_ ?_ <;>
        simp only [update_apply] <;> grind -linarith
  | @unlink req rtype chain pc path =>
      have place := (con.hands t req .marking).2 (by simp [pc, Pc.Has])
      refine h.move rfl rfl rfl
        (fun u r pcu => .inl (serving_of_moved rfl (by simp) u r pcu).2) ?_ ?_ ?_ ?_ <;>
        simp only [update_apply] <;> grind -linarith
  | @answer _ req _ _ pc =>
      have place : status req = .hands t .sending :=
        (con.hands t req .sending).2 (by rcases pc with pc | pc <;> simp [pc, Pc.Has])
      apply h.answer con
      · simp [Server.answer, Server.setPc, Server.answered]
      · rfl
      · rfl
      · exact fun u r pcu => (serving_of_moved rfl (by simp) u r pcu).2
      · simp [place, Status.logged]
      · simp [place]
      · exact fun target mem => .inr (h.unsent req (by simp [place, Status.unsent]) target mem)
  | @answerFlush _ req freq _ pc =>
      have place : status freq = .hands t .next :=
        (con.hands t freq .next).2 (by rcases pc with pc | pc <;> simp [pc, Pc.Has])
      apply h.answer con
      · simp [Server.answer, Server.setPc, Server.answered]
      · rfl
      · rfl
      · exact fun u r pcu => (serving_of_moved rfl (by simp) u r pcu).2
      · simp [place, Status.logged]
      · simp [place]
      · exact h.next t freq place
  | @readLink req pc =>
      have place := (con.hands t req .rooting).2 (by simp [pc, Pc.Has])
      exact h.nextFlush con ((con.answered req).1 (by simp [place, Status.logged]))
        (by simp [place, Status.linked]) (.inl rfl)
  | @readFlushLink req freq pc =>
      have place := (con.hands t freq .passing).2 (by simp [pc, Pc.Has])
      exact h.nextFlush con ((con.answered freq).1 (by simp [place, Status.logged]))
        (by simp [place, Status.linked]) (.inr rfl)
  | @releaseFlush req freq pc =>
      have place := (con.hands t freq .rooting).2 (by simp [pc, Pc.Has])
      refine h.move rfl rfl rfl
        (fun u r pcu => .inl (serving_of_moved rfl (by simp) u r pcu).2) ?_ ?_ ?_ ?_ <;>
        simp only [update_apply] <;> grind -linarith
  | @done req pc =>
      have place := (con.hands t req .tail).2 (by simp [pc, Pc.Has])
      refine h.move rfl rfl rfl
        (fun u r pcu => .inl (serving_of_moved rfl (by simp) u r pcu).2) ?_ ?_ ?_ ?_ <;>
        simp only [update_apply] <;> grind -linarith

end Ordered

theorem Ordered.start : Ordered (Server.start threads) fun _ => .unborn := by
  constructor <;> simp [Server.start, Server.answered]

end Npfs.Requests
