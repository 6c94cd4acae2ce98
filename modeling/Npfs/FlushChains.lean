import Npfs.RequestStatus

/-!
# Chains of flushes

A flush of a working request waits in a chain behind it.  `Rooted` is the invariant that every
waiting flush is in a chain that ends, behind a request in somebody's hands; `Walked` follows the
second loop of `np_respond` along the chain that its first loop took off the working list.
-/

namespace Npfs.Requests

open Function LinkedChain

variable {threads : Nat} {s s' : Server threads} {status status' : ReqId → Status threads}

/-- A chain starts behind the request: it is not in a chain itself. -/
def Status.head : Status threads → Bool
  | .unborn | .cancelled | .answered | .hands _ .tail | .chained _ | .lost => false
  | _ => true

theorem Status.linked_of_head {place : Status threads} (head : place.head = true) :
    place.linked = true := by
  cases place with
  | hands t role => cases role <;> simp_all [Status.head, Status.linked]
  | _ => simp_all [Status.head, Status.linked]

theorem Status.answered_of_logged {place : Status threads} (logged : place.logged = true) :
    place = .answered ∨ ∃ t role, place = .hands t role ∧
      (role = .rooting ∨ role = .tail ∨ role = .passing) := by
  cases place with
  | answered => exact .inl rfl
  | hands t role => cases role <;> simp_all [Status.logged]
  | _ => simp [Status.logged] at logged

theorem Status.head_of_linked {place : Status threads} (linked : place.linked = true)
    (unchained : ∀ p, place ≠ .chained p) (found : place ≠ .lost) : place.head = true := by
  cases place with
  | hands t role => cases role <;> simp_all [Status.head, Status.linked]
  | _ => simp_all [Status.head, Status.linked]

/-- Every chain ends, and every waiting flush is in the chain behind some head. -/
structure Rooted (s : Server threads) (status : ReqId → Status threads) : Prop where
  kept : ∀ r, status r ≠ .lost
  ends : ∀ p, (status p).head = true → ∃ chain, Path s.link (s.link p) chain
  behind : ∀ p r, status r = .chained p → ∃ root chain, (status root).head = true ∧
    Path s.link (s.link root) chain ∧ r ∈ chain

namespace Rooted

theorem start : Rooted (Server.start threads) fun _ => .unborn := by
  constructor <;> simp [Status.head]

/-- A step that attaches no flush and detaches none. -/
theorem move (h : Rooted s status) (con : Consistent s status)
    (link : ∀ p, (status p).linked = true → s'.link p = s.link p)
    (kept : ∀ r, status' r ≠ .lost)
    (chained : ∀ p r, status' r = .chained p → status r = .chained p)
    (born : ∀ p, (status' p).head = true → (status p).head = true ∨ s'.link p = none)
    (gone : ∀ p, (status p).head = true → (status' p).head = true ∨ s.link p = none) :
    Rooted s' status' := by
  have moved : ∀ p chain, (status p).linked = true → Path s.link (s.link p) chain →
      Path s'.link (s'.link p) chain := by
    intro p chain linked path
    rw [link p linked]
    refine path.congr fun q mem => link q ?_
    obtain ⟨q', -, place⟩ := con.path_chained linked path q mem
    simp [place, Status.linked]
  constructor
  case kept => exact kept
  case ends =>
    intro p head
    rcases born p head with head | none
    · obtain ⟨chain, path⟩ := h.ends p head
      exact ⟨chain, moved p chain (Status.linked_of_head head) path⟩
    · exact ⟨[], none ▸ .nil⟩
  case behind =>
    intro p r place
    obtain ⟨root, chain, head, path, mem⟩ := h.behind p r (chained p r place)
    rcases gone root head with head' | none
    · exact ⟨root, chain, head', moved root chain (Status.linked_of_head head) path, mem⟩
    · rw [none] at path
      cases path
      simp at mem

/-- A flush with no flushes of its own goes behind another request. -/
theorem flushWorking (h : Rooted s status) (con : Consistent s status) {t : Fin threads}
    {req creq : ReqId} (pc : s.pc t = .serving req) (working : creq ∈ s.workreqs)
    (other : creq ≠ req)
    (bare : s.link req = none) :
    Rooted (s.flushWorking t req creq) (reattached s status req creq) := by
  have mine : status req = .hands t .serving :=
    (con.hands t req .serving).2 (by simp [pc, Pc.Has])
  have reqLinked : (status req).linked = true := by simp [mine, Status.linked]
  have creqLinked : (status creq).linked = true :=
    Status.linked_of_mayWork (con.mayWork creq working)
  have behindCreq : (s.flushWorking t req creq).link creq = some req := by
    simp [Server.flushWorking, Server.npReqRef, Server.setPc, Server.link]
  have homesApart : (s.req req).home ≠ (s.req creq).home := fun same =>
    other (con.homes creq req creqLinked reqLinked same.symm)
  have behindReq : (s.flushWorking t req creq).link req = s.link creq := by
    simp [Server.flushWorking, Server.npReqRef, Server.setPc, Server.link, other.symm, homesApart]
  have link : ∀ p, (status p).linked = true → p ≠ creq → p ≠ req →
      (s.flushWorking t req creq).link p = s.link p := by
    intro p linked notCreq notReq
    have apart : (s.req p).home ≠ (s.req creq).home := fun same =>
      notCreq (con.homes p creq linked creqLinked same)
    have apart' : (s.req p).home ≠ (s.req req).home := fun same =>
      notReq (con.homes p req linked reqLinked same)
    simp [Server.flushWorking, Server.npReqRef, Server.setPc, Server.link, notCreq, apart, apart']
  have unheaded : ∀ {p r : ReqId}, status r = .chained p → r ≠ req := by
    rintro p r place rfl
    simp [mine] at place
  -- a chain of the server before is one after, with the flush put in where it belongs
  have grown : ∀ root chain, (status root).head = true → root ≠ req →
      Path s.link (s.link root) chain →
      ∃ chain', Path (s.flushWorking t req creq).link
        ((s.flushWorking t req creq).link root) chain' ∧
        (∀ r ∈ chain, r ∈ chain') ∧ (creq = root ∨ creq ∈ chain → req ∈ chain') := by
    intro root chain head notReq path
    have members : ∀ q ∈ chain, (status q).linked = true ∧ (status q).head = false ∧ q ≠ req := by
      intro q mem
      obtain ⟨q', -, place⟩ := con.path_chained (Status.linked_of_head head) path q mem
      exact ⟨by simp [place, Status.linked], by simp [place, Status.head], unheaded place⟩
    by_cases isRoot : creq = root
    · subst isRoot
      have apart : ∀ q ∈ chain, q ≠ creq := by
        rintro q mem rfl
        simp [(members q mem).2.1] at head
      have path' : Path (s.flushWorking t req creq).link (s.link creq) chain :=
        path.congr fun q mem => link q (members q mem).1 (apart q mem) (members q mem).2.2
      refine ⟨req :: chain, ?_, fun r mem => List.mem_cons_of_mem _ mem, fun _ =>
        List.mem_cons_self⟩
      rw [behindCreq]
      exact .cons (by rwa [behindReq])
    · have rootLink := link root (Status.linked_of_head head) (Ne.symm isRoot) notReq
      rw [rootLink]
      by_cases inside : creq ∈ chain
      · obtain ⟨front, back, rfl⟩ := List.append_of_mem inside
        refine ⟨front ++ creq :: req :: back, ?_, ?_, ?_⟩
        · exact path.insert behindCreq behindReq fun q mem notCreq =>
            link q (members q mem).1 notCreq (members q mem).2.2
        · intro r mem
          simp only [List.mem_append, List.mem_cons] at mem ⊢
          tauto
        · simp
      · refine ⟨chain, path.congr fun q mem => ?_, fun r mem => mem, fun found => ?_⟩
        · refine link q (members q mem).1 ?_ (members q mem).2.2
          rintro rfl
          exact inside mem
        · exact (found.elim isRoot inside).elim
  have headed : ∀ root chain r, (status root).head = true → Path s.link (s.link root) chain →
      r ∈ chain → root ≠ req := by
    rintro root chain r - path mem rfl
    rw [bare] at path
    cases path
    simp at mem
  have heads : ∀ root, (reattached s status req creq root).head = true →
      (status root).head = true ∧ root ≠ req := by
    intro root head
    unfold reattached at head
    split_ifs at head with isReq
    · simp [Status.head] at head
    · simp [Status.head] at head
    · simp [Status.head] at head
    · exact ⟨head, isReq⟩
  have heads' : ∀ root, (status root).head = true → root ≠ req →
      (reattached s status req creq root).head = true := by
    intro root head notReq
    unfold reattached
    split_ifs with isReq behind behind'
    · exact absurd isReq notReq
    · simp [con.link_chained creqLinked behind.1, Status.head] at head
    · simp [bare] at behind'
    · exact head
  constructor
  case kept =>
    intro r
    unfold reattached
    split_ifs with isReq behind behind'
    · simp
    · simp
    · simp [bare] at behind'
    · exact h.kept r
  case ends =>
    intro root head
    obtain ⟨head, notReq⟩ := heads root head
    obtain ⟨chain, path⟩ := h.ends root head
    obtain ⟨chain', path', -⟩ := grown root chain head notReq path
    exact ⟨chain', path'⟩
  case behind =>
    -- a flush that waited before is in the chain that grew from its chain
    have old : ∀ p r, status r = .chained p → ∃ root chain,
        (reattached s status req creq root).head = true ∧
        Path (s.flushWorking t req creq).link ((s.flushWorking t req creq).link root) chain ∧
        r ∈ chain ∧ (creq = r → req ∈ chain) := by
      intro p r place
      obtain ⟨root, chain, head, path, mem⟩ := h.behind p r place
      have notReq := headed root chain r head path mem
      obtain ⟨chain', path', more, new⟩ := grown root chain head notReq path
      exact ⟨root, chain', heads' root head notReq, path', more r mem,
        fun same => new (.inr (same ▸ mem))⟩
    intro p r place
    unfold reattached at place
    split_ifs at place with isReq behind behind'
    · subst isReq
      by_cases chained : ∃ q, status creq = .chained q
      · obtain ⟨q, chained⟩ := chained
        obtain ⟨root, chain, head, path, -, new⟩ := old q creq chained
        exact ⟨root, chain, head, path, new rfl⟩
      · have head : (status creq).head = true :=
          Status.head_of_linked creqLinked (fun q place => chained ⟨q, place⟩) (h.kept creq)
        obtain ⟨chain, path⟩ := h.ends creq head
        obtain ⟨chain', path', -, new⟩ := grown creq chain head other path
        exact ⟨creq, chain', heads' creq head other, path', new (.inl rfl)⟩
    · obtain ⟨root, chain, head, path, mem, -⟩ :=
        old creq r (con.link_chained creqLinked behind.1)
      exact ⟨root, chain, head, path, mem⟩
    · obtain ⟨root, chain, head, path, mem, -⟩ := old p r place
      exact ⟨root, chain, head, path, mem⟩

/-- The second loop of `np_respond` goes on. -/
theorem nextFlush (h : Rooted s status) (con : Consistent s status) {t : Fin threads}
    {root req : ReqId} {place : Status threads} (head : (status req).head = true)
    (kind : place = .hands t .tail ∨ place = .answered) :
    Rooted (s.nextFlush t root (s.link req)) (followed s status t req place) := by
  have linked := Status.linked_of_head head
  have behind : ∀ r, s.link req = some r → status r = .chained req := fun r =>
    con.link_chained linked
  have others : ∀ p, p ≠ req → (status p).head = true →
      (followed s status t req place p).head = true := by
    intro p notReq head
    unfold followed
    split_ifs with next
    · rfl
    · exact head
  constructor
  case kept =>
    intro r
    unfold followed
    split_ifs
    · simp
    · rcases kind with rfl | rfl <;> simp
    · exact h.kept r
  case ends =>
    intro p headed
    unfold followed at headed
    split_ifs at headed with next same
    · obtain ⟨chain, path⟩ := h.ends req head
      rw [next] at path
      cases path with
      | cons tail => exact ⟨_, tail⟩
    · rcases kind with rfl | rfl <;> simp [Status.head] at headed
    · exact h.ends p headed
  case behind =>
    intro p r chained
    unfold followed at chained
    split_ifs at chained with next same
    · rcases kind with rfl | rfl <;> simp at chained
    · obtain ⟨first, chain, headed, path, mem⟩ := h.behind p r chained
      by_cases same : first = req
      · -- the chain behind the request is now the one behind its first flush
        subst same
        cases link : s.link first with
        | none =>
            rw [link] at path
            cases path
            simp at mem
        | some freq =>
            rw [link] at path
            cases path with
            | @cons _ rest tail =>
                have mem : r ∈ rest := by
                  rcases List.mem_cons.mp mem with rfl | mem
                  · exact absurd link next
                  · exact mem
                exact ⟨freq, rest, by simp [followed, link, Status.head], tail, mem⟩
      · exact ⟨first, chain, others first same headed, path, mem⟩

end Rooted

/-- The flush that is processed is not put behind itself, and has no flushes of its own. -/
def Attachable (s : Server threads) (req : ReqId) : Prop :=
  s.reqs.find? (s.carries (s.req req).conn (s.req req).tcall.oldtag) = none →
    ∀ creq ∈ s.workreqs.find? (s.carries (s.req req).conn (s.req req).tcall.oldtag),
      creq ≠ req ∧ s.link req = none

instance (s : Server threads) (req : ReqId) : Decidable (Attachable s req) :=
  inferInstanceAs (Decidable (_ → _))

/-- The condition on a step under which no request is lost: a flush is put behind another request
before anything was put behind the flush, and no structure is taken again while its `flushreq` is
still to be read. -/
def Chainable (s : Server threads) (label : Fin threads × Event) : Prop :=
  Unread s label.2 ∧ ∀ req ∈ s.processed label.1 label.2, Attachable s req

instance (s : Server threads) (label : Fin threads × Event) : Decidable (Chainable s label) :=
  inferInstanceAs (Decidable (_ ∧ _))

namespace Rooted

attribute [local grind] Status.head

theorem of_section (h : Rooted s status) (con : Consistent s status) {t : Fin threads}
    {event : Event} (sec : Section s status t event s' status')
    (chainable : Chainable s (t, event)) : Rooted s' status' := by
  cases sec with
  | @alloc conn home tc pc free =>
      have unborn : status s.next = .unborn := (con.born _).2 le_rfl
      refine h.move con ?_ ?_ ?_ ?_ ?_
      · intro p linked
        have apart := con.linked_apart free chainable.1 linked
        have old : p ≠ s.next := by
          rintro rfl
          simp [unborn, Status.linked] at linked
        simp [Server.npReqAlloc, Server.setPc, Server.link, old, apart]
      all_goals
        simp only [update_apply, Server.npReqAlloc, Server.setPc, Server.link]
        grind -linarith [h.kept]
  | @add req pc =>
      have place := (con.hands t req .entering).2 (by simp [pc, Pc.Has])
      refine h.move con (fun p _ => rfl) ?_ ?_ ?_ ?_ <;>
        simp only [update_apply] <;> grind -linarith [h.kept]
  | @take req rest pc first =>
      have place : status req = .queued := (con.queued req).2 (by simp [first])
      refine h.move con (fun p _ => rfl) ?_ ?_ ?_ ?_ <;>
        simp only [update_apply] <;> grind -linarith [h.kept]
  | @keep req pc =>
      have place := (con.hands t req .serving).2 (by simp [pc, Pc.Has])
      refine h.move con (fun p _ => rfl) ?_ ?_ ?_ ?_ <;>
        simp only [update_apply] <;> grind -linarith [h.kept]
  | @resume req rtype pc mem =>
      have place := (con.kept req).2 mem
      refine h.move con (fun p _ => rfl) ?_ ?_ ?_ ?_ <;>
        simp only [update_apply] <;> grind -linarith [h.kept]
  | stay roles before after same =>
      refine h.move con (fun p _ => rfl) h.kept ?_ ?_ ?_ <;> simp +contextual
  | @flushPending req creq pc found =>
      have place : status creq = .queued := (con.queued creq).2 (List.mem_of_find?_eq_some found)
      have none := con.alone creq (by simp [place, Status.early])
      refine h.move con ?_ ?_ ?_ ?_ ?_
      · intro p _
        simp only [Server.flushPending, Server.npReqUnref, Server.search, Server.setPc, Server.link,
          update_apply]
        split_ifs with same <;> simp [same]
      all_goals
        simp only [update_apply]
        grind -linarith [h.kept]
  | @flushWorking req creq pc pending found =>
      obtain ⟨other, bare⟩ := chainable.2 req (by simp [Server.processed, pc]) pending creq found
      have root : Rooted (s.search req) status := ⟨h.kept, h.ends, h.behind⟩
      exact root.flushWorking (con.setTargets _) pc (List.mem_of_find?_eq_some found) other bare
  | flushNone pc pending working =>
      refine h.move con (fun p _ => rfl) h.kept ?_ ?_ ?_ <;> simp +contextual
  | @flushDone creq pc =>
      refine h.move con ?_ h.kept ?_ ?_ ?_
      · intro p _
        simp only [Server.flushDone, Server.npReqUnref, Server.setPc, Server.link, update_apply]
        split_ifs with same <;> simp [same]
      all_goals simp +contextual
  | @mark req rtype pc =>
      have place := (con.hands t req .serving).2 (by simp [pc, Pc.Has])
      rw [con.respondMark_eq pc]
      refine h.move con ?_ ?_ ?_ ?_ ?_
      · intro p _
        simp only [Server.setPc, Server.link, update_apply]
        split_ifs with same <;> simp [same]
      all_goals
        simp only [update_apply]
        grind -linarith [h.kept]
  | @unlink req rtype chain pc path =>
      have place := (con.hands t req .marking).2 (by simp [pc, Pc.Has])
      refine h.move con (fun p _ => rfl) ?_ ?_ ?_ ?_ <;>
        simp only [update_apply] <;> grind -linarith [h.kept]
  | @answer _ req _ _ pc =>
      have place : status req = .hands t .sending :=
        (con.hands t req .sending).2 (by rcases pc with pc | pc <;> simp [pc, Pc.Has])
      refine h.move con (fun p _ => rfl) ?_ ?_ ?_ ?_ <;>
        simp only [update_apply] <;> grind -linarith [h.kept]
  | @answerFlush _ req freq _ pc =>
      have place : status freq = .hands t .next :=
        (con.hands t freq .next).2 (by rcases pc with pc | pc <;> simp [pc, Pc.Has])
      refine h.move con (fun p _ => rfl) ?_ ?_ ?_ ?_ <;>
        simp only [update_apply] <;> grind -linarith [h.kept]
  | @readLink req pc =>
      have place := (con.hands t req .rooting).2 (by simp [pc, Pc.Has])
      exact h.nextFlush con (by simp [place, Status.head]) (.inl rfl)
  | @readFlushLink req freq pc =>
      have place := (con.hands t freq .passing).2 (by simp [pc, Pc.Has])
      exact h.nextFlush con (by simp [place, Status.head]) (.inr rfl)
  | @releaseFlush req freq pc =>
      have place := (con.hands t freq .rooting).2 (by simp [pc, Pc.Has])
      refine h.move con ?_ ?_ ?_ ?_ ?_
      · intro p _
        simp only [Server.releaseFlush, Server.npReqUnref, Server.setPc, Server.link, update_apply]
        split_ifs with same <;> simp [same]
      all_goals
        simp only [update_apply]
        grind -linarith [h.kept]
  | @done req pc =>
      have place := (con.hands t req .tail).2 (by simp [pc, Pc.Has])
      refine h.move con ?_ ?_ ?_ ?_ ?_
      · intro p _
        simp only [Server.respondDone, Server.npReqUnref, Server.setPc, Server.link, update_apply]
        split_ifs with same <;> simp [same]
      all_goals
        simp only [update_apply]
        grind -linarith [h.kept]

end Rooted

/-- The log has an answer to the request: an `Rflush` with its tag. -/
def Server.FlushAnswered (s : Server threads) (req : ReqId) : Prop :=
  ∃ written, Answer.mk req (s.req req).tag MsgType.rflush.code written ∈ s.log

/-- The second loop of `np_respond` answers the chain that the first loop took off the working
list. -/
structure Walked (s : Server threads) (status : ReqId → Status threads) : Prop where
  tags : ∀ e ∈ s.log, e.tag = (s.req e.req).tag
  walking : ∀ t req start, s.remaining (s.pc t) = some (req, start) → ∃ front back,
    s.chains req = front ++ back ∧ Path s.link start back ∧ ∀ r ∈ front, s.FlushAnswered r
  finished : ∀ req ∈ s.finished, status req = .answered ∧ ∀ r ∈ s.chains req, s.FlushAnswered r

namespace Consistent

theorem off_work (con : Consistent s status) {t : Fin threads} {req : ReqId} {role : Role}
    (place : status req = .hands t role) (unlinked : role ≠ .serving ∧ role ≠ .marking) :
    req ∉ s.workreqs := by
  intro mem
  have may := con.mayWork req mem
  cases role <;> simp_all [Status.mayWork]

/-- What is behind a request that left the working list has left it too. -/
theorem path_off_work (con : Consistent s status) {p : ReqId} {chain : List ReqId}
    (linked : (status p).linked = true) (off : p ∉ s.workreqs)
    (path : Path s.link (s.link p) chain) :
    ∀ q ∈ chain, (status q).linked = true ∧ q ∉ s.workreqs := by
  have step : ∀ {start chain}, Path s.link start chain → ∀ p, (status p).linked = true →
      p ∉ s.workreqs → s.link p = start → ∀ q ∈ chain, (status q).linked = true ∧
        q ∉ s.workreqs := by
    intro start chain path
    induction path with
    | nil => simp
    | @cons first rest tail ih =>
        intro p linked off link q mem
        have place := con.link_chained linked link
        have linked' : (status first).linked = true := by simp [place, Status.linked]
        have off' : first ∉ s.workreqs := fun mem => off (con.work_prev p first place mem)
        rcases List.mem_cons.mp mem with rfl | mem
        · exact ⟨linked', off'⟩
        · exact ih first linked' off' rfl q mem
  exact step path p linked off rfl

/-- A request whose chain is being answered is past the first loop of `np_respond`. -/
theorem remaining_hands (con : Consistent s status) {t : Fin threads} {req : ReqId}
    {start : Option ReqId} (remaining : s.remaining (s.pc t) = some (req, start)) :
    ∃ role, status req = .hands t role ∧ role ≠ .marking := by
  have has : ∃ role, (s.pc t).Has req role ∧ role ≠ .marking := by
    cases pc : s.pc t <;> simp_all [Server.remaining, Pc.Has]
  obtain ⟨role, has, other⟩ := has
  exact ⟨role, (con.hands t req role).2 has, other⟩

section Stable

variable (con : Consistent s status)
  (stable : ∀ p, (status p).linked = true → p ∉ s.workreqs → s'.link p = s.link p)

include con stable

theorem remaining_eq (t : Fin threads) : s'.remaining (s.pc t) = s.remaining (s.pc t) := by
  have same : ∀ req role, status req = .hands t role → role ≠ .serving ∧ role ≠ .marking ∧
      role ≠ .tail → s'.link req = s.link req := by
    intro req role place kind
    refine stable req ?_ (con.off_work place ⟨kind.1, kind.2.1⟩)
    cases role <;> simp_all [Status.linked]
  cases pc : s.pc t with
  | unlinked req rtype | writing req rtype =>
      simp only [Server.remaining]
      rw [same req .sending ((con.hands t req _).2 (by simp [pc, Pc.Has])) (by simp)]
  | responded req =>
      simp only [Server.remaining]
      rw [same req .rooting ((con.hands t req _).2 (by simp [pc, Pc.Has])) (by simp)]
  | flushResponded req freq =>
      simp only [Server.remaining]
      rw [same freq .rooting ((con.hands t freq _).2 (by simp [pc, Pc.Has])) (by simp)]
  | released req freq =>
      simp only [Server.remaining]
      rw [same freq .passing ((con.hands t freq _).2 (by simp [pc, Pc.Has])) (by simp)]
  | _ => rfl

theorem remaining_path {t : Fin threads} {req : ReqId} {start : Option ReqId} {chain : List ReqId}
    (remaining : s.remaining (s.pc t) = some (req, start)) (path : Path s.link start chain) :
    Path s'.link start chain := by
  have behind : ∀ p role, status p = .hands t role → role ≠ .serving ∧ role ≠ .marking ∧
      role ≠ .tail → ∀ {chain}, Path s.link (s.link p) chain → Path s'.link (s.link p) chain := by
    intro p role place kind chain path
    have linked : (status p).linked = true := by
      cases role <;> simp_all [Status.linked]
    exact path.congr fun q mem =>
      have out := con.path_off_work linked (con.off_work place ⟨kind.1, kind.2.1⟩) path q mem
      stable q out.1 out.2
  have front : ∀ freq, status freq = .hands t .next → Path s.link (some freq) chain →
      Path s'.link (some freq) chain := by
    intro freq place path
    cases path with
    | cons tail =>
        have tail' := behind freq .next place (by simp) tail
        rw [← stable freq (by simp [place, Status.linked]) (con.off_work place (by simp))] at tail'
        exact .cons tail'
  cases pc : s.pc t with
  | unlinked root rtype | writing root rtype =>
      obtain ⟨rfl, rfl⟩ : root = req ∧ s.link root = start := by
        simpa [pc, Server.remaining] using remaining
      exact behind root .sending ((con.hands t root _).2 (by simp [pc, Pc.Has])) (by simp) path
  | responded root =>
      obtain ⟨rfl, rfl⟩ : root = req ∧ s.link root = start := by
        simpa [pc, Server.remaining] using remaining
      exact behind root .rooting ((con.hands t root _).2 (by simp [pc, Pc.Has])) (by simp) path
  | flushing root freq | flushWriting root freq =>
      obtain ⟨rfl, rfl⟩ : root = req ∧ some freq = start := by
        simpa [pc, Server.remaining] using remaining
      exact front freq ((con.hands t freq _).2 (by simp [pc, Pc.Has])) path
  | flushResponded root freq =>
      obtain ⟨rfl, rfl⟩ : root = req ∧ s.link freq = start := by
        simpa [pc, Server.remaining] using remaining
      exact behind freq .rooting ((con.hands t freq _).2 (by simp [pc, Pc.Has])) (by simp) path
  | released root freq =>
      obtain ⟨rfl, rfl⟩ : root = req ∧ s.link freq = start := by
        simpa [pc, Server.remaining] using remaining
      exact behind freq .passing ((con.hands t freq _).2 (by simp [pc, Pc.Has])) (by simp) path
  | finishing root =>
      obtain ⟨rfl, rfl⟩ : root = req ∧ none = start := by
        simpa [pc, Server.remaining] using remaining
      cases path
      exact .nil
  | _ => simp [pc, Server.remaining] at remaining

end Stable

end Consistent

namespace Walked

theorem start : Walked (Server.start threads) fun _ => .unborn := by
  constructor <;> simp [Server.start, Server.remaining]

theorem flushAnswered_mono (con : Consistent s status) (log : ∀ e ∈ s.log, e ∈ s'.log)
    (tags : ∀ r, status r ≠ .unborn → (s'.req r).tag = (s.req r).tag) {r : ReqId}
    (answered : s.FlushAnswered r) : s'.FlushAnswered r := by
  obtain ⟨written, mem⟩ := answered
  have logged : (status r).logged = true :=
    (con.answered r).2 (List.mem_map.mpr ⟨_, mem, rfl⟩)
  have born : status r ≠ .unborn := by
    intro place
    simp [place, Status.logged] at logged
  exact ⟨written, by rw [tags r born]; exact log _ mem⟩

theorem flushAnswered_answer {t : Fin threads} {req r : ReqId} {rtype : UInt8} {written : Bool}
    {pc : Pc} (answered : s.FlushAnswered r) :
    (s.answer t req rtype written pc).FlushAnswered r := by
  obtain ⟨written, mem⟩ := answered
  exact ⟨written, List.mem_append_left _ mem⟩

/-- One thread moves; the chains of the others stay as they are. -/
theorem move (h : Walked s status) (con : Consistent s status) {t : Fin threads} {pc : Pc}
    (moved : s'.pc = update s.pc t pc)
    (stable : ∀ p, (status p).linked = true → p ∉ s.workreqs → s'.link p = s.link p)
    (log : ∀ e ∈ s.log, e ∈ s'.log)
    (newTags : ∀ e ∈ s'.log, e ∈ s.log ∨ e.tag = (s'.req e.req).tag)
    (tags : ∀ r, status r ≠ .unborn → (s'.req r).tag = (s.req r).tag)
    (chains : ∀ r, status r ≠ .hands t .marking → s'.chains r = s.chains r)
    (done : ∀ r, status r = .answered → status' r = .answered)
    (finished : ∀ r ∈ s'.finished, r ∈ s.finished ∨
      status' r = .answered ∧ ∀ x ∈ s'.chains r, s'.FlushAnswered x)
    (mine : ∀ req start, s'.remaining pc = some (req, start) → ∃ front back,
      s'.chains req = front ++ back ∧ Path s'.link start back ∧ ∀ r ∈ front, s'.FlushAnswered r) :
    Walked s' status' := by
  have logged : ∀ e ∈ s.log, status e.req ≠ .unborn := by
    intro e mem place
    have logged := (con.answered e.req).2 (List.mem_map_of_mem mem)
    simp [place, Status.logged] at logged
  constructor
  case tags =>
    intro e mem
    rcases newTags e mem with old | new
    · rw [h.tags e old, tags _ (logged e old)]
    · exact new
  case walking =>
    intro u req start remaining
    by_cases same : u = t
    · subst same
      exact mine req start (by simpa [moved] using remaining)
    · have pcu : s'.pc u = s.pc u := by simp [moved, same]
      rw [pcu, con.remaining_eq stable] at remaining
      obtain ⟨front, back, split, path, answered⟩ := h.walking u req start remaining
      have other : status req ≠ .hands t .marking := by
        intro place
        obtain ⟨role, place', notMarking⟩ := con.remaining_hands remaining
        rw [place] at place'
        cases place'
        exact notMarking rfl
      exact ⟨front, back, by rw [chains req other, split], con.remaining_path stable remaining path,
        fun r mem => flushAnswered_mono con log tags (answered r mem)⟩
  case finished =>
    intro r mem
    rcases finished r mem with mem | new
    · obtain ⟨place, answered⟩ := h.finished r mem
      refine ⟨done r place, ?_⟩
      rw [chains r (by simp [place])]
      exact fun x mem => flushAnswered_mono con log tags (answered x mem)
    · exact new

/-- What the thread's remaining chain was before the step. -/
theorem carry (h : Walked s status) (con : Consistent s status) {t : Fin threads} {req : ReqId}
    {start : Option ReqId}
    (stable : ∀ p, (status p).linked = true → p ∉ s.workreqs → s'.link p = s.link p)
    (log : ∀ e ∈ s.log, e ∈ s'.log)
    (tags : ∀ r, status r ≠ .unborn → (s'.req r).tag = (s.req r).tag)
    (chains : ∀ r, status r ≠ .hands t .marking → s'.chains r = s.chains r)
    (remaining : s.remaining (s.pc t) = some (req, start)) : ∃ front back,
      s'.chains req = front ++ back ∧ Path s'.link start back ∧
        ∀ r ∈ front, s'.FlushAnswered r := by
  obtain ⟨front, back, split, path, answered⟩ := h.walking t req start remaining
  obtain ⟨role, place, notMarking⟩ := con.remaining_hands remaining
  have other : status req ≠ .hands t .marking := by
    simp [place, notMarking]
  exact ⟨front, back, by rw [chains req other, split], con.remaining_path stable remaining path,
    fun r mem => flushAnswered_mono con log tags (answered r mem)⟩

/-- A step that writes no link and gives no answer. -/
theorem quiet (h : Walked s status) (con : Consistent s status) {t : Fin threads} {pc : Pc}
    (moved : s'.pc = update s.pc t pc) (flushreq : s'.flushreq = s.flushreq)
    (req : ∀ r, (s'.req r).home = (s.req r).home ∧ (s'.req r).tag = (s.req r).tag)
    (log : s'.log = s.log) (chains : s'.chains = s.chains) (finished : s'.finished = s.finished)
    (done : ∀ r, status r = .answered → status' r = .answered)
    (mine : s.remaining pc = none ∨ s.remaining pc = s.remaining (s.pc t)) :
    Walked s' status' := by
  have link : s'.link = s.link := by
    funext r
    simp [Server.link, flushreq, (req r).1]
  have same : ∀ pc, s'.remaining pc = s.remaining pc := by
    intro pc
    cases pc <;> simp [Server.remaining, link]
  refine h.move con moved (fun p _ _ => congrFun link p) (fun e mem => log ▸ mem)
    (fun e mem => .inl (log ▸ mem)) (fun r _ => (req r).2) (fun r _ => congrFun chains r) done
    (fun r mem => .inl (finished ▸ mem)) ?_
  intro root start remaining
  rw [same] at remaining
  rcases mine with none | carried
  · simp [none] at remaining
  · rw [carried] at remaining
    exact h.carry con (fun p _ _ => congrFun link p) (fun e mem => log ▸ mem)
      (fun r _ => (req r).2) (fun r _ => congrFun chains r) remaining

/-- `np_conn_respond` answers a request. -/
theorem answer (h : Walked s status) (con : Consistent s status) {t : Fin threads} {req : ReqId}
    {rtype : UInt8} {written : Bool} {pc : Pc} (unanswered : status req ≠ .answered)
    (mine : ∀ root start, s.remaining pc = some (root, start) → ∃ front back,
      s.chains root = front ++ back ∧ Path s.link start back ∧
        ∀ r ∈ front, (s.answer t req rtype written pc).FlushAnswered r) :
    Walked (s.answer t req rtype written pc) (update status req (.hands t .rooting)) := by
  refine h.move con rfl (fun p _ _ => rfl) (fun e mem => List.mem_append_left _ mem) ?_
    (fun r _ => rfl) (fun r _ => rfl) ?_ (fun r mem => .inl mem) mine
  · intro e mem
    rcases List.mem_append.mp mem with mem | mem
    · exact .inl mem
    · obtain rfl := List.mem_singleton.mp mem
      exact .inr rfl
  · intro r place
    have other : r ≠ req := by
      rintro rfl
      exact unanswered place
    simp [other, place]

theorem of_section (h : Walked s status) (con : Consistent s status) {t : Fin threads}
    {event : Event} (sec : Section s status t event s' status') (unread : Unread s event) :
    Walked s' status' := by
  have unref : ∀ r x : ReqId, ((s.npReqUnref r).req x).home = (s.req x).home ∧
      ((s.npReqUnref r).req x).tag = (s.req x).tag := by
    intro r x
    by_cases same : x = r <;> simp [Server.npReqUnref, same]
  cases sec with
  | @alloc conn home tc pc free =>
      have unborn : status s.next = .unborn := (con.born _).2 le_rfl
      refine h.move con rfl ?_ (fun e mem => mem) (fun e mem => .inl mem) ?_ (fun r _ => rfl) ?_
        (fun r mem => .inl mem) (by simp [Server.remaining])
      · intro p linked _
        have apart := con.linked_apart free unread linked
        have old : p ≠ s.next := by
          rintro rfl
          simp [unborn, Status.linked] at linked
        simp [Server.npReqAlloc, Server.setPc, Server.link, old, apart]
      · intro r born
        have old : r ≠ s.next := by
          rintro rfl
          exact born unborn
        simp [Server.npReqAlloc, Server.setPc, old]
      · intro r place
        have old : r ≠ s.next := by
          rintro rfl
          simp [unborn] at place
        simp [old, place]
  | @add req pc =>
      have place := (con.hands t req .entering).2 (by simp [pc, Pc.Has])
      refine h.quiet con rfl rfl (fun r => ⟨rfl, rfl⟩) rfl rfl rfl ?_ (.inl rfl)
      simp only [update_apply]
      grind -linarith
  | @take req rest pc first =>
      have place : status req = .queued := (con.queued req).2 (by simp [first])
      refine h.quiet con rfl rfl (fun r => ⟨rfl, rfl⟩) rfl rfl rfl ?_ (.inl rfl)
      simp only [update_apply]
      grind -linarith
  | @keep req pc =>
      have place := (con.hands t req .serving).2 (by simp [pc, Pc.Has])
      refine h.quiet con rfl rfl (fun r => ⟨rfl, rfl⟩) rfl rfl rfl ?_ (.inl rfl)
      simp only [update_apply]
      grind -linarith
  | @resume req rtype pc mem =>
      have place := (con.kept req).2 mem
      refine h.quiet con rfl rfl (fun r => ⟨rfl, rfl⟩) rfl rfl rfl ?_ (.inl rfl)
      simp only [update_apply]
      grind -linarith
  | stay roles before after same =>
      exact h.quiet con rfl rfl (fun r => ⟨rfl, rfl⟩) rfl rfl rfl (fun r place => place) (.inr same)
  | @flushPending req creq pc found =>
      have place : status creq = .queued := (con.queued creq).2 (List.mem_of_find?_eq_some found)
      refine h.quiet con rfl rfl (unref creq) rfl rfl rfl ?_ (.inl rfl)
      simp only [update_apply]
      grind -linarith
  | @flushWorking req creq pc pending found =>
      have mine : status req = .hands t .serving :=
        (con.hands t req .serving).2 (by simp [pc, Pc.Has])
      have working := List.mem_of_find?_eq_some found
      have reqLinked : (status req).linked = true := by simp [mine, Status.linked]
      have creqLinked : (status creq).linked = true :=
        Status.linked_of_mayWork (con.mayWork creq working)
      have reqWork : req ∈ s.workreqs := con.mustWork req (by simp [mine, Status.mustWork])
      refine h.move con rfl ?_ (fun e mem => mem) (fun e mem => .inl mem) ?_ (fun r _ => rfl) ?_
        (fun r mem => .inl mem) (by simp [Server.remaining])
      · intro p linked off
        have notCreq : p ≠ creq := by
          rintro rfl
          exact off working
        have apart : (s.req p).home ≠ (s.req creq).home := fun same =>
          notCreq (con.homes p creq linked creqLinked same)
        have apart' : (s.req p).home ≠ (s.req req).home := by
          intro same
          obtain rfl := con.homes p req linked reqLinked same
          exact off reqWork
        simp [Server.flushWorking, Server.npReqRef, Server.setPc, Server.search, Server.link,
          notCreq, apart, apart']
      · intro r _
        by_cases same : r = creq <;>
          simp [Server.flushWorking, Server.npReqRef, Server.setPc, Server.search, same]
      · intro r place
        have behindCreq := fun r => con.link_chained (r := r) creqLinked
        have behindReq := fun r => con.link_chained (r := r) reqLinked
        unfold reattached
        grind -linarith
  | flushNone pc pending working =>
      exact h.quiet con rfl rfl (fun r => ⟨rfl, rfl⟩) rfl rfl rfl (fun r place => place) (.inl rfl)
  | @flushDone creq pc =>
      exact h.quiet con rfl rfl (unref creq) rfl rfl rfl (fun r place => place) (.inl rfl)
  | @mark req rtype pc =>
      have place := (con.hands t req .serving).2 (by simp [pc, Pc.Has])
      rw [con.respondMark_eq pc]
      refine h.quiet con rfl rfl ?_ rfl rfl rfl ?_ (.inl rfl)
      · intro r
        by_cases same : r = req <;> simp [Server.setPc, same]
      · simp only [update_apply]
        grind -linarith
  | @unlink req rtype chain pc path =>
      have place := (con.hands t req .marking).2 (by simp [pc, Pc.Has])
      refine h.move con rfl (fun p _ _ => rfl) (fun e mem => mem) (fun e mem => .inl mem)
        (fun r _ => rfl) ?_ ?_ ?_ ?_
      · intro r other
        have apart : r ≠ req := by
          rintro rfl
          exact other place
        simp [Server.respondUnlink, Server.setPc, apart]
      · simp only [update_apply]
        grind -linarith
      · exact fun r mem => .inl mem
      · rintro root start ⟨⟩
        exact ⟨[], chain, by simp [Server.respondUnlink, Server.setPc], path, by simp⟩
  | @answer _ req _ _ pc =>
      have place : status req = .hands t .sending :=
        (con.hands t req .sending).2 (by rcases pc with pc | pc <;> simp [pc, Pc.Has])
      refine h.answer con (by simp [place]) ?_
      intro root start remaining
      obtain ⟨front, back, split, path, answered⟩ := h.walking t root start
        (by rcases pc with pc | pc <;> simpa [pc, Server.remaining] using remaining)
      exact ⟨front, back, split, path, fun r mem => flushAnswered_answer (answered r mem)⟩
  | @answerFlush _ req freq written pc =>
      have place : status freq = .hands t .next :=
        (con.hands t freq .next).2 (by rcases pc with pc | pc <;> simp [pc, Pc.Has])
      refine h.answer con (by simp [place]) ?_
      rintro root start ⟨⟩
      obtain ⟨front, back, split, path, answered⟩ := h.walking t req (some freq)
        (by rcases pc with pc | pc <;> simp [pc, Server.remaining])
      cases path with
      | @cons _ rest tail =>
          refine ⟨front ++ [freq], rest, by simp [split], tail, ?_⟩
          intro r mem
          rcases List.mem_append.mp mem with mem | mem
          · exact flushAnswered_answer (answered r mem)
          · obtain rfl := List.mem_singleton.mp mem
            exact ⟨written, List.mem_append_right _ List.mem_cons_self⟩
  | @readLink req pc =>
      have place := (con.hands t req .rooting).2 (by simp [pc, Pc.Has])
      refine h.quiet con rfl rfl (fun r => ⟨rfl, rfl⟩) rfl rfl rfl ?_
        (.inr (by rw [Server.remaining_loop, pc]; rfl))
      have behind := fun r =>
        con.link_chained (r := r) (show (status req).linked = true by simp [place, Status.linked])
      unfold followed
      grind -linarith
  | @readFlushLink req freq pc =>
      have place := (con.hands t freq .passing).2 (by simp [pc, Pc.Has])
      refine h.quiet con rfl rfl (fun r => ⟨rfl, rfl⟩) rfl rfl rfl ?_
        (.inr (by rw [Server.remaining_loop, pc]; rfl))
      have behind := fun r =>
        con.link_chained (r := r) (show (status freq).linked = true by simp [place, Status.linked])
      unfold followed
      grind -linarith
  | @releaseFlush req freq pc =>
      have place := (con.hands t freq .rooting).2 (by simp [pc, Pc.Has])
      refine h.quiet con rfl rfl (unref freq) rfl rfl rfl ?_ (.inr (by rw [pc]; rfl))
      simp only [update_apply]
      grind -linarith
  | @done req pc =>
      have place := (con.hands t req .tail).2 (by simp [pc, Pc.Has])
      obtain ⟨front, back, split, path, answered⟩ := h.walking t req none (by rw [pc]; rfl)
      cases path
      refine h.move con rfl ?_ (fun e mem => mem) (fun e mem => .inl mem)
        (fun r _ => (unref req r).2) (fun r _ => rfl) ?_ ?_ (by simp [Server.remaining])
      · intro p _ _
        change s.flushreq ((s.npReqUnref req).req p).home = s.flushreq (s.req p).home
        rw [(unref req p).1]
      · simp only [update_apply]
        grind -linarith
      · intro r mem
        rcases List.mem_append.mp mem with mem | mem
        · exact .inl mem
        · obtain rfl := List.mem_singleton.mp mem
          refine .inr ⟨by simp, fun x mem => ?_⟩
          have mem : x ∈ front := by
            simpa [Server.respondDone, Server.setPc, Server.npReqUnref, split] using mem
          obtain ⟨written, logged⟩ := answered x mem
          exact ⟨written, by rwa [← (unref r x).2] at logged⟩

end Walked

/-- What has become of a request that was queued. -/
inductive Fate where
  | pending
  | working
  | answered
  | cancelled
  /-- In the chain of flushes behind request `root`. -/
  | chained (root : ReqId)

/-- A thread serves the request, and has yet to answer it. -/
def Pc.Works : Pc → ReqId → Prop
  | .serving req, r | .respond req _, r | .marked req _, r | .unlinked req _, r
  | .writing req _, r => r = req
  | _, _ => False

namespace Server

/-- The request that a thread serves or answers, and where the chain behind it starts. -/
def headed (s : Server threads) : Pc → Option (ReqId × Option ReqId)
  | .serving req | .respond req _ | .marked req _ => some (req, s.link req)
  | pc => s.remaining pc

/-- A request in somebody's hands, and where the chain behind it starts. -/
def Heads (s : Server threads) (root : ReqId) (start : Option ReqId) : Prop :=
  (∃ t, s.headed (s.pc t) = some (root, start)) ∨ root ∈ s.kept ∧ start = s.link root

/-- What has become of a request, as the fields of the server show it. -/
def HasFate (s : Server threads) (r : ReqId) : Fate → Prop
  | .pending => r ∈ s.reqs
  | .working => r ∈ s.kept ∨ ∃ t, (s.pc t).Works r
  | .answered => s.answered.count r = 1
  | .cancelled => r ∈ s.cancelled
  | .chained root => ∃ start chain, s.Heads root start ∧ Path s.link start chain ∧ r ∈ chain

end Server

/-- No request is lost or answered twice. -/
structure Accounted (s : Server threads) : Prop where
  /-- Every request that was queued has exactly one fate. -/
  fate : ∀ r ∈ s.entered, ∃! fate, s.HasFate r fate
  /-- No request is answered twice. -/
  once : s.answered.Nodup
  /-- Every chain ends, and visits nothing twice. -/
  chains : ∀ root start, s.Heads root start → ∃ chain, Path s.link start chain ∧ chain.Nodup
  /-- Every answer carries the tag of the request that it answers. -/
  tags : ∀ e ∈ s.log, e.tag = (s.req e.req).tag
  /-- The flushes in the chain of an answered request have one `Rflush` each. -/
  flushes : ∀ req ∈ s.finished, ∀ r ∈ s.chains req, ∃ written,
    s.log.filter (·.req = r) = [Answer.mk r (s.req r).tag MsgType.rflush.code written]

section Accounting

/-- The request `p` heads the chain that hangs off `root`. -/
def Source (s : Server threads) (status : ReqId → Status threads) (p root : ReqId) : Prop :=
  status p = .kept ∧ root = p ∨
    ∃ t role start, status p = .hands t role ∧ s.headed (s.pc t) = some (root, start)

theorem Source.unique {p root root' : ReqId} (h : Source s status p root)
    (h' : Source s status p root') : root = root' := by
  rcases h with ⟨place, rfl⟩ | ⟨t, role, start, place, headed⟩
  · rcases h' with ⟨-, rfl⟩ | ⟨t', role', start', place', -⟩
    · rfl
    · simp [place] at place'
  · rcases h' with ⟨place', -⟩ | ⟨t', role', start', place', headed'⟩
    · simp [place] at place'
    · rw [place] at place'
      cases place'
      rw [headed] at headed'
      cases headed'
      rfl

namespace Consistent

variable (con : Consistent s status)

include con

/-- Where a chain starts is behind a head, or is the head itself when it is answered next. -/
theorem source {root : ReqId} {start : Option ReqId} (heads : s.Heads root start) :
    start = none ∨ ∃ p, (status p).head = true ∧ Source s status p root ∧
      (start = s.link p ∨ start = some p ∧ ∃ t, status p = .hands t .next) := by
  rcases heads with ⟨t, headed⟩ | ⟨mem, rfl⟩
  · have at_ : ∀ p role, (s.pc t).Has p role → role ≠ .tail → (status p).head = true ∧
        Source s status p root := by
      intro p role has notTail
      have place := (con.hands t p role).2 has
      refine ⟨?_, .inr ⟨t, role, start, place, headed⟩⟩
      cases role <;> simp_all [Status.head]
    cases pc : s.pc t with
    | serving req | respond req rtype | marked req rtype | unlinked req rtype | writing req rtype
    | responded req =>
        obtain ⟨rfl, rfl⟩ : req = root ∧ s.link req = start := by
          simpa [pc, Server.headed, Server.remaining] using headed
        obtain ⟨head, source⟩ := at_ req _ (by rw [pc]; exact ⟨rfl, rfl⟩) (by simp)
        exact .inr ⟨req, head, source, .inl rfl⟩
    | flushing req freq | flushWriting req freq =>
        obtain ⟨rfl, rfl⟩ : req = root ∧ some freq = start := by
          simpa [pc, Server.headed, Server.remaining] using headed
        have has : (s.pc t).Has freq .next := by
          rw [pc]
          exact .inr ⟨rfl, rfl⟩
        obtain ⟨head, source⟩ := at_ freq _ has (by simp)
        exact .inr ⟨freq, head, source, .inr ⟨rfl, t, (con.hands t freq _).2 has⟩⟩
    | flushResponded req freq | released req freq =>
        obtain ⟨rfl, rfl⟩ : req = root ∧ s.link freq = start := by
          simpa [pc, Server.headed, Server.remaining] using headed
        obtain ⟨head, source⟩ := at_ freq _ (by rw [pc]; exact .inr ⟨rfl, rfl⟩) (by simp)
        exact .inr ⟨freq, head, source, .inl rfl⟩
    | finishing req =>
        obtain ⟨rfl, rfl⟩ : req = root ∧ none = start := by
          simpa [pc, Server.headed, Server.remaining] using headed
        exact .inl rfl
    | idle | allocated req | flushed creq => simp [pc, Server.headed, Server.remaining] at headed
  · have place := (con.kept root).2 mem
    exact .inr ⟨root, by simp [place, Status.head], .inl ⟨place, rfl⟩, .inl rfl⟩

/-- A request behind two heads shows that they are the same. -/
theorem head_unique {p p' r : ReqId} {chain chain' : List ReqId} (head : (status p).head = true)
    (head' : (status p').head = true) (path : Path s.link (s.link p) chain)
    (path' : Path s.link (s.link p') chain') (mem : r ∈ chain) (mem' : r ∈ chain') : p = p' := by
  have unchained : ∀ {q : ReqId}, (status q).head = true → ∀ x, status q ≠ .chained x := by
    intro q head x place
    simp [place, Status.head] at head
  have prev := con.path_chained (Status.linked_of_head head') path'
  -- walk along the first chain: each step back in the second one leads to the step before
  have step : ∀ {start chain}, Path s.link start chain → ∀ q, (status q).linked = true →
      s.link q = start → (q = p' ∨ q ∈ chain' → p = p') → ∀ r ∈ chain, r ∈ chain' → p = p' := by
    intro start chain path
    induction path with
    | nil => simp
    | @cons first rest tail ih =>
        intro q linked link found r mem mem'
        have place := con.link_chained linked link
        have back : first ∈ chain' → p = p' := by
          intro mem'
          obtain ⟨q', memq, place'⟩ := prev first mem'
          rw [place] at place'
          cases place'
          exact found (List.mem_cons.mp memq)
        rcases List.mem_cons.mp mem with rfl | mem
        · exact back mem'
        · refine ih first (by simp [place, Status.linked]) rfl ?_ r mem mem'
          rintro (rfl | mem')
          · exact absurd place (unchained head' q)
          · exact back mem'
  refine step path p (Status.linked_of_head head) rfl ?_ r mem mem'
  rintro (same | mem')
  · exact same
  · obtain ⟨q', -, place⟩ := prev p mem'
    exact absurd place (unchained head q')

/-- A request in a chain is in the chain behind some head, or is the head that is answered next. -/
theorem of_fate_chained {root r : ReqId} (fate : s.HasFate r (.chained root)) :
    ∃ p, (status p).head = true ∧ Source s status p root ∧
      ((r = p ∧ ∃ t, status p = .hands t .next) ∨
        ∃ chain, Path s.link (s.link p) chain ∧ r ∈ chain) := by
  obtain ⟨start, chain, heads, path, mem⟩ := fate
  rcases con.source heads with rfl | ⟨p, head, source, rfl | ⟨rfl, next⟩⟩
  · cases path
    simp at mem
  · exact ⟨p, head, source, .inr ⟨chain, path, mem⟩⟩
  · cases path with
    | @cons _ rest tail =>
        rcases List.mem_cons.mp mem with rfl | mem
        · exact ⟨r, head, source, .inl ⟨rfl, next⟩⟩
        · exact ⟨p, head, source, .inr ⟨rest, tail, mem⟩⟩

theorem waits {root r : ReqId} (fate : s.HasFate r (.chained root)) :
    (∃ q, status r = .chained q) ∨ ∃ t, status r = .hands t .next := by
  obtain ⟨p, head, -, ⟨rfl, next⟩ | ⟨chain, path, mem⟩⟩ := con.of_fate_chained fate
  · exact .inr next
  · obtain ⟨q, -, place⟩ := con.path_chained (Status.linked_of_head head) path r mem
    exact .inl ⟨q, place⟩

theorem root_unique {root root' r : ReqId} (fate : s.HasFate r (.chained root))
    (fate' : s.HasFate r (.chained root')) : root = root' := by
  have chained : ∀ {p chain}, (status p).head = true → Path s.link (s.link p) chain → r ∈ chain →
      ∀ t, status r ≠ .hands t .next := by
    intro p chain head path mem t place
    obtain ⟨q, -, place'⟩ := con.path_chained (Status.linked_of_head head) path r mem
    simp [place] at place'
  obtain ⟨p, head, source, ⟨rfl, t, next⟩ | ⟨chain, path, mem⟩⟩ := con.of_fate_chained fate
  · obtain ⟨p', head', source', ⟨rfl, -⟩ | ⟨chain', path', mem'⟩⟩ := con.of_fate_chained fate'
    · exact source.unique source'
    · exact absurd next (chained head' path' mem' t)
  · obtain ⟨p', head', source', ⟨rfl, t, next⟩ | ⟨chain', path', mem'⟩⟩ :=
      con.of_fate_chained fate'
    · exact absurd next (chained head path mem t)
    · obtain rfl := con.head_unique head head' path path' mem mem'
      exact source.unique source'

theorem works {r : ReqId} {t : Fin threads} (works : (s.pc t).Works r) :
    ∃ role, status r = .hands t role ∧ (role = .serving ∨ role = .marking ∨ role = .sending) := by
  have has : ∃ role, (s.pc t).Has r role ∧
      (role = .serving ∨ role = .marking ∨ role = .sending) := by
    cases pc : s.pc t <;> simp_all [Pc.Works, Pc.Has]
  obtain ⟨role, has, kind⟩ := has
  exact ⟨role, (con.hands t r role).2 has, kind⟩

/-- What is behind a head waits behind a request in somebody's hands. -/
theorem fate_behind {p r : ReqId} {chain : List ReqId} (head : (status p).head = true)
    (path : Path s.link (s.link p) chain) (mem : r ∈ chain) :
    ∃ root, s.HasFate r (.chained root) := by
  have bare : (status p).early = false := by
    by_contra early
    rw [con.alone p (by simpa using early)] at path
    cases path
    simp at mem
  cases place : status p with
  | kept => exact ⟨p, _, chain, .inr ⟨(con.kept p).1 place, rfl⟩, path, mem⟩
  | hands t role =>
      have has := (con.hands t p role).1 place
      have here : ∀ root, s.headed (s.pc t) = some (root, s.link p) →
          ∃ root, s.HasFate r (.chained root) := fun root headed =>
        ⟨root, _, chain, .inl ⟨t, headed⟩, path, mem⟩
      have next : ∀ root, s.headed (s.pc t) = some (root, some p) →
          ∃ root, s.HasFate r (.chained root) := fun root headed =>
        ⟨root, _, p :: chain, .inl ⟨t, headed⟩, .cons path, List.mem_cons_of_mem _ mem⟩
      cases pc : s.pc t with
      | idle | flushed creq => simp [pc, Pc.Has] at has
      | allocated req =>
          obtain ⟨rfl, rfl⟩ : p = req ∧ role = .entering := by simpa [pc, Pc.Has] using has
          simp [place, Status.early] at bare
      | serving req | respond req rtype | marked req rtype | unlinked req rtype
      | writing req rtype | responded req =>
          obtain ⟨rfl, -⟩ : p = req ∧ _ := by simpa only [pc, Pc.Has] using has
          exact here p (by rw [pc]; rfl)
      | flushing req freq | flushWriting req freq =>
          rcases (by simpa only [pc, Pc.Has] using has :
            p = req ∧ role = .tail ∨ p = freq ∧ role = .next) with ⟨rfl, rfl⟩ | ⟨rfl, rfl⟩
          · simp [place, Status.head] at head
          · exact next req (by rw [pc]; rfl)
      | flushResponded req freq =>
          rcases (by simpa only [pc, Pc.Has] using has :
            p = req ∧ role = .tail ∨ p = freq ∧ role = .rooting) with ⟨rfl, rfl⟩ | ⟨rfl, rfl⟩
          · simp [place, Status.head] at head
          · exact here req (by rw [pc]; rfl)
      | released req freq =>
          rcases (by simpa only [pc, Pc.Has] using has :
            p = req ∧ role = .tail ∨ p = freq ∧ role = .passing) with ⟨rfl, rfl⟩ | ⟨rfl, rfl⟩
          · simp [place, Status.head] at head
          · exact here req (by rw [pc]; rfl)
      | finishing req =>
          obtain ⟨rfl, rfl⟩ : p = req ∧ role = .tail := by simpa only [pc, Pc.Has] using has
          simp [place, Status.head] at head
  | queued => simp [place, Status.early] at bare
  | unborn | chained q | lost | cancelled | answered => simp [place, Status.head] at head

/-- The flush that a thread answers next waits behind the thread's request. -/
theorem fate_next (rooted : Rooted s status) {t : Fin threads} {r : ReqId}
    (place : status r = .hands t .next) : ∃ root, s.HasFate r (.chained root) := by
  obtain ⟨chain, path⟩ := rooted.ends r (by simp [place, Status.head])
  have has := (con.hands t r .next).1 place
  have next : ∀ root, s.headed (s.pc t) = some (root, some r) →
      ∃ root, s.HasFate r (.chained root) := fun root headed =>
    ⟨root, _, r :: chain, .inl ⟨t, headed⟩, .cons path, List.mem_cons_self⟩
  cases pc : s.pc t with
  | flushing req freq | flushWriting req freq =>
      obtain rfl : r = freq := by simpa [pc, Pc.Has] using has
      exact next req (by rw [pc]; rfl)
  | _ => simp [pc, Pc.Has] at has

/-- A request in a thread's hands that is yet to be answered is being worked on. -/
theorem works_of_hands {t : Fin threads} {r : ReqId} {role : Role}
    (place : status r = .hands t role)
    (kind : role = .serving ∨ role = .marking ∨ role = .sending) : (s.pc t).Works r := by
  have has := (con.hands t r role).1 place
  cases pc : s.pc t <;> simp_all [Pc.Works, Pc.Has]
  all_goals rcases has with ⟨-, rfl⟩ | ⟨-, rfl⟩ <;> simp at kind

theorem fate_exists (rooted : Rooted s status) {r : ReqId} (entered : r ∈ s.entered) :
    ∃ fate, s.HasFate r fate := by
  obtain ⟨born, queued⟩ := (con.entered r).1 entered
  have once : (status r).logged = true → s.HasFate r .answered := fun logged =>
    List.count_eq_one_of_mem con.answered_nodup ((con.answered r).1 logged)
  cases place : status r with
  | unborn => exact absurd place born
  | queued => exact ⟨.pending, (con.queued r).1 place⟩
  | kept => exact ⟨.working, .inl ((con.kept r).1 place)⟩
  | chained q =>
      obtain ⟨p, chain, head, path, mem⟩ := rooted.behind q r place
      obtain ⟨root, fate⟩ := con.fate_behind head path mem
      exact ⟨_, fate⟩
  | lost => exact absurd place (rooted.kept r)
  | cancelled => exact ⟨.cancelled, (con.cancelled r).1 place⟩
  | answered => exact ⟨.answered, once (by simp [place, Status.logged])⟩
  | hands t role =>
      cases role with
      | entering => exact absurd place (queued t)
      | serving | marking | sending =>
          exact ⟨.working, .inr ⟨t, con.works_of_hands place (by simp)⟩⟩
      | rooting | tail | passing => exact ⟨.answered, once (by simp [place, Status.logged])⟩
      | next =>
          obtain ⟨root, fate⟩ := con.fate_next rooted place
          exact ⟨_, fate⟩

theorem fate_unique {r : ReqId} {fate fate' : Fate} (has : s.HasFate r fate)
    (has' : s.HasFate r fate') : fate = fate' := by
  -- each fate shows a status of its own
  have shows : ∀ {fate}, s.HasFate r fate → match fate with
      | .pending => status r = .queued
      | .working => status r = .kept ∨ ∃ t role, status r = .hands t role ∧
          (role = .serving ∨ role = .marking ∨ role = .sending)
      | .answered => status r = .answered ∨ ∃ t role, status r = .hands t role ∧
          (role = .rooting ∨ role = .tail ∨ role = .passing)
      | .cancelled => status r = .cancelled
      | .chained _ => (∃ q, status r = .chained q) ∨ ∃ t, status r = .hands t .next := by
    intro fate has
    cases fate with
    | pending => exact (con.queued r).2 has
    | working =>
        rcases has with mem | ⟨t, works⟩
        · exact .inl ((con.kept r).2 mem)
        · obtain ⟨role, place⟩ := con.works works
          exact .inr ⟨t, role, place⟩
    | answered =>
        refine Status.answered_of_logged ((con.answered r).2 (List.count_pos_iff.mp ?_))
        rw [show s.answered.count r = 1 from has]
        exact Nat.one_pos
    | cancelled => exact (con.cancelled r).2 has
    | chained root => exact con.waits has
  have first := shows has
  have second := shows has'
  cases fate <;> cases fate' <;> simp only at first second
  all_goals first
    | rfl
    | exact congrArg Fate.chained (con.root_unique has has')
    | grind -linarith

end Consistent

end Accounting

private theorem filter_req {log : List Answer} (once : (log.map Answer.req).Nodup) {e : Answer}
    (mem : e ∈ log) : log.filter (·.req = e.req) = [e] := by
  induction log with
  | nil => simp at mem
  | cons first rest ih =>
      obtain ⟨apart, once⟩ := List.nodup_cons.mp once
      rcases List.mem_cons.mp mem with rfl | mem
      · have none : rest.filter (·.req = e.req) = [] := by
          refine List.filter_eq_nil_iff.mpr fun e' mem' same => apart ?_
          exact List.mem_map.mpr ⟨e', mem', by simpa using same⟩
        simp [none]
      · have other : first.req ≠ e.req := fun same =>
          apart (List.mem_map.mpr ⟨e, mem, same.symm⟩)
        simp [other, ih once mem]

theorem Consistent.accounted (con : Consistent s status) (rooted : Rooted s status)
    (walked : Walked s status) : Accounted s where
  fate r entered := by
    obtain ⟨fate, has⟩ := con.fate_exists rooted entered
    exact ⟨fate, has, fun fate' has' => con.fate_unique has' has⟩
  once := con.answered_nodup
  chains root start heads := by
    rcases con.source heads with rfl | ⟨p, head, -, rfl | ⟨rfl, -⟩⟩
    · exact ⟨[], .nil, List.nodup_nil⟩
    · obtain ⟨chain, path⟩ := rooted.ends p head
      exact ⟨chain, path, path.nodup⟩
    · obtain ⟨chain, path⟩ := rooted.ends p head
      exact ⟨p :: chain, .cons path, (Path.cons path).nodup⟩
  tags := walked.tags
  flushes req finished r mem := by
    obtain ⟨written, logged⟩ := (walked.finished req finished).2 r mem
    exact ⟨written, filter_req con.answered_nodup logged⟩

end Npfs.Requests
