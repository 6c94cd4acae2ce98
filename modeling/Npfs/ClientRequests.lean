import Npfs.DoublyLinked
import Npfs.Transition

/-!
# The requests of the client

`libnpclient/fsys.c`: the unsent requests are in a doubly linked list, the pending ones in a list
that uses the same two fields. The writer moves a request from the one to the other, the reader takes
the request that is answered out of the second, and `npc_cancel_fid_requests` takes the requests of a
fid out of the first.
-/

namespace Npfs

open DoublyLinked

/-- The fields of an `Npcfsys` and of its requests that make the lists.  A request is named by its
address. -/
structure Npcfsys where
  /-- `req->next` and `req->prev`. -/
  links : Links ℕ
  /-- `req->tag`. -/
  tag : ℕ → UInt16
  /-- `req->tc->fid`. -/
  fid : ℕ → UInt32
  flushed : ℕ → Bool
  unsentFirst : Option ℕ
  unsentLast : Option ℕ
  pendFirst : Option ℕ
  /-- `fs->trans` is not NULL. -/
  trans : Bool

namespace Npcfsys

/-! ## The sections -/

/-- The section of `npc_rpcnb`, behind `npc_reqalloc`. -/
def npcRpcnb (fs : Npcfsys) (req : ℕ) (tag : UInt16) (fid : UInt32) : Npcfsys :=
  let links := (fs.links.setNext (some req) none).setPrev (some req) none
  { fs with
    links := (links.setNext fs.unsentLast (some req)).setPrev (some req) fs.unsentLast
    tag := Function.update fs.tag req tag
    fid := Function.update fs.fid req fid
    flushed := Function.update fs.flushed req false
    unsentLast := some req
    unsentFirst := if fs.unsentFirst = none then some req else fs.unsentFirst }

/-- The section of `npc_write_proc` that takes a request. -/
def npcWriteProc (fs : Npcfsys) (req : ℕ) : Npcfsys :=
  let links := (fs.links.setPrev (some req) none).setNext (some req) fs.pendFirst
  { fs with
    links := links.setPrev fs.pendFirst (some req)
    unsentFirst := fs.links.next req
    unsentLast := if fs.unsentLast = some req then none else fs.unsentLast
    pendFirst := some req }

/-- `npc_read_proc` takes a request out of the pending ones, behind `preq` if there is one. -/
def answer (fs : Npcfsys) (preq : Option ℕ) (req : ℕ) : Npcfsys :=
  { fs with
    links := fs.links.setNext preq (fs.links.next req)
    pendFirst := if preq = none then fs.links.next req else fs.pendFirst }

/-- `npc_cancel_fid_requests` takes a request out of the unsent ones. -/
def remove (fs : Npcfsys) (req : ℕ) (ureqs : Option ℕ) : Npcfsys :=
  let links := fs.links.unlink req
  { fs with
    links := links.setNext (some req) ureqs
    unsentLast := if fs.unsentLast = some req then links.prev req else fs.unsentLast
    unsentFirst := if fs.unsentFirst = some req then links.next req else fs.unsentFirst }

/-- The loop of `npc_cancel_fid_requests` over the unsent requests: what is left, and `ureqs`;
`none` if it does not end in so many turns. -/
def cancelUnsent (fid : UInt32) : ℕ → Npcfsys → Option ℕ → Option ℕ →
    Option (Npcfsys × Option ℕ)
  | _, fs, none, ureqs => some (fs, ureqs)
  | 0, _, some _, _ => none
  | turns + 1, fs, some req, ureqs =>
    let req1 := fs.links.next req
    if fs.fid req = fid then cancelUnsent fid turns (fs.remove req ureqs) req1 (some req)
    else cancelUnsent fid turns fs req1 ureqs

/-- The section of `npc_cancel_fid_requests`: what is left, `ureqs`, and `ftags`.  What follows it
changes neither list: `npc_rpc` returns nothing above zero. -/
def npcCancelFidRequests (fs : Npcfsys) (turns : ℕ) (fid : UInt32) :
    Option (Npcfsys × Option ℕ × List UInt16) := do
  let (fs, ureqs) ← cancelUnsent fid turns fs fs.unsentFirst none
  let pending ← LinkedChain.walk fs.links.next turns fs.pendFirst
  let named := pending.filter fun req => fs.fid req = fid
  return ({ fs with flushed := fun req => fs.flushed req || req ∈ named }, ureqs,
    named.map fs.tag)

/-- The last section of `npc_read_proc`. -/
def lose (fs : Npcfsys) : Npcfsys :=
  { fs with unsentFirst := none, pendFirst := none, trans := false }

/-! ## What the lists hold -/

/-- The unsent list holds `queued`, and the pending list holds `taken`.  The back link of the first
unsent request is `before`. -/
structure Shaped (fs : Npcfsys) (before : Option ℕ) (queued taken : List ℕ) : Prop where
  unsent : Joined fs.links before queued
  first : fs.unsentFirst = queued.head?
  last : fs.unsentLast = queued.getLast?
  empty : queued = [] → before = none
  pending : LinkedChain.Path fs.links.next fs.pendFirst taken
  apart : ∀ q ∈ queued, q ∉ taken

namespace Shaped

variable {fs : Npcfsys} {before : Option ℕ} {queued taken front back rest : List ℕ} {req : ℕ}
  {ureqs : Option ℕ} {fid : UInt32} {turns : ℕ}

/-- The requests of a list that stay when one of them leaves. -/
theorem mem_others {q : ℕ} (mem : q ∈ front ++ back) : q ∈ front ++ req :: back :=
  ((List.sublist_cons_self req back).append_left front).subset mem

/-- A new request becomes the last unsent one. -/
theorem rpcnb (shaped : fs.Shaped before queued taken) (unsent : req ∉ queued)
    (answered : req ∉ taken) (tag : UInt16) (fid : UInt32) :
    (fs.npcRpcnb req tag fid).Shaped before (queued ++ [req]) taken := by
  have other : ∀ q ∈ queued, req ≠ q := fun q mem same => unsent (same ▸ mem)
  have other' : ∀ q ∈ taken, req ≠ q := fun q mem same => answered (same ▸ mem)
  have tail : fs.unsentLast ≠ some req := by
    rw [shaped.last]
    exact fun last => unsent (List.mem_of_getLast? last)
  have next : ∀ q, (fs.npcRpcnb req tag fid).links.next q = if fs.unsentLast = some q then some req
      else if req = q then none else fs.links.next q := by
    intro q
    simp [npcRpcnb, Links.next_setNext]
  have prev : ∀ q, (fs.npcRpcnb req tag fid).links.prev q =
      if req = q then fs.unsentLast else fs.links.prev q := by
    intro q
    by_cases same : req = q <;> simp [npcRpcnb, Links.prev_setPrev, same]
  refine ⟨?_, ?_, ?_, ?_, ?_, ?_⟩
  · refine shaped.unsent.append ⟨?_, ?_⟩ (fun q mem => ?_) fun q mem => ?_
    · rw [prev, if_pos rfl, shaped.last]
      rcases List.eq_nil_or_concat queued with rfl | ⟨init, last, rfl⟩
      · simp [shaped.empty rfl]
      · simp
    · rw [next, if_neg tail, if_pos rfl]
    · rw [next, shaped.last, if_neg (other q mem)]
    · rw [prev, if_neg (other q mem)]
  · rw [List.head?_append, ← shaped.first]
    cases first : fs.unsentFirst <;> simp [npcRpcnb, first]
  · simp [npcRpcnb]
  · simp
  · refine shaped.pending.congr fun q mem => ?_
    have last : fs.unsentLast ≠ some q := by
      rw [shaped.last]
      exact fun last => shaped.apart q (List.mem_of_getLast? last) mem
    rw [next, if_neg last, if_neg (other' q mem)]
  · intro q mem
    rcases List.mem_append.mp mem with mem | mem
    · exact shaped.apart q mem
    · rw [List.mem_singleton.mp mem]
      exact answered

/-- The first unsent request becomes the first pending one.  The request behind it keeps its back
link. -/
theorem writeProc (shaped : fs.Shaped before (req :: rest) taken) :
    (fs.npcWriteProc req).Shaped (if rest = [] then none else some req) rest (req :: taken) := by
  have once := List.nodup_cons.mp shaped.unsent.nodup
  have other : ∀ q ∈ rest, req ≠ q := fun q mem same => once.1 (same ▸ mem)
  have other' : ∀ q ∈ taken, req ≠ q :=
    fun q mem same => shaped.apart req List.mem_cons_self (same ▸ mem)
  have next : ∀ q, (fs.npcWriteProc req).links.next q =
      if req = q then fs.pendFirst else fs.links.next q := by
    intro q
    simp [npcWriteProc, Links.next_setNext]
  have prev : ∀ q ∈ rest, (fs.npcWriteProc req).links.prev q = fs.links.prev q := by
    intro q mem
    have head : fs.pendFirst ≠ some q := by
      rw [shaped.pending.start_eq]
      exact fun head => shaped.apart q (List.mem_cons_of_mem _ mem) (List.mem_of_head? head)
    simp [npcWriteProc, Links.prev_setPrev, other q mem, head]
  obtain ⟨-, behind, joined⟩ := shaped.unsent
  refine ⟨?_, behind, ?_, ?_, ?_, ?_⟩
  · have joined' : Joined (fs.npcWriteProc req).links (some req) rest :=
      joined.congr (fun q mem => by rw [next, if_neg (other q mem)]) prev
    split_ifs with alone
    · rw [alone]
      trivial
    · exact joined'
  · cases rest with
    | nil => simp [npcWriteProc, shaped.last]
    | cons second rest =>
        have last : (req :: second :: rest).getLast? ≠ some req := by
          rw [List.getLast?_cons_cons]
          exact fun last => once.1 (List.mem_of_getLast? last)
        simp only [npcWriteProc, shaped.last, if_neg last]
        rw [List.getLast?_cons_cons]
  · intro alone
    rw [if_pos alone]
  · refine .cons ?_
    rw [next, if_pos rfl]
    exact shaped.pending.congr fun q mem => by rw [next, if_neg (other' q mem)]
  · intro q mem taken
    rcases List.mem_cons.mp taken with rfl | taken
    · exact once.1 mem
    · exact shaped.apart q (List.mem_cons_of_mem _ mem) taken

/-- Any pending request may be answered. -/
theorem answer (shaped : fs.Shaped before queued (front ++ req :: back)) :
    (fs.answer front.getLast? req).Shaped before queued (front ++ back) := by
  have next : ∀ q, (fs.answer front.getLast? req).links.next q =
      if front.getLast? = some q then fs.links.next req else fs.links.next q := fun q => rfl
  refine ⟨?_, shaped.first, shaped.last, shaped.empty, ?_, ?_⟩
  · refine shaped.unsent.congr (fun q mem => ?_) fun q mem => rfl
    have last : front.getLast? ≠ some q := fun last =>
      shaped.apart q mem (List.mem_append_left _ (List.mem_of_getLast? last))
    rw [next, if_neg last]
  · refine shaped.pending.erase (fun q last => ?_) fun q mem other => ?_
    · rw [next, if_pos last]
    · rw [next, if_neg other]
  · exact fun q mem taken => shaped.apart q mem (mem_others taken)

theorem next_remove {q : ℕ} (other : q ≠ req) : (fs.remove req ureqs).links.next q =
    if fs.links.prev req = some q then fs.links.next req else fs.links.next q := by
  simp [Npcfsys.remove, Links.next_setNext, Links.next_unlink, other.symm]

theorem prev_remove {q : ℕ} : (fs.remove req ureqs).links.prev q =
    if fs.links.next req = some q then fs.links.prev req else fs.links.prev q := by
  simp [Npcfsys.remove, Links.prev_unlink]

/-- An unsent request leaves.  If it is the first one, nothing may be before it. -/
theorem remove (shaped : fs.Shaped before (front ++ req :: back) taken)
    (free : front = [] → before = none) (ureqs : Option ℕ) :
    (fs.remove req ureqs).Shaped before (front ++ back) taken ∧
      (fs.remove req ureqs).links.next req = ureqs ∧
      ∀ q ∉ front ++ req :: back, (fs.remove req ureqs).links.next q = fs.links.next q := by
  have once := shaped.unsent.nodup
  have links := shaped.unsent.at_
  have before' : fs.links.prev req = front.getLast? := by
    rw [links.1]
    cases front with
    | nil => exact free rfl
    | cons first front => simp [List.getLast?_cons]
  have prevNe : ∀ q ∉ front, fs.links.prev req ≠ some q := by
    intro q out last
    rw [before'] at last
    exact out (List.mem_of_getLast? last)
  simp only [List.nodup_append, List.nodup_cons, List.mem_cons] at once
  obtain ⟨-, ⟨onceReq, -⟩, across⟩ := once
  have outFront : req ∉ front := fun mem => across req mem req (.inl rfl) rfl
  have self : (fs.links.unlink req).next req = back.head? ∧
      (fs.links.unlink req).prev req = front.getLast? := by
    have nextNe : fs.links.next req ≠ some req := fun first =>
      onceReq (List.mem_of_head? (links.2 ▸ first))
    rw [Links.next_unlink, if_neg (prevNe req outFront), Links.prev_unlink, if_neg nextNe, links.2,
      before']
    exact ⟨rfl, rfl⟩
  have other : ∀ q ∈ front ++ back, q ≠ req := by
    rintro q mem rfl
    exact (List.mem_append.mp mem).elim outFront onceReq
  have outside : ∀ q ∉ front ++ req :: back, (fs.remove req ureqs).links.next q =
      fs.links.next q := by
    intro q out
    simp only [List.mem_append, List.mem_cons, not_or] at out
    rw [next_remove out.2.1, if_neg (prevNe q out.1)]
  refine ⟨⟨?_, ?_, ?_, ?_, ?_, ?_⟩, ?_, outside⟩
  · exact shaped.unsent.unlink_behind free (fun q mem => next_remove (other q mem))
      fun q _ => prev_remove
  · simp only [Npcfsys.remove, shaped.first, self]
    cases front with
    | nil => simp
    | cons first front => simp [other first List.mem_cons_self]
  · simp only [Npcfsys.remove, shaped.last, self]
    cases back with
    | nil => simp
    | cons second back =>
        have last : (second :: back).getLast? ≠ some req := fun last =>
          onceReq (List.mem_of_getLast? last)
        have ends : (front ++ req :: second :: back).getLast? = (second :: back).getLast? ∧
            (front ++ second :: back).getLast? = (second :: back).getLast? := by
          simp [List.getLast?_append, List.getLast?_cons]
        rw [ends.1, if_neg last, ends.2]
  · intro none
    exact free (List.append_eq_nil_iff.mp none).1
  · exact shaped.pending.congr fun q mem => outside q fun inside => shaped.apart q inside mem
  · exact fun q mem => shaped.apart q (mem_others mem)
  · simp [Npcfsys.remove, Links.next_setNext]

/-- The loop takes out the requests of the fid, and keeps the others in order.  The requests that it
has behind it are `front`, and those that it has taken out are `gone`. -/
theorem cancelUnsent {gone : List ℕ} (shaped : fs.Shaped before (front ++ rest) taken)
    (free : before = none ∨ ∀ p, (front ++ rest).head? = some p → fs.fid p ≠ fid)
    (chain : LinkedChain.Path fs.links.next ureqs gone) (apart : ∀ q ∈ front ++ rest, q ∉ gone)
    (short : rest.length ≤ turns) :
    ∃ fs' ureqs', Npcfsys.cancelUnsent fid turns fs rest.head? ureqs = some (fs', ureqs') ∧
      fs'.Shaped before (front ++ rest.filter fun q => fs.fid q ≠ fid) taken ∧
      LinkedChain.Path fs'.links.next ureqs' ((rest.filter fun q => fs.fid q = fid).reverse ++ gone) ∧
      fs'.tag = fs.tag ∧ fs'.fid = fs.fid ∧ fs'.flushed = fs.flushed ∧ fs'.trans = fs.trans := by
  induction rest generalizing fs front ureqs gone turns with
  | nil =>
      refine ⟨fs, ureqs, ?_, by simpa using shaped, by simpa using chain, rfl, rfl, rfl, rfl⟩
      cases turns <;> rfl
  | cons req rest ih =>
      cases turns with
      | zero => simp at short
      | succ turns =>
          have further : fs.links.next req = rest.head? := shaped.unsent.next_eq
          have short' : rest.length ≤ turns := Nat.le_of_succ_le_succ short
          have once := shaped.unsent.nodup
          have moved : front ++ req :: rest = (front ++ [req]) ++ rest := by simp
          by_cases named : fs.fid req = fid
          · have first : front = [] → before = none := by
              rintro rfl
              exact free.resolve_right fun others => others req rfl named
            obtain ⟨shaped', self, outside⟩ := shaped.remove first ureqs
            have chain' : LinkedChain.Path (fs.remove req ureqs).links.next (some req)
                (req :: gone) := by
              refine .cons ?_
              rw [self]
              exact chain.congr fun q mem => outside q fun inside => apart q inside mem
            have free' : before = none ∨ ∀ p, (front ++ rest).head? = some p →
                (fs.remove req ureqs).fid p ≠ fid := by
              refine free.imp_right fun others p head => ?_
              cases front with
              | nil => exact absurd named (others req rfl)
              | cons first front => exact others p head
            have apart' : ∀ q ∈ front ++ rest, q ∉ req :: gone := by
              intro q mem gone
              rcases List.mem_cons.mp gone with rfl | gone
              · simp only [List.nodup_append, List.nodup_cons] at once
                rcases List.mem_append.mp mem with mem | mem
                · exact once.2.2 q mem q List.mem_cons_self rfl
                · exact once.2.1.1 mem
              · exact apart q (mem_others mem) gone
            obtain ⟨fs', ureqs', done, left, removed, same⟩ :=
              ih shaped' free' chain' apart' short'
            refine ⟨fs', ureqs', ?_, ?_, ?_, same⟩
            · rw [List.head?_cons, Npcfsys.cancelUnsent, if_pos named, further]
              exact done
            · rw [List.filter_cons_of_neg (by simpa using named)]
              exact left
            · rw [List.filter_cons_of_pos (by simpa using named), List.reverse_cons,
                List.append_assoc]
              exact removed
          · rw [moved] at shaped free apart
            obtain ⟨fs', ureqs', done, left, removed, same⟩ := ih shaped free chain apart short'
            refine ⟨fs', ureqs', ?_, ?_, ?_, same⟩
            · rw [List.head?_cons, Npcfsys.cancelUnsent, if_neg named, further]
              exact done
            · rw [List.filter_cons_of_pos (by simpa using named), List.append_cons]
              exact left
            · rw [List.filter_cons_of_neg (by simpa using named)]
              exact removed

/-- The requests of a fid are taken out of the unsent list, if nothing is before the first one or it
is not one of them. -/
theorem cancel (shaped : fs.Shaped before queued taken)
    (free : before = none ∨ ∀ p, queued.head? = some p → fs.fid p ≠ fid)
    (short : queued.length ≤ turns) (short' : taken.length ≤ turns) :
    ∃ fs' ureqs, fs.npcCancelFidRequests turns fid =
        some (fs', ureqs, (taken.filter fun q => fs.fid q = fid).map fs.tag) ∧
      fs'.Shaped before (queued.filter fun q => fs.fid q ≠ fid) taken ∧
      LinkedChain.Path fs'.links.next ureqs (queued.filter fun q => fs.fid q = fid).reverse ∧
      fs'.tag = fs.tag ∧ fs'.fid = fs.fid ∧ fs'.trans = fs.trans ∧
      fs'.flushed = fun q => fs.flushed q || q ∈ taken.filter fun q => fs.fid q = fid := by
  have shaped' : fs.Shaped before ([] ++ queued) taken := shaped
  obtain ⟨fs', ureqs, done, left, removed, tag, fid', flushed, trans⟩ :=
    shaped'.cancelUnsent free .nil (by simp) short
  have walked := LinkedChain.walk_of_path left.pending short'
  rw [List.append_nil] at removed
  refine ⟨{ fs' with
    flushed := fun q => fs.flushed q || q ∈ taken.filter fun q => fs.fid q = fid }, ureqs, ?_,
    ⟨left.unsent, left.first, left.last, left.empty, left.pending, left.apart⟩, removed, tag, fid',
    trans, rfl⟩
  rw [npcCancelFidRequests, shaped.first, done]
  simp only [Option.bind_eq_bind, Option.bind_some, walked, tag, fid', flushed]
  rfl

end Shaped

end Npcfsys

/-! ## Every run -/

/-- The requests of the client, and what has become of them. -/
structure Client where
  fs : Npcfsys
  /-- The number of calls of `npc_rpcnb`: no list is longer. -/
  turns : ℕ
  /-- The requests that were queued and not yet taken, in their order. -/
  queued : List ℕ
  /-- The requests that were taken and not yet answered, the last one first. -/
  taken : List ℕ

/-- The sections under `fs->lock`. -/
inductive Section where
  /-- `npc_rpcnb`, with a request that `npc_reqalloc` has placed at an address. -/
  | rpcnb (req : ℕ) (tag : UInt16) (fid : UInt32)
  | write
  /-- `npc_read_proc` looks for the request that a message answers. -/
  | read (tag : UInt16)
  | cancel (fid : UInt32)
  /-- `npc_disconnect_fsys`, or a write that fails. -/
  | close
  /-- The reader ends. -/
  | lost

namespace Client

def start : Client where
  fs :=
    { links := ⟨fun _ => none, fun _ => none⟩
      tag := fun _ => 0
      fid := fun _ => 0
      flushed := fun _ => false
      unsentFirst := none
      unsentLast := none
      pendFirst := none
      trans := true }
  turns := 0
  queued := []
  taken := []

/-- The request that a message answers. -/
def found (s : Client) (tag : UInt16) : Option ℕ :=
  (LinkedChain.locate s.fs.links.next (s.fs.tag · = tag) s.turns none s.fs.pendFirst).bind (·.2)

/-- A thread takes the lock. -/
def step (s : Client) : Section → Option Client
  | .rpcnb req tag fid =>
    if req ∈ s.queued ∨ req ∈ s.taken then none
    else
      some { s with
        fs := s.fs.npcRpcnb req tag fid, turns := s.turns + 1, queued := s.queued ++ [req] }
  | .write =>
    match s.fs.unsentFirst with
    | some req =>
      if s.fs.trans then
        some { s with
          fs := s.fs.npcWriteProc req, queued := s.queued.erase req, taken := req :: s.taken }
      else none
    | none => none
  | .read tag =>
    match LinkedChain.locate s.fs.links.next (s.fs.tag · = tag) s.turns none s.fs.pendFirst with
    | some (preq, some req) =>
      some { s with fs := s.fs.answer preq req, taken := s.taken.erase req }
    | some (_, none) => some s
    | none => none
  | .cancel fid =>
    (s.fs.npcCancelFidRequests s.turns fid).map fun (fs, _, _) =>
      { s with fs, queued := s.queued.filter fun req => s.fs.fid req ≠ fid }
  | .close => some { s with fs := { s.fs with trans := false } }
  | .lost => some { s with fs := s.fs.lose, queued := [], taken := [] }

/-- What the lists are for. -/
structure WellFormed (s : Client) : Prop where
  /-- The unsent list is linked in both directions, and nothing is before it. -/
  unsent : Joined s.fs.links none s.queued
  first : s.fs.unsentFirst = s.queued.head?
  last : s.fs.unsentLast = s.queued.getLast?
  pending : LinkedChain.Path s.fs.links.next s.fs.pendFirst s.taken
  disjoint : ∀ req ∈ s.queued, req ∉ s.taken
  /-- The loops come to their ends. -/
  returns : (∀ tag, (s.step (.read tag)).isSome) ∧ ∀ fid, (s.step (.cancel fid)).isSome

/-- The writer takes a request that is the only one, and the reader ends when none is unsent. -/
def Alone (s : Client) : Section → Prop
  | .write => s.fs.unsentFirst = s.fs.unsentLast
  | .lost => s.fs.unsentFirst = none
  | _ => True

instance (s : Client) : DecidablePred s.Alone
  | .write => inferInstanceAs (Decidable (s.fs.unsentFirst = s.fs.unsentLast))
  | .lost => inferInstanceAs (Decidable (s.fs.unsentFirst = none))
  | .rpcnb _ _ _ | .read _ | .cancel _ | .close => inferInstanceAs (Decidable True)

/-- The lists hold what they should, and no list is longer than the number of calls. -/
structure Sound (s : Client) (before : Option ℕ) : Prop where
  shaped : s.fs.Shaped before s.queued s.taken
  short : s.queued.length + s.taken.length ≤ s.turns

variable {s s' : Client} {before : Option ℕ} {req : ℕ} {fid : UInt32}

theorem sound_start : start.Sound none := ⟨⟨trivial, rfl, rfl, fun _ => rfl, .nil, by simp [start]⟩,
  le_rfl⟩

theorem Sound.rpcnb (sound : s.Sound before) (tag : UInt16) (fid : UInt32)
    (unsent : req ∉ s.queued) (answered : req ∉ s.taken) :
    Sound { s with
      fs := s.fs.npcRpcnb req tag fid, turns := s.turns + 1, queued := s.queued ++ [req] }
      before := by
  refine ⟨sound.shaped.rpcnb unsent answered tag fid, ?_⟩
  have short := sound.short
  simp only [List.length_append, List.length_singleton]
  omega

/-- The writer takes the first of the unsent requests. -/
theorem Sound.write {rest : List ℕ} (sound : s.Sound before) (queued : s.queued = req :: rest) :
    s.fs.unsentFirst = some req ∧ Sound { s with
      fs := s.fs.npcWriteProc req, queued := s.queued.erase req, taken := req :: s.taken }
      (if rest = [] then none else some req) := by
  obtain ⟨shaped, short⟩ := sound
  rw [queued] at shaped short
  refine ⟨shaped.first, ?_, ?_⟩
  · simpa [queued] using shaped.writeProc
  · simp only [queued, List.erase_cons_head, List.length_cons] at short ⊢
    omega

/-- The reader finds no request with the tag, or takes one out. -/
theorem Sound.read (sound : s.Sound before) (tag : UInt16) :
    s.step (.read tag) = some s ∧ s.found tag = none ∨
    ∃ preq, ∃ req ∈ s.taken, s.found tag = some req ∧ s.step (.read tag) =
      some { s with fs := s.fs.answer preq req, taken := s.taken.erase req } ∧
      Sound { s with fs := s.fs.answer preq req, taken := s.taken.erase req } before := by
  have short := sound.short
  have turns : s.taken.length ≤ s.turns := by omega
  have located := LinkedChain.locate_of_path (s.fs.tag · = tag) none sound.shaped.pending turns
  rcases located with ⟨last, located, -⟩ | ⟨front, req, back, parts, -, located⟩
  · exact .inl ⟨by rw [step, located], by rw [found, located, Option.bind_some]⟩
  · have once := sound.shaped.pending.nodup
    have shaped := sound.shaped
    rw [parts] at once shaped short
    have out : req ∉ front := by
      intro mem
      rw [List.nodup_append] at once
      exact once.2.2 req mem req List.mem_cons_self rfl
    have erased : s.taken.erase req = front ++ back := by
      rw [parts, List.erase_append_right _ out, List.erase_cons_head]
    refine .inr ⟨front.getLast?, req, by simp [parts],
      by rw [found, located, Option.bind_some], ?_, ?_, ?_⟩
    · rw [step, located, Option.or_none]
    · simp only [erased]
      exact shaped.answer
    · simp only [erased, List.length_append, List.length_cons] at short ⊢
      omega

/-- The requests of a fid are taken out of the unsent ones, and are linked by `ureqs`. -/
theorem Sound.cancel (sound : s.Sound before) (fid : UInt32)
    (free : before = none ∨ ∀ p, s.queued.head? = some p → s.fs.fid p ≠ fid) :
    ∃ fs' ureqs, s.fs.npcCancelFidRequests s.turns fid =
        some (fs', ureqs, (s.taken.filter fun q => s.fs.fid q = fid).map s.fs.tag) ∧
      Sound { s with fs := fs', queued := s.queued.filter fun req => s.fs.fid req ≠ fid } before ∧
      LinkedChain.Path fs'.links.next ureqs (s.queued.filter fun q => s.fs.fid q = fid).reverse ∧
      fs'.tag = s.fs.tag ∧ fs'.fid = s.fs.fid ∧ fs'.trans = s.fs.trans ∧
      fs'.flushed = fun q => s.fs.flushed q || q ∈ s.taken.filter fun q => s.fs.fid q = fid := by
  have short := sound.short
  have turns : s.queued.length ≤ s.turns := by omega
  have turns' : s.taken.length ≤ s.turns := by omega
  obtain ⟨fs', ureqs, done, shaped, rest⟩ := sound.shaped.cancel free turns turns'
  refine ⟨fs', ureqs, done, ⟨shaped, ?_⟩, rest⟩
  have fewer := List.length_filter_le (fun req => decide (s.fs.fid req ≠ fid)) s.queued
  simp only
  omega

theorem Sound.lost (sound : s.Sound before) (none' : s.fs.unsentFirst = none) :
    Sound { s with fs := s.fs.lose, queued := [], taken := [] } none := by
  have alone : s.queued = [] := by
    rw [sound.shaped.first] at none'
    exact List.head?_eq_none_iff.mp none'
  refine ⟨⟨trivial, rfl, ?_, fun _ => rfl, .nil, by simp⟩, Nat.zero_le _⟩
  rw [Npcfsys.lose, sound.shaped.last, alone]

theorem Sound.step {label : Section} (sound : s.Sound none) (alone : s.Alone label)
    (taken : s.step label = some s') : s'.Sound none := by
  cases label with
  | rpcnb req tag fid =>
      simp only [Client.step] at taken
      split_ifs at taken with known
      obtain rfl := Option.some.inj taken
      exact sound.rpcnb tag fid (fun mem => known (.inl mem)) fun mem => known (.inr mem)
  | write =>
      have first := sound.shaped.first
      cases queued : s.queued with
      | nil =>
          rw [queued] at first
          simp [Client.step, first] at taken
      | cons req rest =>
          have only : rest = [] := by
            have last := sound.shaped.last
            have once := sound.shaped.unsent.nodup
            rw [queued] at first last once
            rw [Alone, first, last] at alone
            cases rest with
            | nil => rfl
            | cons second rest =>
                rw [List.getLast?_cons_cons] at alone
                exact absurd (List.mem_of_getLast? alone.symm) (List.nodup_cons.mp once).1
          obtain ⟨found, written⟩ := sound.write queued
          rw [if_pos only] at written
          simp only [Client.step, found] at taken
          split_ifs at taken
          obtain rfl := Option.some.inj taken
          exact written
  | read tag =>
      rcases sound.read tag with ⟨same, -⟩ | ⟨preq, req, -, -, answered, sound'⟩
      · obtain rfl := Option.some.inj (same.symm.trans taken)
        exact sound
      · obtain rfl := Option.some.inj (answered.symm.trans taken)
        exact sound'
  | cancel fid =>
      obtain ⟨fs', ureqs, done, sound', -⟩ := sound.cancel fid (.inl rfl)
      simp only [Client.step, done, Option.map_some] at taken
      obtain rfl := Option.some.inj taken
      exact sound'
  | close =>
      obtain rfl := Option.some.inj taken
      obtain ⟨⟨unsent, first, last, empty, pending, apart⟩, short⟩ := sound
      exact ⟨⟨unsent, first, last, empty, pending, apart⟩, short⟩
  | lost =>
      obtain rfl := Option.some.inj taken
      exact sound.lost alone

theorem Sound.wellFormed (sound : s.Sound none) : s.WellFormed where
  unsent := sound.shaped.unsent
  first := sound.shaped.first
  last := sound.shaped.last
  pending := sound.shaped.pending
  disjoint := sound.shaped.apart
  returns := by
    refine ⟨fun tag => ?_, fun fid => ?_⟩
    · rcases sound.read tag with ⟨same, -⟩ | ⟨preq, req, -, -, answered, -⟩
      · simp [same]
      · simp [answered]
    · obtain ⟨fs', ureqs, done, -⟩ := sound.cancel fid (.inl rfl)
      simp [Client.step, done]

/-- The lists are well-formed in each run in which the writer takes no request that another one is
behind, and the reader ends when no request is unsent. -/
theorem wellFormed_of_calls (run : Transition.Reaches step Alone start s) : s.WellFormed := by
  have sound : s.Sound none := by
    refine Transition.Reaches.invariant (Sound · none) sound_start ?_ run
    intro s next label sound alone taken
    exact sound.step alone taken
  exact sound.wellFormed

/-- No other run keeps the lists well-formed. -/
theorem not_wellFormed_of_step {label : Section} (wellFormed : s.WellFormed)
    (other : ¬ s.Alone label) (taken : s.step label = some s') : ¬ s'.WellFormed := by
  obtain ⟨unsent, first, last, pending, disjoint, -⟩ := wellFormed
  intro wellFormed'
  cases label with
  | rpcnb | read | cancel | close => exact other trivial
  | write =>
      rw [Alone, first, last] at other
      cases queued : s.queued with
      | nil => simp [queued] at other
      | cons req rest =>
          rw [queued] at first last unsent other disjoint
          cases rest with
          | nil => exact other rfl
          | cons second rest =>
              have shaped : s.fs.Shaped none (req :: second :: rest) s.taken :=
                ⟨unsent, first, last, by simp, pending, disjoint⟩
              simp only [step, first, List.head?_cons] at taken
              split_ifs at taken
              obtain rfl := Option.some.inj taken
              have stale := shaped.writeProc.unsent.1
              have clean := wellFormed'.unsent
              simp only [queued, List.erase_cons_head] at clean
              rw [if_neg (List.cons_ne_nil second rest), clean.1] at stale
              cases stale
  | lost =>
      rw [Alone, first, List.head?_eq_none_iff] at other
      obtain rfl := Option.some.inj taken
      have dangling : s.fs.unsentLast = none := wellFormed'.last
      rw [last, List.getLast?_eq_none_iff] at dangling
      exact other dangling

/-- Requests of two fids are queued, taken, cancelled and answered. -/
def calls : List Section :=
  [.rpcnb 0 1 7, .write, .rpcnb 1 2 7, .rpcnb 2 3 8, .cancel 7, .write, .read 1]

/-- The first of three requests is taken, and then the second one is cancelled: the pending request
is linked to the third one, which nobody has taken. -/
def crossing : List Section :=
  [.rpcnb 0 1 7, .rpcnb 1 2 8, .rpcnb 2 3 7, .write, .cancel 8]

theorem not_wellFormed_of_calls : ¬ ∀ s : Client,
    Transition.Reaches step (fun _ _ => True) start s → s.WellFormed := by
  intro all
  have played : (Transition.play step (fun _ _ => True) start crossing).map
      (fun s => (s.taken, s.fs.pendFirst, s.fs.links.next 0)) = some ([0], some 0, some 2) := by
    decide
  obtain ⟨s, run, left⟩ := Option.map_eq_some_iff.mp played
  obtain ⟨taken, first, next⟩ : s.taken = [0] ∧ s.fs.pendFirst = some 0 ∧
      s.fs.links.next 0 = some 2 := by simpa using left
  have pending := (all s (Transition.reaches_of_play run)).pending
  rw [taken, first] at pending
  cases pending with
  | cons tail =>
      rw [next] at tail
      cases tail

theorem wellFormed_calls : ∃ s : Client, s.queued = [] ∧ s.taken = [2] ∧ s.WellFormed := by
  have played : (Transition.play step Alone start calls).map (fun s => (s.queued, s.taken)) =
      some ([], [2]) := by
    decide
  obtain ⟨s, run, left⟩ := Option.map_eq_some_iff.mp played
  obtain ⟨queued, taken⟩ : s.queued = [] ∧ s.taken = [2] := by simpa using left
  exact ⟨s, queued, taken, wellFormed_of_calls (Transition.reaches_of_play run)⟩

end Client

end Npfs
