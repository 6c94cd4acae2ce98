import Npfs.Deserialize
import Npfs.Transition

/-!
# Flushing in `fus`

The workers of a connection of `fs/fus.c`: a worker takes a message under the reader lock, handles
it, and answers it under the writer lock, along with the flushes that have been parked on it. What
`p9flush` does under the writer lock is a step of its own.
-/

namespace Npfs

namespace Fus

/-- A message as it is received: its tag and, if it is a Tflush, `oldtag`. -/
structure Message where
  tag : UInt16
  oldtag : Option UInt16
  deriving DecidableEq

/-- What a worker is doing: the number of its message, and what the handler has returned. -/
structure Job where
  id : ℕ
  message : Message
  /-- Whether the handler has returned a reply, once it has returned. -/
  reply : Option Bool
  deriving DecidableEq

/-- A parked flush: the number of its message, and `freq->tag`. -/
structure Freq where
  id : ℕ
  tag : UInt16
  deriving DecidableEq

/-- A message that is sent: the number of the message that it answers, its tag, and whether it is an
Rflush. -/
structure Reply where
  id : ℕ
  tag : UInt16
  rflush : Bool
  deriving DecidableEq

/-- `(u16) ~0`. -/
def noTag : UInt16 := 0xFFFF

/-- A connection with `n` workers. -/
structure Conn (n : ℕ) where
  /-- `wt->tag`. -/
  tag : Fin n → UInt16
  /-- `wt->freqs`. -/
  freqs : Fin n → List Freq
  job : Fin n → Option Job
  /-- The messages that have been taken, in their order. -/
  taken : List Message
  /-- The messages that have been sent, in their order. -/
  sent : List Reply
  /-- An assertion has failed. -/
  aborted : Bool

/-- What happens on a connection. -/
inductive Event (n : ℕ) where
  /-- An idle worker reads a message. -/
  | take (wt : Fin n) (message : Message)
  /-- The handler of a worker does its work and returns. -/
  | handle (wt : Fin n)
  /-- A worker sends what there is to send. -/
  | answer (wt : Fin n)

namespace Conn

variable {n : ℕ}

/-- A new connection. -/
def start (n : ℕ) : Conn n where
  tag _ := noTag
  freqs _ := []
  job _ := none
  taken := []
  sent := []
  aborted := false

/-- The worker that `p9flush` finds. -/
def find (s : Conn n) (oldtag : UInt16) : Option (Fin n) :=
  (List.finRange n).find? fun wt => s.tag wt = oldtag

/-- `p9flush`, behind `readrest`: the reply that it returns is its own, or there is none. -/
def p9flush (s : Conn n) (wt : Fin n) (job : Job) (oldtag : UInt16) : Conn n :=
  let responds := { s with job := Function.update s.job wt (some { job with reply := some true }) }
  if oldtag = job.message.tag then responds
  else
    match s.find oldtag with
    | none => responds
    | some other =>
      { s with
        freqs := Function.update s.freqs other (⟨job.id, oldtag⟩ :: s.freqs other)
        job := Function.update s.job wt (some { job with reply := some false }) }

/-- What is sent for a message, and for the flushes that are parked on it.  `rflush` is given the
tag of the worker's own message. -/
def replies (job : Job) (reply : Bool) (freqs : List Freq) : List Reply :=
  (if reply then [⟨job.id, job.message.tag, job.message.oldtag.isSome⟩] else []) ++
    freqs.map fun freq => ⟨freq.id, job.message.tag, true⟩

/-- Take a step. -/
def step (s : Conn n) : Event n → Option (Conn n)
  | .take wt message =>
    if s.job wt = none then
      if s.tag wt = noTag ∧ s.freqs wt = [] then
        some { s with
          tag := Function.update s.tag wt message.tag
          job := Function.update s.job wt (some ⟨s.taken.length, message, none⟩)
          taken := s.taken ++ [message] }
      else
        some { s with aborted := true }
    else none
  | .handle wt =>
    match s.job wt with
    | some ⟨id, message, none⟩ =>
      match message.oldtag with
      | some oldtag => some (s.p9flush wt ⟨id, message, none⟩ oldtag)
      | none => some { s with job := Function.update s.job wt (some ⟨id, message, some true⟩) }
    | _ => none
  | .answer wt =>
    match s.job wt with
    | some ⟨id, message, some reply⟩ =>
      some { s with
        tag := Function.update s.tag wt noTag
        freqs := Function.update s.freqs wt []
        job := Function.update s.job wt none
        sent := s.sent ++ replies ⟨id, message, some reply⟩ reply (s.freqs wt) }
    | _ => none

/-! ## What it is for -/

/-- Every Tflush is answered once, with its own tag and behind the reply of what it names. -/
structure Answered (s : Conn n) : Prop where
  running : s.aborted = false
  /-- Every Rflush answers a Tflush, and has its tag. -/
  tags : ∀ reply ∈ s.sent, reply.rflush → ∃ message, s.taken[reply.id]? = some message ∧
    message.oldtag.isSome ∧ reply.tag = message.tag
  once : ((s.sent.filter (·.rflush)).map (·.id)).Nodup
  /-- When all workers are idle no Tflush waits for its answer. -/
  all : (∀ wt, s.job wt = none) → ∀ id message, s.taken[id]? = some message →
    message.oldtag.isSome → ∃ reply ∈ s.sent, reply.id = id ∧ reply.rflush
  /-- What was received before a Tflush that names it is answered before the Tflush is. -/
  order : ∀ front (reply : Reply) back, s.sent = front ++ reply :: back → reply.rflush →
    ∀ message, s.taken[reply.id]? = some message → ∀ id < reply.id, ∀ named,
      s.taken[id]? = some named → message.oldtag = some named.tag → ∃ first ∈ front, first.id = id

/-- No worker's tag is the one that a flush looks for. -/
def Unserved (s : Conn n) : Event n → Prop
  | .handle wt => ∀ job oldtag, s.job wt = some job → job.message.oldtag = some oldtag →
    ∀ other ≠ wt, s.tag other ≠ oldtag
  | _ => True

/-! ## The invariant -/

/-- What has been taken is answered, or some worker has it; nobody waits. -/
structure Sound (s : Conn n) : Prop where
  running : s.aborted = false
  freqs : ∀ wt, s.freqs wt = []
  idle : ∀ wt, s.job wt = none → s.tag wt = noTag
  serving : ∀ wt job, s.job wt = some job → s.tag wt = job.message.tag ∧
    s.taken[job.id]? = some job.message ∧ job.reply ≠ some false
  apart : ∀ wt wt' job job', s.job wt = some job → s.job wt' = some job' → job.id = job'.id →
    wt = wt'
  unsent : ∀ wt job, s.job wt = some job → ∀ reply ∈ s.sent, reply.id ≠ job.id
  known : ∀ id < s.taken.length, (∃ reply ∈ s.sent, reply.id = id) ∨
    ∃ wt job, s.job wt = some job ∧ job.id = id
  sent : ∀ reply ∈ s.sent, ∃ message, s.taken[reply.id]? = some message ∧
    reply.rflush = message.oldtag.isSome ∧ reply.tag = message.tag
  once : (s.sent.map (·.id)).Nodup
  /-- A flush that is ready to be answered comes behind what it names. -/
  ready : ∀ wt job, s.job wt = some job → job.reply = some true → ∀ id < job.id, ∀ named,
    s.taken[id]? = some named → job.message.oldtag = some named.tag →
      ∃ reply ∈ s.sent, reply.id = id
  order : ∀ front (reply : Reply) back, s.sent = front ++ reply :: back →
    ∀ message, s.taken[reply.id]? = some message → ∀ id < reply.id, ∀ named,
      s.taken[id]? = some named → message.oldtag = some named.tag → ∃ first ∈ front, first.id = id

variable {s s' : Conn n} {wt : Fin n} {job : Job}

theorem sound_start (n : ℕ) : (start n).Sound where
  running := rfl
  freqs _ := rfl
  idle _ _ := rfl
  serving wt job busy := by cases busy
  apart wt wt' job job' busy := by cases busy
  unsent wt job busy := by cases busy
  known id inside := by cases inside
  sent reply member := by cases member
  once := List.nodup_nil
  ready wt job busy := by cases busy
  order front reply back parts := by simp [start] at parts

/-- What is known of the messages that have been taken stays known when another one is. -/
theorem getElem?_taken {taken : List Message} {message message' : Message} {id : ℕ}
    (known : id < taken.length) : (taken ++ [message'])[id]? = some message ↔
      taken[id]? = some message := by
  rw [List.getElem?_append_left known]

theorem lt_of_taken {taken : List Message} {message : Message} {id : ℕ}
    (found : taken[id]? = some message) : id < taken.length :=
  (List.getElem?_eq_some_iff.mp found).1

theorem Sound.take {message : Message} (sound : s.Sound) (free : s.job wt = none) :
    Sound { s with
      tag := Function.update s.tag wt message.tag
      job := Function.update s.job wt (some ⟨s.taken.length, message, none⟩)
      taken := s.taken ++ [message] } := by
  have old {id : ℕ} {m : Message} (found : s.taken[id]? = some m) :
      (s.taken ++ [message])[id]? = some m := (getElem?_taken (lt_of_taken found)).mpr found
  have older {id : ℕ} {m : Message} (before : id < s.taken.length)
      (found : (s.taken ++ [message])[id]? = some m) : s.taken[id]? = some m :=
    (getElem?_taken before).mp found
  have inside (other : Fin n) (j : Job) (busy : s.job other = some j) : j.id < s.taken.length :=
    lt_of_taken (sound.serving other j busy).2.1
  have busyElse {other : Fin n} {j : Job} (else' : other ≠ wt)
      (busy : Function.update s.job wt (some ⟨s.taken.length, message, none⟩) other = some j) :
      s.job other = some j := by rwa [Function.update_of_ne else'] at busy
  have busySelf {j : Job}
      (busy : Function.update s.job wt (some ⟨s.taken.length, message, none⟩) wt = some j) :
      ⟨s.taken.length, message, none⟩ = j := by
    rw [Function.update_self] at busy
    exact Option.some.inj busy
  refine ⟨sound.running, sound.freqs, ?_, ?_, ?_, ?_, ?_, ?_, sound.once, ?_, ?_⟩
  · intro other idle
    rcases eq_or_ne other wt with rfl | else'
    · simp at idle
    · simp only [Function.update_of_ne else'] at idle ⊢
      exact sound.idle other idle
  · intro other j busy
    rcases eq_or_ne other wt with rfl | else'
    · obtain rfl := busySelf busy
      exact ⟨Function.update_self .., by simp, by simp⟩
    · obtain ⟨tag, taken, replied⟩ := sound.serving other j (busyElse else' busy)
      exact ⟨(Function.update_of_ne else' ..).trans tag, old taken, replied⟩
  · intro first second j j' busy busy' same
    rcases eq_or_ne first wt with rfl | else' <;> rcases eq_or_ne second first with rfl | apart
    · rfl
    · obtain rfl := busySelf busy
      have before := inside second j' (busyElse apart busy')
      exact absurd same before.ne'
    · rfl
    · rcases eq_or_ne second wt with rfl | else''
      · obtain rfl := busySelf busy'
        have before := inside first j (busyElse else' busy)
        exact absurd same (ne_of_lt before)
      · exact sound.apart first second j j' (busyElse else' busy) (busyElse else'' busy') same
  · intro other j busy reply member
    rcases eq_or_ne other wt with rfl | else'
    · obtain rfl := busySelf busy
      obtain ⟨m, found, -⟩ := sound.sent reply member
      exact (lt_of_taken found).ne
    · exact sound.unsent other j (busyElse else' busy) reply member
  · intro id below
    rw [List.length_append, List.length_singleton] at below
    rcases Nat.lt_succ_iff_lt_or_eq.mp below with before | rfl
    · rcases sound.known id before with ⟨reply, member, rfl⟩ | ⟨other, j, busy, rfl⟩
      · exact .inl ⟨reply, member, rfl⟩
      · have else' : other ≠ wt := by
          rintro rfl
          rw [free] at busy
          cases busy
        exact .inr ⟨other, j, by simpa [Function.update_of_ne else'] using busy, rfl⟩
    · exact .inr ⟨wt, _, Function.update_self .., rfl⟩
  · intro reply member
    obtain ⟨m, found, rest⟩ := sound.sent reply member
    exact ⟨m, old found, rest⟩
  · intro other j busy ready id before named found names
    rcases eq_or_ne other wt with rfl | else'
    · obtain rfl := busySelf busy
      cases ready
    · have busy := busyElse else' busy
      have bound := inside other j busy
      exact sound.ready other j busy ready id before named (older (before.trans bound) found) names
  · intro front reply back parts m found id before named found' names
    have sent : s.sent = front ++ reply :: back := parts
    obtain ⟨m', known, -⟩ := sound.sent reply (by simp [sent])
    have bound := lt_of_taken known
    exact sound.order front reply back sent m (older bound found) id before named
      (older (before.trans bound) found') names

/-- A handler returns a reply. -/
theorem Sound.replied (sound : s.Sound) (busy : s.job wt = some job)
    (ready : ∀ id < job.id, ∀ named, s.taken[id]? = some named →
      job.message.oldtag = some named.tag → ∃ reply ∈ s.sent, reply.id = id) :
    Sound { s with job := Function.update s.job wt (some { job with reply := some true }) } := by
  -- Each worker has the message that it had, and `wt` is ready to answer its own.
  have same {other : Fin n} {j : Job}
      (busy' : Function.update s.job wt (some { job with reply := some true }) other = some j) :
      ∃ j', s.job other = some j' ∧ j'.id = j.id ∧ j'.message = j.message ∧
        (other = wt ∧ j = { job with reply := some true } ∨ j' = j) := by
    rcases eq_or_ne other wt with rfl | else'
    · rw [Function.update_self] at busy'
      obtain rfl := Option.some.inj busy'
      exact ⟨job, busy, rfl, rfl, .inl ⟨rfl, rfl⟩⟩
    · rw [Function.update_of_ne else'] at busy'
      exact ⟨j, busy', rfl, rfl, .inr rfl⟩
  refine ⟨sound.running, sound.freqs, ?_, ?_, ?_, ?_, ?_, sound.sent, sound.once, ?_, sound.order⟩
  · intro other idle
    rcases eq_or_ne other wt with rfl | else'
    · simp at idle
    · exact sound.idle other ((Function.update_of_ne else' ..).symm.trans idle)
  · intro other j busy'
    obtain ⟨j', had, id, message, mine | rfl⟩ := same busy'
    · obtain ⟨tag, taken, -⟩ := sound.serving other j' had
      obtain ⟨-, rfl⟩ := mine
      exact ⟨tag.trans (by rw [message]), by rw [← id, ← message]; exact taken, by simp⟩
    · exact sound.serving other j' had
  · intro first second j j' busy' busy'' equal
    obtain ⟨i, had, id, -, -⟩ := same busy'
    obtain ⟨i', had', id', -, -⟩ := same busy''
    exact sound.apart first second i i' had had' (by rw [id, id', equal])
  · intro other j busy' reply member
    obtain ⟨j', had, id, -, -⟩ := same busy'
    rw [← id]
    exact sound.unsent other j' had reply member
  · intro id below
    rcases sound.known id below with answered | ⟨other, j, had, rfl⟩
    · exact .inl answered
    · rcases eq_or_ne other wt with rfl | else'
      · obtain rfl := Option.some.inj (busy.symm.trans had)
        exact .inr ⟨other, _, Function.update_self .., rfl⟩
      · exact .inr ⟨other, j, (Function.update_of_ne else' ..).trans had, rfl⟩
  · intro other j busy' answers
    obtain ⟨j', had, id, message, mine | rfl⟩ := same busy'
    · obtain ⟨-, rfl⟩ := mine
      exact ready
    · exact sound.ready other j' had answers

/-- A flush finds nothing: what it names has been answered. -/
theorem Sound.flushed {oldtag : UInt16} (sound : s.Sound) (busy : s.job wt = some job)
    (unserved : ∀ other ≠ wt, s.tag other ≠ oldtag) :
    ∀ id < job.id, ∀ named, s.taken[id]? = some named → some oldtag = some named.tag →
      ∃ reply ∈ s.sent, reply.id = id := by
  intro id before named found names
  rcases sound.known id (lt_of_taken found) with answered | ⟨other, j, busy', rfl⟩
  · exact answered
  · have else' : other ≠ wt := by
      rintro rfl
      obtain rfl := Option.some.inj (busy.symm.trans busy')
      exact before.false.elim
    obtain ⟨tag, found', -⟩ := sound.serving other j busy'
    obtain rfl := Option.some.inj (found'.symm.trans found)
    exact absurd (tag.trans (Option.some.inj names).symm) (unserved other else')

theorem Sound.find_self {oldtag : UInt16} (sound : s.Sound) (busy : s.job wt = some job)
    (other : oldtag ≠ job.message.tag) (unserved : ∀ other ≠ wt, s.tag other ≠ oldtag) :
    s.find oldtag = none := by
  refine List.find?_eq_none.mpr fun wt' _ => ?_
  rcases eq_or_ne wt' wt with rfl | else'
  · simpa [(sound.serving wt' job busy).1] using other.symm
  · simpa using unserved wt' else'

/-- A worker sends its reply. -/
theorem Sound.answer (sound : s.Sound) (busy : s.job wt = some job) (ready : job.reply = some true) :
    Sound { s with
      tag := Function.update s.tag wt noTag
      freqs := Function.update s.freqs wt []
      job := Function.update s.job wt none
      sent := s.sent ++ [⟨job.id, job.message.tag, job.message.oldtag.isSome⟩] } := by
  obtain ⟨-, taken, -⟩ := sound.serving wt job busy
  have still {other : Fin n} {j : Job} (busy' : Function.update s.job wt none other = some j) :
      other ≠ wt ∧ s.job other = some j := by
    rcases eq_or_ne other wt with rfl | else'
    · simp at busy'
    · exact ⟨else', by rwa [Function.update_of_ne else'] at busy'⟩
  refine ⟨sound.running, ?_, ?_, ?_, ?_, ?_, ?_, ?_, ?_, ?_, ?_⟩
  · intro other
    rcases eq_or_ne other wt with rfl | else'
    · simp
    · simpa [Function.update_of_ne else'] using sound.freqs other
  · intro other idle
    rcases eq_or_ne other wt with rfl | else'
    · simp
    · simp only [Function.update_of_ne else'] at idle ⊢
      exact sound.idle other idle
  · intro other j busy'
    obtain ⟨else', busy'⟩ := still busy'
    simpa [Function.update_of_ne else'] using sound.serving other j busy'
  · intro first second j j' busy' busy''
    exact sound.apart first second j j' (still busy').2 (still busy'').2
  · intro other j busy' reply member
    obtain ⟨else', busy'⟩ := still busy'
    rcases List.mem_append.mp member with member | member
    · exact sound.unsent other j busy' reply member
    · obtain rfl := List.mem_singleton.mp member
      exact fun same => else' (sound.apart other wt j job busy' busy same.symm)
  · intro id below
    rcases sound.known id below with ⟨reply, member, rfl⟩ | ⟨other, j, busy', rfl⟩
    · exact .inl ⟨reply, by simp [member], rfl⟩
    · rcases eq_or_ne other wt with rfl | else'
      · obtain rfl := Option.some.inj (busy.symm.trans busy')
        exact .inl ⟨⟨job.id, job.message.tag, job.message.oldtag.isSome⟩, by simp, rfl⟩
      · exact .inr ⟨other, j, (Function.update_of_ne else' ..).trans busy', rfl⟩
  · intro reply member
    rcases List.mem_append.mp member with member | member
    · exact sound.sent reply member
    · obtain rfl := List.mem_singleton.mp member
      exact ⟨job.message, taken, rfl, rfl⟩
  · rw [List.map_append, List.map_singleton]
    refine List.nodup_append.mpr ⟨sound.once, List.nodup_singleton _, ?_⟩
    intro id member id' member'
    obtain ⟨reply, inside, rfl⟩ := List.mem_map.mp member
    obtain rfl := List.mem_singleton.mp member'
    exact sound.unsent wt job busy reply inside
  · intro other j busy' answers id before named found names
    obtain ⟨reply, member, same⟩ := sound.ready other j (still busy').2 answers id before named
      found names
    exact ⟨reply, by simp [member], same⟩
  · intro front reply back parts message found id before named found' names
    rcases List.eq_nil_or_concat back with rfl | ⟨init, last, rfl⟩
    · obtain ⟨rfl, same⟩ := List.append_inj' parts rfl
      obtain rfl := List.singleton_inj.mp same
      obtain rfl := Option.some.inj (taken.symm.trans found)
      exact sound.ready wt job busy ready id before named found' names
    · have inner : s.sent = front ++ reply :: init := by
        rw [List.concat_eq_append, ← List.cons_append, ← List.append_assoc] at parts
        exact (List.append_inj' parts rfl).1
      exact sound.order front reply init inner message found id before named found' names

theorem Sound.step {event : Event n} (sound : s.Sound) (unserved : s.Unserved event)
    (taken : s.step event = some s') : s'.Sound := by
  cases event with
  | take wt message =>
      simp only [Conn.step] at taken
      split_ifs at taken with free ready
      · obtain rfl := Option.some.inj taken
        exact sound.take free
      · exact absurd ⟨sound.idle wt free, sound.freqs wt⟩ ready
  | handle wt =>
      simp only [Conn.step] at taken
      split at taken
      · rename_i id message busy
        split at taken
        · rename_i oldtag flush
          have none' := unserved _ oldtag busy flush
          have answered := sound.flushed busy none'
          rw [← flush] at answered
          have responds := sound.replied busy answered
          obtain rfl := Option.some.inj taken
          rw [p9flush]
          split_ifs with own
          · exact responds
          · rw [sound.find_self busy own none']
            exact responds
        · rename_i other
          obtain rfl := Option.some.inj taken
          refine sound.replied busy fun id before named found names => ?_
          simp only at names
          rw [other] at names
          cases names
      · cases taken
  | answer wt =>
      simp only [Conn.step] at taken
      split at taken
      · rename_i id message reply busy
        obtain rfl := Option.some.inj taken
        have replied : reply = true := by
          by_contra silent
          exact (sound.serving wt _ busy).2.2 (by simpa using silent)
        subst replied
        simpa [replies, sound.freqs wt] using sound.answer busy rfl
      · cases taken

theorem Sound.answered (sound : s.Sound) : s.Answered where
  running := sound.running
  tags reply member flush := by
    obtain ⟨message, found, kind, tag⟩ := sound.sent reply member
    exact ⟨message, found, kind ▸ flush, tag⟩
  once := sound.once.sublist (List.filter_sublist.map _)
  all idle id message found flush := by
    rcases sound.known id (lt_of_taken found) with ⟨reply, member, rfl⟩ | ⟨wt, job, busy, -⟩
    · obtain ⟨message', found', kind, -⟩ := sound.sent reply member
      obtain rfl := Option.some.inj (found.symm.trans found')
      exact ⟨reply, member, rfl, kind.trans flush⟩
    · rw [idle wt] at busy
      cases busy
  order front reply back parts _ := sound.order front reply back parts

/-- As long as no flush finds a worker with the tag that it looks for, every flush is answered as it
should be. -/
theorem answered_of_run (run : Transition.Reaches step Unserved (start n) s) : s.Answered := by
  have sound : s.Sound := by
    refine Transition.Reaches.invariant Sound (sound_start n) ?_ run
    intro s next event sound unserved taken
    exact sound.step unserved taken
  exact sound.answered

end Conn

/-- A request with the tag 5, and a flush of it with the tag 6. -/
def flushing : List (Event 2) :=
  [.take 0 ⟨5, none⟩, .take 1 ⟨6, some 5⟩, .handle 1, .handle 0, .answer 0, .answer 1]

/-- The flush is answered with the tag of the request. -/
theorem not_answered_of_run : ¬ ∀ s : Conn 2,
    Transition.Reaches Conn.step (fun _ _ => True) (Conn.start 2) s → s.Answered := by
  intro all
  have played : (Transition.play Conn.step (fun _ _ => True) (Conn.start 2) flushing).map
      (·.sent) = some [⟨0, 5, false⟩, ⟨1, 5, true⟩] := by decide
  obtain ⟨s, run, sent⟩ := Option.map_eq_some_iff.mp played
  obtain ⟨message, found, -, tag⟩ := (all s (Transition.reaches_of_play run)).tags ⟨1, 5, true⟩
    (by simp [sent]) rfl
  have taken : (Transition.play Conn.step (fun _ _ => True) (Conn.start 2) flushing).map
      (·.taken) = some [⟨5, none⟩, ⟨6, some 5⟩] := by decide
  rw [run] at taken
  have known : s.taken = [⟨5, none⟩, ⟨6, some 5⟩] := Option.some.inj taken
  rw [known] at found
  obtain rfl : (⟨6, some 5⟩ : Message) = message := Option.some.inj found
  cases tag

/-- A flush of a request that has been answered. -/
theorem answered_of_run_late : ∃ s : Conn 2, s.sent = [⟨0, 5, false⟩, ⟨1, 6, true⟩] ∧
    s.Answered := by
  have step {s next : Conn 2} (event : Event 2)
      (run : Transition.Reaches Conn.step Conn.Unserved (Conn.start 2) s)
      (unserved : s.Unserved event) (taken : s.step event = some next) :
      Transition.Reaches Conn.step Conn.Unserved (Conn.start 2) next := .step run unserved taken
  have run := step (.take 0 ⟨5, none⟩) .start trivial rfl
  have run := step (.handle 0) run (by
    intro job oldtag busy flush
    obtain rfl := Option.some.inj busy
    cases flush) rfl
  have run := step (.answer 0) run trivial rfl
  have run := step (.take 1 ⟨6, some 5⟩) run trivial rfl
  have run := step (.handle 1) run (by
    intro job oldtag busy flush other else'
    obtain rfl := Option.some.inj busy
    obtain rfl := Option.some.inj flush
    fin_cases other
    · decide
    · exact absurd rfl else') rfl
  have run := step (.answer 1) run trivial rfl
  exact ⟨_, rfl, Conn.answered_of_run run⟩

end Fus

end Npfs
