import Npfs.Transition

/-!
# The stream of replies

`np_conn_respond` of `libnpfs/conn.c`, on any number of threads of one connection, and the other
places that take the transport from it.  A thread tests `conn->trans` under one lock and uses it
under another.
-/

namespace Npfs

/-! ## The threads -/

/-- Where a thread is. -/
inductive Respond where
  | idle
  /-- `np_conn_respond` has been called. -/
  | testing (pkt : List UInt8)
  /-- `send` is set. -/
  | waiting (pkt : List UInt8)
  /-- `wlock` is held. -/
  | locked (pkt : List UInt8)
  /-- `np_trans_write` has been called with `conn->trans`. -/
  | writing (pkt : List UInt8)
  /-- It has taken `n` bytes. -/
  | wrote (n : Nat)
  /-- It has taken none, and `wlock` is released. -/
  | failing
  /-- `conn->trans` has been taken out of the connection. -/
  | holding
  deriving DecidableEq

namespace Respond

/-- The thread is behind the test and not behind the write. -/
def past : Respond → Bool
  | waiting _ | locked _ | writing _ => true
  | _ => false

/-- The thread has `wlock`. -/
def locks : Respond → Bool
  | locked _ | writing _ | wrote _ => true
  | _ => false

end Respond

/-- A connection and its threads. -/
structure Outlet (Thread : Type) where
  /-- `conn->trans` is set. -/
  trans : Bool
  /-- The transport has not been destroyed. -/
  alive : Bool
  resetting : Bool
  wlock : Option Thread
  at_ : Thread → Respond
  /-- The packets that `np_trans_write` was given, each with the number of the bytes it took. -/
  log : List (List UInt8 × Nat)
  /-- A thread has called a function of `NULL`. -/
  crashed : Bool
  /-- A thread has used a transport that was destroyed. -/
  wild : Bool

/-- What a thread does next. -/
inductive RespondStep (Thread : Type) where
  | respond (t : Thread) (pkt : List UInt8)
  | test (t : Thread)
  | lock (t : Thread)
  | load (t : Thread)
  /-- The transport takes `n` bytes of the packet; without any it returns an error, or 0. -/
  | write (t : Thread) (n : Nat)
  | unlock (t : Thread)
  | clear (t : Thread)
  /-- `np_conn_shutdown`, or the end of `np_conn_read_proc`. -/
  | shutdown (t : Thread)
  | destroy (t : Thread)
  /-- `np_conn_reset` begins or ends. -/
  | reset (resetting : Bool)

namespace Outlet

variable {Thread : Type} [DecidableEq Thread]

def start : Outlet Thread :=
  { trans := true, alive := true, resetting := false, wlock := none, at_ := fun _ => .idle,
    log := [], crashed := false, wild := false }

/-- A thread goes on. -/
def move (s : Outlet Thread) (t : Thread) (at_ : Respond) : Outlet Thread :=
  { s with at_ := Function.update s.at_ t at_ }

/-- `trans = conn->trans; conn->trans = NULL`. -/
def take (s : Outlet Thread) (t : Thread) : Outlet Thread :=
  if s.trans then { s with trans := false }.move t .holding else s.move t .idle

def next (s : Outlet Thread) (step : RespondStep Thread) : Option (Outlet Thread) :=
  if s.crashed || s.wild then none else
  match step with
  | .respond t pkt => match s.at_ t with
    | .idle => some (s.move t (.testing pkt))
    | _ => none
  | .test t => match s.at_ t with
    | .testing pkt => some (s.move t (if s.trans && !s.resetting then .waiting pkt else .idle))
    | _ => none
  | .lock t => match s.at_ t, s.wlock with
    | .waiting pkt, none => some ({ s with wlock := some t }.move t (.locked pkt))
    | _, _ => none
  | .load t => match s.at_ t with
    | .locked pkt => some (if s.trans then s.move t (.writing pkt) else { s with crashed := true })
    | _ => none
  | .write t n => match s.at_ t with
    | .writing pkt =>
      if n > pkt.length then
        none
      else if s.alive then
        some ({ s with log := s.log ++ [(pkt, n)] }.move t (.wrote n))
      else
        some { s with wild := true }
    | _ => none
  | .unlock t => match s.at_ t with
    | .wrote n => some ({ s with wlock := none }.move t (if n = 0 then .failing else .idle))
    | _ => none
  | .clear t => match s.at_ t with
    | .failing => some (s.take t)
    | _ => none
  | .shutdown t => match s.at_ t with
    | .idle => some (s.take t)
    | _ => none
  | .destroy t => match s.at_ t with
    | .holding => some ({ s with alive := false }.move t .idle)
    | _ => none
  | .reset resetting => some { s with resetting }

/-! ## What the stream is for -/

/-- The bytes on the wire. -/
def bytes (s : Outlet Thread) : List UInt8 := s.log.flatMap fun write => write.1.take write.2

structure Whole (s : Outlet Thread) : Prop where
  tame : s.wild = false
  /-- Complete packets, and a part of one more. -/
  stream : ∃ (packets : List (List UInt8)) (rest : List UInt8), s.bytes = packets.flatten ++ rest ∧
    (∀ pkt ∈ packets, pkt ∈ s.log.map Prod.fst) ∧
      (rest = [] ∨ ∃ pkt ∈ s.log.map Prod.fst, rest <+: pkt)
  /-- Nothing is written behind a packet that is not complete. -/
  last : ∀ front write back, s.log = front ++ write :: back → write.2 < write.1.length →
    ∀ later ∈ back, later.1.take later.2 = []

/-- Every packet has been taken as a whole. -/
def Complete (log : List (List UInt8 × Nat)) : Prop := ∀ write ∈ log, write.2 = write.1.length

/-- When a write does not take the whole packet, no other thread is between its test and its write,
and none makes the test as long as the transport is set.  It is destroyed when no thread writes. -/
def Fits (s : Outlet Thread) : RespondStep Thread → Prop
  | .write t n => match s.at_ t with
    | .writing pkt => n = pkt.length ∨ ∀ other ≠ t, (s.at_ other).past = false
    | _ => True
  | .test _ => s.trans = true → Complete s.log
  | .destroy _ => ∀ other pkt, s.at_ other ≠ .writing pkt
  | _ => True

/-! ## Every run -/

/-- What holds in every run whose steps fit. -/
structure Sound (s : Outlet Thread) : Prop where
  tame : s.wild = false
  locks : ∀ t, (s.at_ t).locks = true → s.wlock = some t
  alive : s.trans = true → s.alive = true ∧ ∀ t, s.at_ t ≠ .holding
  writing : ∀ t pkt, s.at_ t = .writing pkt → s.alive = true
  log : Complete s.log ∨ (∃ front pkt n, Complete front ∧ s.log = front ++ [(pkt, n)]) ∧
    ∀ t, (s.at_ t).past = false

omit [DecidableEq Thread] in
theorem sound_start : (start : Outlet Thread).Sound where
  tame := rfl
  locks := nofun
  alive := fun _ => ⟨rfl, nofun⟩
  writing := nofun
  log := .inl (by simp [start, Complete])

section Steps

variable {s s' : Outlet Thread} {t : Thread} {old new : Respond}

theorem at_move (s : Outlet Thread) (t : Thread) (new : Respond) (other : Thread) :
    (s.move t new).at_ other = if other = t then new else s.at_ other :=
  Function.update_apply s.at_ t new other

/-- A thread goes on without the transport and without the log. -/
theorem Sound.move (sound : s.Sound) (stood : s.at_ t = old) (locks : new.locks = true →
    s.wlock = some t) (held : new = .holding → s.trans = false)
    (writes : ∀ pkt, new = .writing pkt → s.alive = true)
    (past : new.past = true → old.past = true ∨ Complete s.log) :
    (s.move t new).Sound where
  tame := sound.tame
  locks := by
    intro other
    rw [at_move]
    split_ifs with same
    · exact same ▸ locks
    · exact sound.locks other
  alive := by
    intro set
    obtain ⟨alive, free⟩ := sound.alive set
    refine ⟨alive, fun other => ?_⟩
    rw [at_move]
    split_ifs with same
    · intro holding
      exact Bool.false_ne_true ((held holding).symm.trans set)
    · exact free other
  writing := by
    intro other pkt
    rw [at_move]
    split_ifs with same
    · exact writes pkt
    · exact sound.writing other pkt
  log := by
    by_cases complete : Complete s.log
    · exact .inl complete
    obtain ⟨broken, behind⟩ := sound.log.resolve_left complete
    refine .inr ⟨broken, fun other => ?_⟩
    rw [at_move]
    split_ifs with same
    · rw [Bool.eq_false_iff]
      intro beyond
      have before := (past beyond).resolve_right complete
      rw [← stood, behind t] at before
      cases before
    · exact behind other

/-- The transport is taken from the connection. -/
theorem Sound.take (sound : s.Sound) (stood : s.at_ t = old) :
    (s.take t).Sound := by
  unfold Outlet.take
  split_ifs with set
  · have without : ({ s with trans := false } : Outlet Thread).Sound :=
      { tame := sound.tame
        locks := sound.locks
        alive := nofun
        writing := sound.writing
        log := sound.log }
    exact without.move stood nofun (fun _ => rfl) nofun nofun
  · exact sound.move stood nofun nofun nofun nofun

theorem Complete.append {log : List (List UInt8 × Nat)} (complete : Complete log)
    (pkt : List UInt8) : Complete (log ++ [(pkt, pkt.length)]) := by
  intro write member
  rcases List.mem_append.mp member with member | member
  · exact complete write member
  · rw [List.mem_singleton.mp member]

omit [DecidableEq Thread] in
/-- A thread behind its test means that no packet is missing. -/
theorem Sound.complete (sound : s.Sound) (stood : s.at_ t = old) (past : old.past = true) :
    Complete s.log := by
  refine sound.log.resolve_right fun ⟨_, behind⟩ => ?_
  rw [← stood, behind t] at past
  cases past

theorem Sound.write (sound : s.Sound) {pkt : List UInt8} {n : Nat}
    (stood : s.at_ t = .writing pkt)
    (fits : n = pkt.length ∨ ∀ other ≠ t, (s.at_ other).past = false) :
    ({ s with log := s.log ++ [(pkt, n)] }.move t (.wrote n) : Outlet Thread).Sound := by
  have complete := sound.complete stood rfl
  have moved : (s.move t (.wrote n)).Sound := sound.move stood
    (fun _ => sound.locks t (by rw [stood]; rfl)) nofun nofun nofun
  refine
    { tame := moved.tame
      locks := moved.locks
      alive := moved.alive
      writing := moved.writing
      log := ?_ }
  rcases fits with rfl | alone
  · exact .inl (complete.append pkt)
  · refine .inr ⟨⟨s.log, pkt, n, complete, rfl⟩, fun other => ?_⟩
    rw [at_move]
    split_ifs with same
    · rfl
    · exact alone other same

theorem Sound.unlock (sound : s.Sound) {n : Nat} (stood : s.at_ t = .wrote n) :
    ({ s with wlock := none }.move t
      (if n = 0 then .failing else .idle) : Outlet Thread).Sound := by
  have mine : s.wlock = some t := sound.locks t (by rw [stood]; rfl)
  obtain ⟨new, chosen⟩ : ∃ new, (if n = 0 then Respond.failing else .idle) = new := ⟨_, rfl⟩
  have free : new.locks = false := by
    rw [← chosen]
    split_ifs <;> rfl
  have out : new.past = false := by
    rw [← chosen]
    split_ifs <;> rfl
  have moved : (s.move t new).Sound := by
    refine sound.move stood (fun locks => ?_) ?_ ?_ fun past => ?_
    · exact (Bool.false_ne_true (free.symm.trans locks)).elim
    · rintro rfl
      split_ifs at chosen
    · rintro pkt rfl
      split_ifs at chosen
    · exact (Bool.false_ne_true (out.symm.trans past)).elim
  rw [chosen]
  refine
    { tame := moved.tame
      locks := fun other locks => ?_
      alive := moved.alive
      writing := moved.writing
      log := moved.log }
  have other_mine := moved.locks other locks
  obtain rfl : t = other := Option.some.inj (mine.symm.trans other_mine)
  rw [at_move, if_pos rfl, free] at locks
  cases locks

theorem sound_next {step : RespondStep Thread} (sound : s.Sound) (fits : s.Fits step)
    (taken : s.next step = some s') : s'.Sound := by
  unfold next at taken
  split at taken
  · cases taken
  cases step with
  | respond t pkt =>
    simp only at taken
    split at taken
    · rename_i stood
      obtain rfl := Option.some.inj taken
      exact sound.move stood nofun nofun nofun nofun
    · cases taken
  | test t =>
    simp only at taken
    split at taken
    · rename_i pkt stood
      obtain rfl := Option.some.inj taken
      split_ifs with send
      · have complete : Complete s.log := fits (Bool.and_eq_true_iff.mp send).1
        exact sound.move stood nofun nofun nofun fun _ => .inr complete
      · exact sound.move stood nofun nofun nofun nofun
    · cases taken
  | lock t =>
    simp only at taken
    split at taken
    · rename_i pkt stood free
      obtain rfl := Option.some.inj taken
      have held : ({ s with wlock := some t } : Outlet Thread).Sound :=
        { sound with
          locks := fun other locks => nomatch free.symm.trans (sound.locks other locks) }
      exact held.move stood (fun _ => rfl) nofun nofun fun _ => .inl rfl
    · cases taken
  | load t =>
    simp only at taken
    split at taken
    · rename_i pkt stood
      obtain rfl := Option.some.inj taken
      split_ifs with set
      · exact sound.move stood (fun _ => sound.locks t (by rw [stood]; rfl)) nofun
          (fun _ _ => (sound.alive set).1) fun _ => .inl rfl
      · exact { sound with }
    · cases taken
  | write t n =>
    simp only at taken
    split at taken
    · rename_i pkt stood
      simp only [Fits, stood] at fits
      split_ifs at taken with more alive
      · obtain rfl := Option.some.inj taken
        exact sound.write stood fits
      · exact absurd (sound.writing t pkt stood) alive
    · cases taken
  | unlock t =>
    simp only at taken
    split at taken
    · rename_i n stood
      obtain rfl := Option.some.inj taken
      exact sound.unlock stood
    · cases taken
  | clear t =>
    simp only at taken
    split at taken
    · rename_i stood
      obtain rfl := Option.some.inj taken
      exact sound.take stood
    · cases taken
  | shutdown t =>
    simp only at taken
    split at taken
    · rename_i stood
      obtain rfl := Option.some.inj taken
      exact sound.take stood
    · cases taken
  | destroy t =>
    simp only at taken
    split at taken
    · rename_i stood
      obtain rfl := Option.some.inj taken
      have unset : s.trans = false := by
        rw [Bool.eq_false_iff]
        exact fun set => (sound.alive set).2 t stood
      have dead : ({ s with alive := false } : Outlet Thread).Sound :=
        { sound with
          alive := fun set => (Bool.false_ne_true (unset.symm.trans set)).elim
          writing := fun other pkt writes => absurd writes (fits other pkt) }
      exact dead.move stood nofun nofun nofun nofun
    · cases taken
  | reset resetting =>
    obtain rfl := Option.some.inj taken
    exact { sound with }

end Steps

theorem Complete.bytes {front : List (List UInt8 × Nat)} (complete : Complete front) :
    (front.flatMap fun write => write.1.take write.2) = (front.map Prod.fst).flatten := by
  rw [← List.flatMap_def]
  refine List.flatMap_congr fun write member => ?_
  rw [complete write member, List.take_length]

omit [DecidableEq Thread] in
theorem Sound.whole {s : Outlet Thread} (sound : s.Sound) : s.Whole := by
  refine ⟨sound.tame, ?_, fun front write back split short later member => ?_⟩
  · rcases sound.log with complete | ⟨⟨front, pkt, n, complete, split⟩, -⟩
    · refine ⟨s.log.map Prod.fst, [], ?_, fun _ member => member, .inl rfl⟩
      rw [List.append_nil, bytes, complete.bytes]
    · refine ⟨front.map Prod.fst, pkt.take n, ?_, fun sent member => ?_, .inr ⟨pkt, ?_, ?_⟩⟩
      · rw [bytes, split, List.flatMap_append, complete.bytes]
        simp
      · rw [split, List.map_append]
        exact List.mem_append_left _ member
      · rw [split]
        simp
      · exact List.take_prefix n pkt
  · have missing : ¬ Complete s.log := by
      intro complete
      have length := complete write (by rw [split]; simp)
      omega
    obtain ⟨⟨front', pkt, n, complete, split'⟩, -⟩ := sound.log.resolve_left missing
    rcases List.eq_nil_or_concat back with rfl | ⟨init, final, rfl⟩
    · cases member
    · rw [split, List.concat_eq_append, ← List.cons_append, ← List.append_assoc] at split'
      have same := (List.append_inj' split' rfl).1
      have length := complete write (by rw [← same]; simp)
      omega

/-- In every run in which no other thread is behind its test, or gets there, when a packet is not
written as a whole, the replies are written whole. -/
theorem whole_of_run {s : Outlet Thread} (run : Transition.Reaches next Fits start s) : s.Whole :=
  (run.invariant Sound sound_start fun sound fits taken => sound_next sound fits taken).whole

/-- One reply. -/
theorem whole_of_run_one : ∃ s : Outlet Unit, s.log = [([1, 2], 2)] ∧ s.Whole := by
  have called : Transition.Reaches next Fits (start : Outlet Unit) _ :=
    .step .start (show Fits start (.respond () [1, 2]) from trivial) rfl
  have tested := called.step (show Fits _ (.test ()) from fun _ => nofun) rfl
  have locked := tested.step (show Fits _ (.lock ()) from trivial) rfl
  have loaded := locked.step (show Fits _ (.load ()) from trivial) rfl
  have written := loaded.step (show Fits _ (.write () 2) from .inl rfl) rfl
  exact ⟨_, rfl, whole_of_run written⟩

/-- A reply of two bytes behind the first byte of another. -/
theorem not_whole_all : ¬ ∀ s : Outlet Bool,
    Transition.Reaches next (fun _ _ => True) start s → s.Whole := by
  intro all
  let steps : List (RespondStep Bool) := [.respond true [1, 2], .test true, .lock true, .load true,
    .write true 1, .unlock true, .respond false [3, 4], .test false, .lock false, .load false,
    .write false 2]
  have played : (Transition.play next (fun _ _ => True) start steps).map log =
      some [([1, 2], 1), ([3, 4], 2)] := by decide
  obtain ⟨s, run, written⟩ := Option.map_eq_some_iff.mp played
  have nothing := (all s (Transition.reaches_of_play run)).last [] _ _ written (by decide) _
    (List.mem_singleton_self _)
  cases nothing

end Outlet

end Npfs
