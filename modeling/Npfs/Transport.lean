import Npfs.Transition

/-!
# The transport of a connection

Who uses and who destroys `conn->trans`: the loop and the exit of `np_conn_read_proc`,
`np_conn_shutdown`, and `np_conn_respond` on any number of threads, in `libnpfs/conn.c`.  Each test
of the pointer, each load of it for a call, each call and each return is a step of its own.
-/

namespace Npfs.Transport

open Function

/-- The reader of the connection, or another thread. -/
inductive Actor (Thread : Type) where
  | reader
  | other (t : Thread)
  deriving DecidableEq

/-- Where a thread is. -/
inductive At where
  | idle
  /-- `conn->trans` was found set. -/
  | tested
  /-- The same, with `conn->wlock` held. -/
  | locked
  /-- `conn->trans` has been loaded as the argument of the call. -/
  | loaded
  /-- In `np_trans_read` or `np_trans_write`. -/
  | inside
  /-- `np_trans_write` returned `n`. -/
  | wrote (n : Int)
  /-- About to take the transport from the connection. -/
  | leaving
  /-- The transport has been taken, and is destroyed next. -/
  | holding
  /-- The thread has ended, or followed a null pointer. -/
  | gone
  deriving DecidableEq

/-- The thread is behind its test, and its call has not begun. -/
def At.between : At → Bool
  | tested | locked | loaded => true
  | _ => false

/-- The beginning of a call of `np_trans_read` or `np_trans_write`. -/
structure Start where
  /-- The pointer is not `NULL`. -/
  found : Bool
  /-- How often the transport had been destroyed. -/
  destroys : Nat
  deriving DecidableEq

/-- An `Npconn` with the threads that use it. -/
structure Conn (Thread : Type) where
  /-- `conn->trans` is set. -/
  trans : Bool
  resetting : Bool
  wlock : Option Thread
  at_ : Actor Thread → At
  /-- History: how often `np_trans_destroy` was called. -/
  destroys : Nat
  /-- History: the calls of `np_trans_read` and `np_trans_write`. -/
  starts : List Start

/-- What happens next. -/
inductive Event (Thread : Type) where
  /-- The head of the loop of the reader, or of `np_conn_respond` with a reply. -/
  | test (a : Actor Thread)
  | lock (t : Thread)
  | load (a : Actor Thread)
  | call (a : Actor Thread)
  /-- The call returns `n`. -/
  | return_ (a : Actor Thread) (n : Int)
  | unlock (t : Thread)
  /-- A thread calls `np_conn_shutdown`. -/
  | shutdown (t : Thread)
  /-- `trans = conn->trans; conn->trans = NULL`, under `conn->lock`. -/
  | take (a : Actor Thread)
  | destroy (a : Actor Thread)
  /-- `np_conn_reset` begins or ends. -/
  | reset (resetting : Bool)

namespace Conn

variable {Thread : Type} [DecidableEq Thread] (s : Conn Thread)

/-- A new connection, as its reader starts. -/
def start : Conn Thread where
  trans := true
  resetting := false
  wlock := none
  at_ _ := .idle
  destroys := 0
  starts := []

/-- A thread goes on. -/
def move (a : Actor Thread) (at_ : At) : Conn Thread := { s with at_ := update s.at_ a at_ }

/-- Where a thread goes that has no transport to use or to destroy. -/
def rest : Actor Thread → At
  | .reader => .gone
  | .other _ => .idle

/-- `conn->trans` is evaluated as an argument. -/
def loads (a : Actor Thread) : Conn Thread :=
  if s.trans then s.move a .loaded
  else { s with starts := s.starts ++ [Start.mk false s.destroys] }.move a .gone

/-- One step; `none` when the thread cannot take it. -/
def step : Event Thread → Option (Conn Thread)
  | .test a =>
    match a, s.at_ a with
    | .reader, .idle => some (s.move a (if s.trans then .tested else .leaving))
    | .other _, .idle => some (s.move a (if s.trans && !s.resetting then .tested else .idle))
    | _, _ => none
  | .lock t =>
    match s.at_ (.other t), s.wlock with
    | .tested, none => some ({ s with wlock := some t }.move (.other t) .locked)
    | _, _ => none
  | .load a =>
    match a, s.at_ a with
    | .reader, .tested | .other _, .locked => some (s.loads a)
    | _, _ => none
  | .call a =>
    match s.at_ a with
    | .loaded =>
      some ({ s with starts := s.starts ++ [Start.mk true s.destroys] }.move a .inside)
    | _ => none
  | .return_ a n =>
    match a, s.at_ a with
    | .reader, .inside => some (s.move a (if 0 < n then .idle else .leaving))
    | .other _, .inside => some (s.move a (.wrote n))
    | _, _ => none
  | .unlock t =>
    match s.at_ (.other t) with
    | .wrote n =>
      some ({ s with wlock := none }.move (.other t) (if 0 < n then .idle else .leaving))
    | _ => none
  | .shutdown t =>
    match s.at_ (.other t) with
    | .idle => some (s.move (.other t) .leaving)
    | _ => none
  | .take a =>
    match s.at_ a with
    | .leaving => some ({ s with trans := false }.move a (if s.trans then .holding else rest a))
    | _ => none
  | .destroy a =>
    match s.at_ a with
    | .holding => some ({ s with destroys := s.destroys + 1 }.move a (rest a))
    | _ => none
  | .reset resetting => some { s with resetting }

/-- The transport is destroyed at most once, and no call begins without it or behind that. -/
structure Proper : Prop where
  once : s.destroys ≤ 1
  alive : ∀ start ∈ s.starts, start.found = true ∧ start.destroys = 0

/-- The transport is taken when no thread is between its test and its call. -/
def Settled : Event Thread → Prop
  | .take _ => s.trans = true → ∀ a, (s.at_ a).between = false
  | _ => True

/-! ## One step -/

variable {s} {s' : Conn Thread} {a : Actor Thread} {at_ : At}

theorem at_move (s : Conn Thread) (a b : Actor Thread) (at_ : At) :
    (s.move a at_).at_ b = if b = a then at_ else s.at_ b := update_apply s.at_ a at_ b

omit [DecidableEq Thread] in
theorem rest_ne_holding (a : Actor Thread) : rest a ≠ .holding := by
  cases a <;> simp [rest]

omit [DecidableEq Thread] in
theorem between_rest (a : Actor Thread) : (rest a).between = false := by
  cases a <;> rfl

/-- What a step does to the transport. -/
inductive Effect (s : Conn Thread) : Event Thread → Conn Thread → Prop
  /-- A thread goes on, and the locks and flags may change. -/
  | go {event : Event Thread} {a : Actor Thread} {at_ : At} (resetting : Bool)
      (wlock : Option Thread) (other : at_ ≠ .holding)
      (ahead : at_.between = true → s.trans = true ∨ (s.at_ a).between = true) :
      Effect s event ({ s with resetting, wlock }.move a at_)
  /-- A null pointer is loaded. -/
  | null {event : Event Thread} {a : Actor Thread} (ahead : (s.at_ a).between = true)
      (unset : s.trans = false) :
      Effect s event ({ s with starts := s.starts ++ [Start.mk false s.destroys] }.move a .gone)
  | call {event : Event Thread} {a : Actor Thread} (loaded : s.at_ a = .loaded) :
      Effect s event ({ s with starts := s.starts ++ [Start.mk true s.destroys] }.move a .inside)
  | take {a : Actor Thread} :
      Effect s (.take a) ({ s with trans := false }.move a (if s.trans then .holding else rest a))
  | destroy {event : Event Thread} {a : Actor Thread} (holding : s.at_ a = .holding) :
      Effect s event ({ s with destroys := s.destroys + 1 }.move a (rest a))
  | reset {event : Event Thread} (resetting : Bool) : Effect s event { s with resetting }

/-- A thread goes on, and nothing else changes. -/
theorem Effect.move {event : Event Thread} (other : at_ ≠ .holding)
    (ahead : at_.between = true → s.trans = true ∨ (s.at_ a).between = true) :
    Effect s event (s.move a at_) := .go s.resetting s.wlock other ahead

theorem Effect.loads {event : Event Thread} (ahead : (s.at_ a).between = true) :
    Effect s event (s.loads a) := by
  unfold Conn.loads
  split_ifs with set
  · exact .move (by simp) fun _ => .inr ahead
  · exact .null ahead (by simpa using set)

theorem effect_of_step {event : Event Thread} (taken : s.step event = some s') :
    Effect s event s' := by
  cases event with
  | test a =>
      simp only [step] at taken
      split at taken
      · cases taken
        refine .move (by split_ifs <;> simp) fun ahead => .inl ?_
        split_ifs at ahead with set
        · exact set
        · cases ahead
      · cases taken
        refine .move (by split_ifs <;> simp) fun ahead => .inl ?_
        split_ifs at ahead with send
        · exact (Bool.and_eq_true_iff.mp send).1
        · cases ahead
      · cases taken
  | lock t =>
      simp only [step] at taken
      split at taken
      · rename_i stood free
        cases taken
        exact .go s.resetting (some t) (by simp) fun _ => .inr (by rw [stood]; rfl)
      · cases taken
  | load a =>
      simp only [step] at taken
      split at taken
      · rename_i stood
        cases taken
        exact .loads (by rw [stood]; rfl)
      · rename_i stood
        cases taken
        exact .loads (by rw [stood]; rfl)
      · cases taken
  | call a =>
      simp only [step] at taken
      split at taken
      · rename_i stood
        cases taken
        exact .call stood
      · cases taken
  | return_ a n =>
      simp only [step] at taken
      split at taken
      · cases taken
        refine .move (by split_ifs <;> simp) fun ahead => ?_
        split_ifs at ahead <;> cases ahead
      · cases taken
        exact .move (by simp) (by simp [At.between])
      · cases taken
  | unlock t =>
      simp only [step] at taken
      split at taken
      · cases taken
        refine .go s.resetting none (by split_ifs <;> simp) fun ahead => ?_
        split_ifs at ahead <;> cases ahead
      · cases taken
  | shutdown t =>
      simp only [step] at taken
      split at taken
      · cases taken
        exact .move (by simp) (by simp [At.between])
      · cases taken
  | take a =>
      simp only [step] at taken
      split at taken
      · cases taken
        exact .take
      · cases taken
  | destroy a =>
      simp only [step] at taken
      split at taken
      · rename_i stood
        cases taken
        exact .destroy stood
      · cases taken
  | reset resetting =>
      cases taken
      exact .reset resetting

/-! ## Every run -/

/-- The transport is in the connection, or one thread has it, or it is destroyed. -/
structure Owned (s : Conn Thread) : Prop where
  set : s.trans = true → s.destroys = 0 ∧ ∀ a, s.at_ a ≠ .holding
  held : ∀ a, s.at_ a = .holding → s.destroys = 0 ∧ ∀ b, s.at_ b = .holding → b = a
  once : s.destroys ≤ 1

/-- What holds besides as long as the transport is taken when no thread is at work. -/
structure Sound (s : Conn Thread) : Prop extends s.Owned where
  between : ∀ a, (s.at_ a).between = true → s.trans = true
  alive : ∀ start ∈ s.starts, start.found = true ∧ start.destroys = 0

omit [DecidableEq Thread] in
theorem sound_start : (start : Conn Thread).Sound where
  set _ := ⟨rfl, by simp [start]⟩
  held := by simp [start]
  once := by simp [start]
  between := by simp [start, At.between]
  alive := by simp [start]

namespace Owned

theorem move (owned : s.Owned) (other : at_ ≠ .holding) : (s.move a at_).Owned := by
  have kept : ∀ b, (s.move a at_).at_ b = .holding → s.at_ b = .holding := by
    intro b holding
    rw [at_move] at holding
    split_ifs at holding
    · exact absurd holding other
    · exact holding
  exact
    { set := fun set => ⟨(owned.set set).1, fun b holding => (owned.set set).2 b (kept b holding)⟩
      held := fun b holding => ⟨(owned.held b (kept b holding)).1,
        fun c holding' => (owned.held b (kept b holding)).2 c (kept c holding')⟩
      once := owned.once }

theorem take (owned : s.Owned) :
    ({ s with trans := false }.move a (if s.trans then .holding else rest a)).Owned := by
  by_cases set : s.trans = true
  · obtain ⟨unused, free⟩ := owned.set set
    rw [if_pos set]
    have only : ∀ b, ({ s with trans := false }.move a .holding : Conn Thread).at_ b = .holding →
        b = a := by
      intro b holding
      rw [at_move] at holding
      split_ifs at holding with same
      · exact same
      · exact absurd holding (free b)
    exact
      { set := fun set => absurd set (by simp [Conn.move])
        held := fun b holding => ⟨unused, fun c holding' =>
          (only c holding').trans (only b holding).symm⟩
        once := owned.once }
  · rw [if_neg set]
    have without : ({ s with trans := false } : Conn Thread).Owned :=
      { set := by simp
        held := owned.held
        once := owned.once }
    exact without.move (rest_ne_holding a)

theorem destroy (owned : s.Owned) (holding : s.at_ a = .holding) :
    ({ s with destroys := s.destroys + 1 }.move a (rest a)).Owned := by
  obtain ⟨unused, only⟩ := owned.held a holding
  have free : ∀ b, ({ s with destroys := s.destroys + 1 }.move a (rest a) : Conn Thread).at_ b ≠
      .holding := by
    intro b holding'
    rw [at_move] at holding'
    split_ifs at holding' with same
    · exact rest_ne_holding a holding'
    · exact same (only b holding')
  exact
    { set := fun set => absurd holding ((owned.set set).2 a)
      held := fun b holding' => absurd holding' (free b)
      once := by simp [Conn.move, unused] }

theorem of_effect (owned : s.Owned) {event : Event Thread} (effect : Effect s event s') :
    s'.Owned := by
  cases effect with
  | go resetting wlock other ahead =>
      have same : ({ s with resetting, wlock } : Conn Thread).Owned := ⟨owned.1, owned.2, owned.3⟩
      exact same.move other
  | @null _ a ahead unset =>
      have same : ({ s with starts := s.starts ++ [Start.mk false s.destroys] } :
          Conn Thread).Owned := ⟨owned.1, owned.2, owned.3⟩
      exact same.move (by simp)
  | @call _ a loaded =>
      have same : ({ s with starts := s.starts ++ [Start.mk true s.destroys] } :
          Conn Thread).Owned := ⟨owned.1, owned.2, owned.3⟩
      exact same.move (by simp)
  | take => exact owned.take
  | destroy holding => exact owned.destroy holding
  | reset resetting => exact ⟨owned.1, owned.2, owned.3⟩

end Owned

theorem between_move (between : ∀ b, (s.at_ b).between = true → s.trans = true)
    (ahead : at_.between = true → s.trans = true) (b : Actor Thread)
    (after : ((s.move a at_).at_ b).between = true) : s.trans = true := by
  rw [at_move] at after
  split_ifs at after
  · exact ahead after
  · exact between b after

theorem Sound.of_effect (sound : s.Sound) {event : Event Thread} (effect : Effect s event s')
    (settled : s.Settled event) : s'.Sound := by
  have owned := sound.toOwned.of_effect effect
  cases effect with
  | go resetting wlock other ahead =>
      refine ⟨owned, fun b after => ?_, sound.alive⟩
      exact between_move (s := { s with resetting, wlock }) sound.between
        (fun front => (ahead front).elim id (sound.between _)) b after
  | null ahead unset =>
      have set := sound.between _ ahead
      simp [unset] at set
  | @call _ a loaded =>
      have set := sound.between a (by rw [loaded]; rfl)
      refine ⟨owned, fun b after => set, fun start mem => ?_⟩
      rcases List.mem_append.mp mem with mem | mem
      · exact sound.alive start mem
      · obtain rfl := List.mem_singleton.mp mem
        exact ⟨rfl, (sound.set set).1⟩
  | @take a =>
      have nobody : ∀ b, (s.at_ b).between = false := by
        cases set : s.trans with
        | true => exact settled set
        | false =>
            intro b
            by_contra ahead
            have set' := sound.between b (by simpa using ahead)
            simp [set] at set'
      refine ⟨owned, fun b after => ?_, sound.alive⟩
      rw [at_move] at after
      split_ifs at after
      · cases after
      · simp [between_rest] at after
      · simp [nobody b] at after
  | @destroy _ a holding =>
      refine ⟨owned, fun b after => ?_, sound.alive⟩
      exact between_move (s := { s with destroys := s.destroys + 1 }) sound.between
        (by simp [between_rest]) b after
  | reset resetting => exact ⟨owned, sound.between, sound.alive⟩

/-- Under any interleaving the transport is destroyed at most once. -/
theorem destroyed_once (run : Transition.Reaches step (fun _ _ => True) start s) :
    s.destroys ≤ 1 :=
  (run.invariant Owned sound_start.toOwned fun owned _ taken =>
    owned.of_effect (effect_of_step taken)).once

/-- When the transport is taken from the connection only while no thread is between its test and its
call, it is destroyed once and every call finds it alive. -/
theorem proper_of_run (run : Transition.Reaches step Settled start s) : s.Proper := by
  have sound := run.invariant Sound sound_start fun sound settled taken =>
    sound.of_effect (effect_of_step taken) settled
  exact ⟨sound.once, sound.alive⟩

/-- `np_conn_shutdown` while the reader is in `np_trans_read`, behind a reply. -/
theorem proper_of_run_shutdown : ∃ s : Conn Unit, s.starts = [⟨true, 0⟩, ⟨true, 0⟩] ∧
    s.destroys = 1 ∧ s.at_ .reader = .gone ∧ s.Proper := by
  have nobody : ∀ s : Conn Unit, (s.at_ .reader).between = false →
      (s.at_ (.other ())).between = false → ∀ a, (s.at_ a).between = false := by
    rintro s reader other (_ | ⟨⟩)
    · exact reader
    · exact other
  have tested : Transition.Reaches step Settled (start : Conn Unit) _ :=
    .step .start (show start.Settled (.test .reader) from trivial) rfl
  have loaded := tested.step (show Settled _ (.load .reader) from trivial) rfl
  have reading := loaded.step (show Settled _ (.call .reader) from trivial) rfl
  have tested' := reading.step (show Settled _ (.test (.other ())) from trivial) rfl
  have locked := tested'.step (show Settled _ (.lock ()) from trivial) rfl
  have loaded' := locked.step (show Settled _ (.load (.other ())) from trivial) rfl
  have writing := loaded'.step (show Settled _ (.call (.other ())) from trivial) rfl
  have wrote := writing.step (show Settled _ (.return_ (.other ()) 7) from trivial) rfl
  have unlocked := wrote.step (show Settled _ (.unlock ()) from trivial) rfl
  have leaving := unlocked.step (show Settled _ (.shutdown ()) from trivial) rfl
  have taken := leaving.step (show Settled _ (.take (.other ())) from fun _ =>
    nobody _ rfl rfl) rfl
  have destroyed := taken.step (show Settled _ (.destroy (.other ())) from trivial) rfl
  have returned := destroyed.step (show Settled _ (.return_ .reader 0) from trivial) rfl
  have gone := returned.step (show Settled _ (.take .reader) from fun _ => nobody _ rfl rfl) rfl
  exact ⟨_, rfl, rfl, rfl, proper_of_run gone⟩

/-- A reply and a read that have passed their tests when `np_conn_shutdown` takes the transport: the
one loads a null pointer, and the other goes to a transport that is destroyed. -/
theorem not_proper_all : ¬ ∀ s : Conn Bool,
    Transition.Reaches step (fun _ _ => True) start s → s.Proper := by
  intro all
  let steps : List (Event Bool) := [.test .reader, .load .reader, .test (.other true),
    .shutdown false, .take (.other false), .destroy (.other false), .lock true,
    .load (.other true), .call .reader]
  have played : (Transition.play step (fun _ _ => True) start steps).map starts =
      some [⟨false, 1⟩, ⟨true, 1⟩] := by decide
  obtain ⟨s, run, starts⟩ := Option.map_eq_some_iff.mp played
  have alive := (all s (Transition.reaches_of_play run)).alive ⟨true, 1⟩ (by simp [starts])
  simp at alive

end Conn

end Npfs.Transport
