import Npfs.AuthProtocol

/-!
# An auth fid in the hands of a client

Whatever is read from an auth fid and written to it, `checkauth` of `libnpauth/srv.c` takes it for a
user only behind a ticket for that user: a ticket under the key of the server, with the challenge
that this auth fid has sent, and an authenticator under the key in the ticket.
-/

namespace Npfs.P9sk1

/-- What is done to an auth fid; `rand` is what `getRand` returns. -/
inductive AuthEvent where
  | read (cnt : UInt32)
  | write (rand : Block) (data : List UInt8)

/-- `readauth` or `writeauth`. -/
def Authstate.step (des : Des) (a : Authstate) : AuthEvent → Authstate
  | .read cnt => (readauth cnt a).2
  | .write rand data => (writeauth des rand data a).2

/-- An auth fid behind its history. -/
def authstateAfter (des : Des) (ids dom : CStr) (key : Key) (history : List AuthEvent) :
    Authstate :=
  history.foldl (Authstate.step des) (newAuthState des ids dom key)

/-- `checkauth` returns 1 for a user of this name. -/
def checkauth (uname : CStr) : Option Authstate → Bool
  | some a => a.state.done && a.state.idr == some uname
  | none => false

/-- A message that answers the challenge for the user. -/
structure Answers (des : Des) (key : Key) (challenge : Block) (uname : CStr) (msg : List UInt8) :
    Prop where
  length : msg.length = 85
  /-- Its first part is a ticket for the user under the key of the server, with the challenge. -/
  opens : ∃ tick auth, decTicket des (msg.take 72) key = .ok tick ∧ tick.type = AuthTs ∧
    tick.ch = challenge ∧ tick.idr = uname ∧
    decAuth des (msg.drop 72) tick.key = .ok auth ∧ auth.type = AuthAc ∧ auth.ch = challenge

/-- A challenge was drawn, and later it was answered for the user. -/
def Proven (des : Des) (key : Key) (history : List AuthEvent) (uname : CStr) : Prop :=
  ∃ front challenge asked middle rand msg rest,
    history = front ++ AuthEvent.write challenge asked :: middle ++ AuthEvent.write rand msg :: rest ∧
      asked.length = 8 ∧ Answers des key challenge uname msg

/-- The auth fid has drawn the challenge and not drawn another one since. -/
def Challenged (history : List AuthEvent) (challenge : Block) : Prop :=
  ∃ front asked middle, history = front ++ AuthEvent.write challenge asked :: middle ∧ asked.length = 8

section Runs

variable {des : Des} {ids dom : CStr} {key : Key} {history : List AuthEvent} {a : Authstate}
  {rand : Block} {data : List UInt8} {uname : CStr}

/-- What is known about an auth fid behind its history. -/
structure Authstate.Known (des : Des) (key : Key) (history : List AuthEvent) (a : Authstate) :
    Prop where
  key_eq : a.state.key = key
  challenged : a.state.state = 3 → Challenged history a.state.chs
  done : a.state.done = true → ∃ uname, a.state.idr = some uname ∧ Proven des key history uname

theorem Challenged.more {challenge : Block} (challenged : Challenged history challenge)
    (event : AuthEvent) : Challenged (history ++ [event]) challenge := by
  obtain ⟨front, asked, middle, rfl, length⟩ := challenged
  exact ⟨front, asked, middle ++ [event], by simp, length⟩

theorem Proven.more (proven : Proven des key history uname) (event : AuthEvent) :
    Proven des key (history ++ [event]) uname := by
  obtain ⟨front, challenge, asked, middle, rand, msg, rest, rfl, length, answers⟩ := proven
  exact ⟨front, challenge, asked, middle, rand, msg, rest ++ [event], by simp, length, answers⟩

/-- An answer to the challenge proves the user. -/
theorem Challenged.proven {challenge : Block} (challenged : Challenged history challenge)
    (answers : Answers des key challenge uname data) :
    Proven des key (history ++ [AuthEvent.write rand data]) uname := by
  obtain ⟨front, asked, middle, rfl, length⟩ := challenged
  exact ⟨front, challenge, asked, middle, rand, data, [], by simp, length, answers⟩

/-- The tests of the server find an answer. -/
theorem answers_of_openTicket {s : Npsrvauth} {opened : Ticket × Auth}
    (accepted : openTicket des s data = .ok opened) (length : data.length = 85) :
    Answers des s.key s.chs opened.1.idr data := by
  unfold openTicket at accepted
  cases ticket : decTicket des (data.take 72) s.key with
  | error trouble =>
      rw [ticket] at accepted
      cases accepted
  | ok tick =>
      rw [ticket] at accepted
      change (if _ then _ else _) = _ at accepted
      split_ifs at accepted with wrong
      · cases accepted
      · simp only [not_or, not_not] at wrong
        cases authenticator : decAuth des (data.drop 72) tick.key with
        | error trouble =>
            rw [authenticator] at accepted
            cases accepted
        | ok auth =>
            rw [authenticator] at accepted
            change (if _ then _ else _) = _ at accepted
            split_ifs at accepted with wrong'
            · cases accepted
            · simp only [not_or, not_not] at wrong'
              cases accepted
              exact ⟨length, tick, auth, ticket, wrong.1, wrong.2, rfl, authenticator, wrong'.1,
                wrong'.2.1⟩

/-- What one call of the server function does. -/
structure Served.Steps (des : Des) (rand : Block) (a : Npsrvauth) (msg : List UInt8)
    (next : Npsrvauth) : Prop where
  key : next.key = a.key
  /-- It is in the state behind the challenge if it was there, or if it has drawn one. -/
  challenged : next.state = 3 →
    a.state = 3 ∧ next.chs = a.chs ∨ next.chs = rand ∧ msg.length = 8
  done : next.done = true → a.done = true ∧ next.idr = a.idr ∨
    a.state = 3 ∧ ∃ uname, next.idr = some uname ∧ Answers des a.key a.chs uname msg

theorem steps_self (a : Npsrvauth) (msg : List UInt8) : Served.Steps des rand a msg a :=
  ⟨rfl, fun same => .inl ⟨same, rfl⟩, fun same => .inl ⟨same, rfl⟩⟩

/-- The server draws its challenge. -/
theorem challenge_steps (a : Npsrvauth) (msg : List UInt8) (resplen : ℕ) :
    let (_, next) := srvp9sk1 des rand { a with state := 1 } msg resplen
    Served.Steps des rand a msg { next with state := next.state + 1 } := by
  simp only [srvp9sk1]
  split
  · next sized =>
    split_ifs
    · exact ⟨rfl, nofun, fun same => .inl ⟨same, rfl⟩⟩
    · split
      · exact ⟨rfl, nofun, fun same => .inl ⟨same, rfl⟩⟩
      · exact ⟨rfl, fun _ => .inr ⟨rfl, sized⟩, fun same => .inl ⟨same, rfl⟩⟩
  · exact ⟨rfl, nofun, fun same => .inl ⟨same, rfl⟩⟩

theorem orErr_eq_ok {α : Type} {attempt : Attempt α} {msg : CStr} {no : UInt32} {result : α} :
    orErr attempt msg no = .ok result ↔ attempt = .ok result := by
  cases attempt with
  | error trouble => cases trouble <;> simp [orErr, err]
  | ok other => rfl

/-- The server gets the answer. -/
theorem answer_steps {a : Npsrvauth} (msg : List UInt8) (resplen : ℕ) (state : a.state = 3)
    (fresh : a.done = false) :
    let (_, next) := srvp9sk1 des rand { a with state := 2 } msg resplen
    Served.Steps des rand a msg { next with state := next.state + 1 } := by
  have unfinished {α : Prop} (done : a.done = true) : α := by
    rw [fresh] at done
    cases done
  simp only [srvp9sk1]
  by_cases length : msg.length = 85
  · rw [if_neg (not_not_intro length)]
    split
    · exact ⟨rfl, fun _ => .inl ⟨state, rfl⟩, unfinished⟩
    · next tick auth opened =>
      have answers := answers_of_openTicket (orErr_eq_ok.mp opened) length
      split_ifs
      · exact ⟨rfl, fun _ => .inl ⟨state, rfl⟩, unfinished⟩
      · split
        · exact ⟨rfl, fun _ => .inl ⟨state, rfl⟩, unfinished⟩
        · exact ⟨rfl, nofun, fun _ => .inr ⟨state, tick.idr, rfl, answers⟩⟩
  · rw [if_pos length]
    exact ⟨rfl, fun _ => .inl ⟨state, rfl⟩, unfinished⟩

theorem srvp9any_steps (a : Npsrvauth) (msg : List UInt8) (resplen : ℕ) (fresh : a.done = false) :
    Served.Steps des rand a msg (srvp9any des rand a msg resplen).2 := by
  unfold srvp9any
  split
  · next start =>
    split_ifs
    · exact steps_self a msg
    · exact ⟨rfl, nofun, fun same => .inl ⟨same, rfl⟩⟩
  · next offered =>
    split
    · exact steps_self a msg
    · exact ⟨rfl, nofun, fun same => .inl ⟨same, rfl⟩⟩
  · next state behind =>
    rcases state with _ | _ | state
    · exact challenge_steps a msg resplen
    · exact answer_steps msg resplen behind fresh
    · exact ⟨rfl, fun same => by simp [srvp9sk1] at same, fun same => .inl ⟨same, rfl⟩⟩

/-- A read does nothing to the exchange. -/
theorem readauth_state (cnt : UInt32) (a : Authstate) : (readauth cnt a).2.state = a.state := by
  unfold readauth
  split_ifs <;> rfl

/-- A finished exchange stays as it is. -/
theorem writeauth_done (done : a.state.done = true) :
    (writeauth des rand data a).2.state = a.state := by
  rw [writeauth, if_pos (.inl done)]

theorem writeauth_state :
    (writeauth des rand data a).2.state = a.state ∨
      (writeauth des rand data a).2.state = (srvp9any des rand a.state data 256).2 := by
  unfold writeauth
  split_ifs
  · exact .inl rfl
  · right
    rcases srvp9any des rand a.state data 256 with ⟨_ | _, _⟩ <;> rfl

namespace Authstate.Known

theorem start (des : Des) (ids dom : CStr) (key : Key) :
    (newAuthState des ids dom key).Known des key [] := by
  have steps := @srvp9any_steps des (List.Vector.replicate 8 0)
    { state := 0, gen := 0, done := false, chc := List.Vector.replicate 8 0,
      chs := List.Vector.replicate 8 0, ids, dom, key, idc := none, idr := none } [] 256 rfl
  have state : (newAuthState des ids dom key).state = (srvp9any des (List.Vector.replicate 8 0)
      { state := 0, gen := 0, done := false, chc := List.Vector.replicate 8 0,
        chs := List.Vector.replicate 8 0, ids, dom, key, idc := none, idr := none } [] 256).2 := by
    unfold newAuthState
    dsimp only
    split <;> next served => rw [served]
  refine ⟨by rw [state, steps.key], fun third => ?_, fun done => ?_⟩
  · rw [state] at third
    rcases steps.challenged third with ⟨start, -⟩ | ⟨-, length⟩
    · cases start
    · cases length
  · rw [state] at done
    rcases steps.done done with ⟨start, -⟩ | ⟨start, -⟩
    · cases start
    · cases start

/-- A known state behind a further event that leaves it. -/
theorem more {a' : Authstate} (known : a.Known des key history) (same : a'.state = a.state)
    (event : AuthEvent) : a'.Known des key (history ++ [event]) := by
  refine ⟨by rw [same, known.key_eq], fun third => ?_, fun done => ?_⟩
  · rw [same] at third ⊢
    exact (known.challenged third).more event
  · rw [same] at done ⊢
    obtain ⟨uname, idr, proven⟩ := known.done done
    exact ⟨uname, idr, proven.more event⟩

theorem step (known : a.Known des key history) (event : AuthEvent) :
    (a.step des event).Known des key (history ++ [event]) := by
  cases event with
  | read cnt => exact known.more (readauth_state cnt a) _
  | write rand data =>
      cases fresh : a.state.done with
      | true => exact known.more (writeauth_done fresh) _
      | false =>
          rcases @writeauth_state des a rand data with same | served
          · exact known.more same _
          have steps := @srvp9any_steps des rand a.state data 256 fresh
          rw [← served] at steps
          refine ⟨steps.key.trans known.key_eq, fun third => ?_, fun done => ?_⟩
          · rcases steps.challenged third with ⟨before, same⟩ | ⟨drawn, length⟩
            · rw [Authstate.step, same]
              exact (known.challenged before).more _
            · rw [Authstate.step, drawn]
              exact ⟨history, data, [], rfl, length⟩
          · rcases steps.done done with ⟨before, -⟩ | ⟨before, uname, idr, answers⟩
            · rw [fresh] at before
              cases before
            · rw [known.key_eq] at answers
              exact ⟨uname, idr, (known.challenged before).proven answers⟩

theorem after (history : List AuthEvent) :
    (authstateAfter des ids dom key history).Known des key history := by
  induction history using List.reverseRecOn with
  | nil => exact start des ids dom key
  | append_singleton history event ih =>
      rw [authstateAfter, List.foldl_append]
      exact ih.step event

end Authstate.Known

theorem step_done (done : a.state.done = true) (event : AuthEvent) :
    (a.step des event).state = a.state := by
  cases event with
  | read cnt => exact readauth_state cnt a
  | write rand data => exact writeauth_done done

theorem foldl_done (done : a.state.done = true) (more : List AuthEvent) :
    (more.foldl (Authstate.step des) a).state = a.state := by
  induction more generalizing a with
  | nil => rfl
  | cons event more ih =>
      have same := @step_done des a done event
      rw [List.foldl_cons, ih (by rw [same, done]), same]

end Runs

/-- When `checkauth` takes an auth fid for a user, the challenge of this auth fid was answered with
a ticket for that user; and whatever is done to the auth fid later, it stands for this user and for
no other. -/
theorem authenticated (des : Des) (ids dom : CStr) (key : Key) (history : List AuthEvent)
    (uname : CStr)
    (checked : checkauth uname (some (authstateAfter des ids dom key history)) = true) :
    Proven des key history uname ∧ ∀ more other,
      checkauth other (some (authstateAfter des ids dom key (history ++ more))) = true ↔
        other = uname := by
  have known := @Authstate.Known.after des ids dom key history
  simp only [checkauth, Bool.and_eq_true, beq_iff_eq] at checked
  obtain ⟨done, idr⟩ := checked
  refine ⟨?_, fun more other => ?_⟩
  · obtain ⟨uname', idr', proven⟩ := known.done done
    obtain rfl : uname' = uname := Option.some.inj (idr'.symm.trans idr)
    exact proven
  · have same : (authstateAfter des ids dom key (history ++ more)).state =
        (authstateAfter des ids dom key history).state := by
      rw [authstateAfter, List.foldl_append]
      exact foldl_done done more
    simp only [checkauth, same, done, idr, Bool.true_and, beq_iff_eq, Option.some.injEq]
    exact eq_comm

/-- A cipher that changes nothing. -/
def Des.plain : Des where
  Schedule := Unit
  setOddParity := id
  setKeyChecked _ := some ()
  ecbEncrypt _ := Equiv.refl Block

/-- The messages of `glenda`, who gets the challenge of eight sevens. -/
def glendaHistory : List AuthEvent :=
  let zeros : Block := List.Vector.replicate 8 0
  [.read 256, .write zeros ((cstr "p9sk1 dom").bytes ++ [0]), .read 256,
    .write (List.Vector.replicate 8 7) (List.replicate 8 1), .read 256,
    .write zeros (AuthTs :: List.replicate 8 7 ++ padded 28 (cstr "glenda") ++
      padded 28 (cstr "glenda") ++ List.replicate 7 2 ++ AuthAc :: List.replicate 8 7 ++ enc4 0)]

theorem authenticated_glenda : checkauth (cstr "glenda") (some (authstateAfter Des.plain
      (cstr "bin") (cstr "dom") (List.Vector.replicate 7 3) glendaHistory)) = true ∧
    Proven Des.plain (List.Vector.replicate 7 3) glendaHistory (cstr "glenda") :=
  have checked : checkauth (cstr "glenda") (some (authstateAfter Des.plain
      (cstr "bin") (cstr "dom") (List.Vector.replicate 7 3) glendaHistory)) = true := by decide +kernel
  ⟨checked, (authenticated Des.plain (cstr "bin") (cstr "dom") (List.Vector.replicate 7 3)
    glendaHistory (cstr "glenda") checked).1⟩

end Npfs.P9sk1
