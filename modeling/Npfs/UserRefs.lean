import Npfs.Session
import Npfs.Transition

/-!
# References to users

The reference counts of users over runs of a server with any number of connections: requests of
every kind, session resets and disconnects.  The look-ups of the pool of users take a reference for
their caller, as those of `libnpfs/simpleusers.c`, `libnpfs/uxusers.c` and `libnpfs/pvusers.c` do.
-/

namespace Npfs.UserRefs

open Serve Program

variable {Aux World α β : Type}

/-! ## Operations -/

/-- The user that a look-up in the pool has found. -/
def foundUser : (callback : Callback) → callback.Reply → Option UserPtr
  | .uname2user _, user | .uid2user _, user => user
  | _, _ => none

/-- Perform an operation; a look-up in the pool ends in `np_user_incref`. -/
def execPool (env : Env Aux World) : (op : Op) → Session Aux World → op.Reply × Session Aux World
  | .call callback, s =>
    let called := exec env (.call callback) s
    (called.1, (exec env (.userIncref (foundUser callback called.1)) called.2).2)
  | op, s => exec env op s

/-- How many live fids name a user. -/
def named (s : Session Aux World) (user : UserPtr) : ℕ := s.fids.count (·.user == some user)

/-- The references to a user that are not those of the fids. -/
def spare (s : Session Aux World) (user : UserPtr) : ℤ := s.users user - named s user

/-- The operation neither counts references nor changes which fids name a user. -/
def Quiet : Op → Prop
  | .userIncref _ | .userDecref _ | .setUser .. | .fidFree _ | .connReset .. => False
  | .call (.uname2user _) | .call (.uid2user _) => False
  | _ => True

variable {env : Env Aux World} {s : Session Aux World} {fid : FidPtr}

theorem spare_of_same {s' : Session Aux World} (users : s'.users = s.users)
    (fids : s'.fids = s.fids) : spare s' = spare s := by
  funext u
  simp [spare, named, users, fids]

theorem spare_modify {change : Npfid Aux → Npfid Aux}
    (kept : ∀ f, (change f).user = f.user) : spare (s.modify fid change) = spare s := by
  funext u
  have counted : named (s.modify fid change) u = named s u :=
    Cells.count_modify_of_same fun f => by rw [kept]
  rw [spare, counted]
  rfl

theorem spare_load {γ : Type} (field : Npfid Aux → γ) (junk : γ) :
    spare (s.load fid field junk).2 = spare s := by
  unfold Session.load
  split
  · rfl
  · exact spare_of_same rfl rfl

theorem spare_afterCall {γ : Type} (target : Option FidPtr) (outcome : Outcome Aux World γ) :
    spare (s.afterCall target outcome) = spare s := by
  cases target with
  | none => exact spare_of_same rfl rfl
  | some fid =>
      let called := { s with error := outcome.error.getD s.error, world := outcome.world }
      have settled : spare called = spare s := spare_of_same rfl rfl
      exact Eq.trans (spare_modify fun _ => rfl) settled

theorem spare_quiet {op : Op} (quiet : Quiet op) : spare (execPool env op s).2 = spare s := by
  cases op with
  | userIncref | userDecref | setUser | fidFree | connReset => exact quiet.elim
  | fidCreate n =>
      simp only [execPool, exec]
      split
      · rfl
      · funext u
        simp [spare, named, Cells.count_push, Npfid.new]
  | fidUnlink p =>
      simp only [execPool, exec]
      split
      · split <;> exact spare_of_same rfl rfl
      · exact spare_of_same rfl rfl
  | fidIncref | fidDecref | setOmode | setType | setDiroffset =>
      exact spare_modify fun _ => rfl
  | omode | type | diroffset | user => exact spare_load _ _
  | call callback =>
      have silent : foundUser callback (exec env (.call callback) s).1 = none := by
        cases callback <;> first | exact quiet.elim | rfl
      change spare (exec env (.userIncref _) (exec env (.call callback) s).2).2 = _
      rw [silent]
      exact spare_afterCall _ _
  | _ => exact spare_of_same rfl rfl

/-- A new fid that names no user yet. -/
def Blank (s : Session Aux World) (fid : FidPtr) : Prop :=
  ∃ f, s.fids.get fid = some f ∧ f.user = none

/-- A reference goes over to a fid. -/
theorem spare_setUser (blank : Blank s fid) (user : Option UserPtr) (u : UserPtr) :
    spare (s.modify fid fun f => { f with user }) u =
      spare s u - if user = some u then 1 else 0 := by
  obtain ⟨f, live, none⟩ := blank
  let change (f : Npfid Aux) : Npfid Aux := { f with user }
  have counted : (s.fids.modify fid change).count (·.user == some u) +
      (if f.user == some u then 1 else 0) =
        s.fids.count (·.user == some u) + if (change f).user == some u then 1 else 0 :=
    Cells.count_modify live
  simp only [none, beq_iff_eq, reduceCtorEq, if_false, Nat.add_zero, change] at counted
  simp only [spare, named, Session.modify, counted]
  split <;> push_cast <;> ring

theorem spare_userIncref (user : Option UserPtr) (u : UserPtr) :
    spare (exec env (.userIncref user) s).2 u = spare s u + if user = some u then 1 else 0 := by
  cases user with
  | none => simp [exec]
  | some v =>
      simp only [spare, named, exec, Function.update_apply, Option.some.injEq]
      by_cases same : u = v
      · subst same
        simp
        ring
      · simp [same, Ne.symm same]

/-! ## Programs that keep the account -/

/-- The program gives up as many references as it takes. -/
def Steady (env : Env Aux World) (program : Serve α) : Prop :=
  ∀ s, spare (program.run (execPool env) s).2 = spare s

theorem Steady.bind {program : Serve α} {rest : α → Serve β} (first : Steady env program)
    (second : ∀ result, Steady env (rest result)) : Steady env (program >>= rest) := by
  intro s
  rw [run_bind, second, first]

theorem Steady.of_quiet {program : Serve α}
    (quiet : program.Always (fun _ _ => True) Quiet fun _ => True) : Steady env program := by
  intro s
  have kept (op : Op) (s' : Session Aux World) (same : spare s' = spare s) (allowed : Quiet op) :
      spare (execPool env op s').2 = spare s := (spare_quiet allowed).trans same
  exact (Always.run quiet (fun _ _ _ _ => trivial) kept rfl).2.1

/-- A fid is freed with the reference that it has. -/
theorem spare_fidFree {f : Npfid Aux} (live : s.fids.get fid = some f) (u : UserPtr) :
    spare ((fidFree fid).run (execPool env) s).2 u =
      spare s u + if f.user = some u then 1 else 0 := by
  have counted := Cells.count_free (p := fun f : Npfid Aux => f.user == some u) live
  simp only [beq_iff_eq] at counted
  change s.users u - ((s.fids.free fid).count _ : ℤ) = s.users u - (s.fids.count _ : ℤ) + _
  rw [← counted]
  split <;> push_cast <;> ring

theorem spare_fidFree_none (freed : s.fids.get fid = none) :
    spare ((fidFree fid).run (execPool env) s).2 = spare s := by
  funext u
  change s.users u - ((s.fids.free fid).count _ : ℤ) = s.users u - (s.fids.count _ : ℤ)
  rw [Cells.count_free_none freed]

theorem spare_npUserDecref (user u : UserPtr) :
    spare ((npUserDecref user).run (execPool env) s).2 u =
      spare s u - if user = u then 1 else 0 := by
  change Function.update s.users user (s.users user - 1) u - (named s u : ℤ) = _
  by_cases same : u = user
  · subst same
    simp [spare]
    ring
  · simp [spare, same, Ne.symm same]

/-- The end of `np_fid_destroy`. -/
theorem steady_release {rest : Option UserPtr → Serve Unit} (nobody : rest none = fidFree fid)
    (somebody : ∀ user, rest (some user) = do npUserDecref user; fidFree fid) :
    Steady env (user fid >>= rest) := by
  intro s
  have loaded : (user fid).run (execPool env) s = s.load fid (·.user) none := rfl
  rw [run_bind, loaded]
  cases live : s.fids.get fid with
  | none =>
      simp only [Session.load, live, nobody]
      exact spare_fidFree_none live
  | some f =>
      simp only [Session.load, live]
      funext u
      cases names : f.user with
      | none => rw [nobody, spare_fidFree live, names, if_neg (by simp), add_zero]
      | some user =>
          have live' : ((npUserDecref user).run (execPool env) s).2.fids.get fid = some f := live
          rw [somebody, run_bind, spare_fidFree live', spare_npUserDecref, names]
          simp

theorem steady_npFidDestroy (fid : FidPtr) : Steady env (npFidDestroy fid) := by
  have released := @steady_release _ _ env fid
  unfold npFidDestroy
  refine Steady.bind (.of_quiet (by simp [fidUnlink, Quiet])) fun _ => ?_
  refine Steady.bind (.of_quiet (by simp [Quiet])) fun srv => ?_
  refine Steady.bind (.of_quiet (by simp [Quiet])) fun type => ?_
  split_ifs
  · refine Steady.bind (.of_quiet (by simp [call, Quiet])) fun _ => ?_
    exact released rfl fun _ => rfl
  · refine Steady.bind (.of_quiet (by simp [call, Quiet])) fun _ => ?_
    exact released rfl fun _ => rfl
  · exact released rfl fun _ => rfl

theorem steady_npFidDecref (fid : Option FidPtr) : Steady env (npFidDecref fid) := by
  cases fid with
  | none => exact fun _ => rfl
  | some fid =>
      refine Steady.bind (.of_quiet (by simp [fidDecref, Quiet])) fun n => ?_
      split_ifs
      · exact steady_npFidDestroy fid
      · exact fun _ => rfl

/-! ## Fids that get a user -/

theorem Blank.modify {p : FidPtr} {change : Npfid Aux → Npfid Aux} (blank : Blank s fid)
    (kept : ∀ f, (change f).user = f.user) : Blank (s.modify p change) fid := by
  obtain ⟨f, live, none⟩ := blank
  rw [Blank, Session.modify, Cells.get_modify]
  split_ifs with same
  · exact ⟨change f, by rw [← same, live]; rfl, (kept f).trans none⟩
  · exact ⟨f, live, none⟩

theorem Blank.quiet {op : Op} (blank : Blank s fid) (quiet : Quiet op) :
    Blank (execPool env op s).2 fid := by
  have loaded {γ : Type} (p : FidPtr) (field : Npfid Aux → γ) (junk : γ) :
      Blank (s.load p field junk).2 fid := by
    unfold Session.load
    split <;> exact blank
  cases op with
  | userIncref | userDecref | setUser | fidFree | connReset => exact quiet.elim
  | fidCreate n =>
      simp only [execPool, exec]
      split
      · exact blank
      · obtain ⟨f, live, none⟩ := blank
        refine ⟨f, ?_, none⟩
        rw [Cells.get_push, if_neg (Cells.lt_of_get live).ne]
        exact live
  | fidUnlink p =>
      simp only [execPool, exec]
      split
      · split <;> exact blank
      · exact blank
  | fidIncref | fidDecref | setOmode | setType | setDiroffset =>
      exact Blank.modify blank fun _ => rfl
  | omode | type | diroffset | user => exact loaded _ _ _
  | call callback =>
      have silent : foundUser callback (exec env (.call callback) s).1 = none := by
        cases callback <;> first | exact quiet.elim | rfl
      change Blank (exec env (.userIncref _) (exec env (.call callback) s).2).2 fid
      rw [silent]
      simp only [exec, Session.afterCall]
      split
      · exact blank
      · exact Blank.modify (s := { s with error := _, world := _ }) blank fun _ => rfl
  | _ => exact blank

/-- The account stands at `d`, and the fid is new. -/
def Fresh (d : UserPtr → ℤ) (fid : FidPtr) (s : Session Aux World) : Prop :=
  spare s = d ∧ Blank s fid

variable {d : UserPtr → ℤ} {n : UInt32}

theorem Steady.ensures {program : Serve α} (steady : Steady env program) (same : spare s = d) :
    Ensures (execPool env) (fun _ s' => spare s' = d) program s :=
  (steady s).trans same

theorem Fresh.quiet {program : Serve α} (fresh : Fresh d fid s)
    (quiet : program.Always (fun _ _ => True) Quiet fun _ => True) :
    Ensures (execPool env) (fun _ s' => Fresh d fid s') program s := by
  have kept (op : Op) (s' : Session Aux World) (fresh : Fresh d fid s') (allowed : Quiet op) :
      Fresh d fid (execPool env op s').2 :=
    ⟨(spare_quiet allowed).trans fresh.1, fresh.2.quiet allowed⟩
  exact (Always.run quiet (fun _ _ _ _ => trivial) kept fresh).2.1

/-- In front of the rest of a handler. -/
theorem Fresh.front {program : Serve α} {rest : α → Serve β} (fresh : Fresh d fid s)
    (quiet : program.Always (fun _ _ => True) Quiet fun _ => True)
    (onward : ∀ result s', Fresh d fid s' →
      Ensures (execPool env) (fun _ s' => spare s' = d) (rest result) s') :
    Ensures (execPool env) (fun _ s' => spare s' = d) (program >>= rest) s :=
  (fresh.quiet quiet).bind onward

theorem Steady.front {program : Serve α} {rest : α → Serve β}
    (steady : ∀ result, Steady env (rest result))
    (quiet : program.Always (fun _ _ => True) Quiet fun _ => True) :
    Steady env (program >>= rest) :=
  (Steady.of_quiet quiet).bind steady

/-- A handler that has found no fid of a number makes one. -/
theorem npFidCreate_fresh {rest : Option FidPtr → Serve α} (absent : s.pool n = none)
    (same : spare s = d) (onward : ∀ fid s', Fresh d fid s' →
      Ensures (execPool env) (fun _ s' => spare s' = d) (rest (some fid)) s') :
    Ensures (execPool env) (fun _ s' => spare s' = d) (npFidCreate n >>= rest) s := by
  have created := @run_npFidCreate _ _ env s n absent
  have run : (npFidCreate n).run (execPool env) s = (npFidCreate n).run (exec env) s := rfl
  have quiet : spare ((npFidCreate n).run (execPool env) s).2 = spare s :=
    @spare_quiet _ _ env s (.fidCreate n) trivial
  rw [ensures_bind, Ensures, run, created]
  refine onward _ _ ⟨?_, .new n, by simp, rfl⟩
  rw [run, created] at quiet
  exact quiet.trans same

/-- The look-up takes a reference for the handler. -/
theorem npReqUser_takes (tc : Npfcall) (s : Session Aux World) :
    Ensures (execPool env) (fun user s' => s'.fids = s.fids ∧
      ∀ u, spare s' u = spare s u + if user = some u then 1 else 0) (npReqUser tc) s := by
  have called (callback : Callback) (untargeted : callback.target = none) :
      Ensures (execPool env) (fun reply s' => s'.fids = s.fids ∧
        ∀ u, spare s' u = spare s u + if foundUser callback reply = some u then 1 else 0)
        (call callback) s := by
    have quiet : spare (exec env (.call callback) s).2 = spare s := spare_afterCall _ _
    have fids : (exec env (.call callback) s).2.fids = s.fids := by
      simp [exec, Session.afterCall, untargeted]
    refine ⟨?_, fun u => (spare_userIncref _ u).trans (by rw [quiet]; rfl)⟩
    change (exec env (.userIncref _) _).2.fids = _
    cases foundUser callback (exec env (.call callback) s).1 with
    | none => exact fids
    | some user => exact fids
  unfold npReqUser
  split_ifs
  · refine (called _ rfl).bind fun reply s' taken => ?_
    cases reply with
    | none => exact taken
    | some user => exact taken
  · refine (called _ rfl).bind fun reply s' taken => ?_
    cases reply with
    | none => exact taken
    | some user => exact taken

/-- The reference of the look-up goes over to the fid. -/
theorem npReqUser_gives {tc : Npfcall} {rest : Option UserPtr → Serve (Option Npfcall)}
    (nobody : rest none = pure none) (somebody : ∀ user, ∃ rest', Steady env rest' ∧
      rest (some user) = do setUser fid (some user); rest') (fresh : Fresh d fid s) :
    Ensures (execPool env) (fun _ s' => spare s' = d) (npReqUser tc >>= rest) s := by
  refine (npReqUser_takes tc s).bind ?_
  rintro user s' ⟨fids, taken⟩
  funext u
  cases user with
  | none =>
      rw [nobody]
      simpa [fresh.1] using taken u
  | some user =>
      obtain ⟨rest', steady, onward⟩ := somebody user
      have blank : Blank s' fid := by
        rw [Blank, fids]
        exact fresh.2
      rw [onward, run_bind, steady]
      change spare (s'.modify fid fun f => { f with user := some user }) u = _
      rw [spare_setUser blank, taken, fresh.1]
      ring

/-- A fid gets the user of another one. -/
theorem inherit_gives {p : FidPtr} {rest : Serve α} (steady : Steady env rest)
    (fresh : Fresh d fid s) :
    Ensures (execPool env) (fun _ s' => spare s' = d)
      (user p >>= fun user => npUserIncref user >>= fun _ => setUser fid user >>= fun _ => rest)
      s := by
  have asked : Ensures (execPool env) (fun _ s' => Fresh d fid s') (user p) s :=
    fresh.quiet (by simp [Quiet])
  refine asked.bind fun user s' fresh => ?_
  have counted : Blank (exec env (.userIncref user) s').2 fid := by
    cases user with
    | none => exact fresh.2
    | some user => exact fresh.2
  rw [Ensures, run_bind, run_bind, steady]
  funext u
  change spare ((exec env (.userIncref user) s').2.modify fid fun f => { f with user }) u = _
  rw [spare_setUser counted, spare_userIncref, fresh.1]
  ring

theorem npStartAuth_spare (tc : Npfcall) (fresh : Fresh d fid s) :
    Ensures (execPool env) (fun _ s' => spare s' = d) (npStartAuth tc fid) s := by
  refine npReqUser_gives rfl (fun user => ⟨_, ?_, rfl⟩) fresh
  refine .of_quiet ?_
  simp [call, Option.forall, Quiet]

theorem npAttachUser_spare (tc : Npfcall) (afid : Option FidPtr) (fresh : Fresh d fid s) :
    Ensures (execPool env) (fun _ s' => spare s' = d) (npAttachUser tc fid afid) s := by
  refine npReqUser_gives rfl (fun user => ⟨_, ?_, rfl⟩) fresh
  refine .of_quiet ?_
  simp [call, Quiet]

/-! ## Handlers -/

/-- A fid is released, and nothing else happens any more. -/
theorem steady_decref_pure {γ : Type} (fid : Option FidPtr) (result : γ) :
    Steady env (do npFidDecref fid; return result) :=
  Steady.bind (steady_npFidDecref fid) fun _ _ => rfl

theorem steady_npAuth (tc : Npfcall) : Steady env (npAuth tc) := by
  intro s
  have found : (npFidFind tc.afid).run (execPool env) s = (s.pool tc.afid, s) := rfl
  rw [npAuth, run_bind, found]
  cases absent : s.pool tc.afid with
  | some afid => exact Steady.front (fun _ => steady_decref_pure _ _) (by simp [Quiet]) s
  | none =>
      refine npFidCreate_fresh absent rfl fun afid s' fresh => ?_
      refine fresh.front (by simp [Quiet]) fun _ s' fresh => ?_
      refine (npStartAuth_spare tc fresh).bind fun rc s' same => ?_
      cases rc with
      | some rc => exact same
      | none => exact (steady_decref_pure _ _).ensures same

theorem steady_npAttach (tc : Npfcall) : Steady env (npAttach tc) := by
  intro s
  have found : (npFidFind tc.fid).run (execPool env) s = (s.pool tc.fid, s) := rfl
  rw [npAttach, run_bind, found]
  cases absent : s.pool tc.fid with
  | some fid => exact Steady.of_quiet (by simp [Quiet]) s
  | none =>
      refine npFidCreate_fresh absent rfl fun fid s' fresh => ?_
      refine fresh.front (by simp [Quiet]) fun _ s' fresh => ?_
      refine fresh.front (by simp [Quiet]) fun _ s' fresh => ?_
      refine fresh.front (by simp [Quiet]) fun afid s' fresh => ?_
      cases afid with
      | none =>
          rw [Ensures, run_ite]
          split_ifs
          · exact (Steady.of_quiet (by simp [Quiet])).ensures fresh.1
          · exact npAttachUser_spare tc none fresh
      | some afid =>
          refine fresh.front (by simp [Quiet]) fun type s' fresh => ?_
          rw [Ensures, run_ite]
          split_ifs
          · exact (Steady.front (fun _ => steady_decref_pure _ _) (by simp [Quiet])).ensures fresh.1
          · refine fresh.front (by simp [Quiet]) fun _ s' fresh => ?_
            refine (npAttachUser_spare tc (some afid) fresh).bind fun rc s' same => ?_
            exact (steady_decref_pure _ _).ensures same

theorem steady_npWalkNames (newfid : FidPtr) (wnames : List (List UInt8)) :
    Steady env (npWalkNames newfid wnames) := by
  induction wnames with
  | nil => exact fun _ => rfl
  | cons wname wnames ih =>
      refine Steady.front (fun wqid => ?_) (by simp [call, Quiet])
      cases wqid with
      | none => exact fun _ => rfl
      | some wqid =>
          refine Steady.front (fun _ => ?_) (by simp [Quiet])
          refine Steady.front (fun type => ?_) (by simp [Quiet])
          split_ifs
          · exact fun _ => rfl
          · exact ih.bind fun _ _ => rfl

theorem steady_npWalkFrom (tc : Npfcall) (newfid : FidPtr) :
    Steady env (npWalkFrom tc newfid) := by
  refine Steady.front (fun _ => ?_) (by simp [Quiet])
  refine (steady_npWalkNames newfid _).bind fun wqids => ?_
  split_ifs
  · exact steady_decref_pure _ _
  · refine Steady.front (fun _ => ?_) (by simp [Quiet])
    refine Steady.front (fun _ => ?_) (by simp [Quiet])
    exact Steady.front (fun rc => steady_decref_pure _ _) (by simp [Quiet])
  · refine Steady.front (fun _ => ?_) (by simp [Quiet])
    exact Steady.front (fun rc => steady_decref_pure _ _) (by simp [Quiet])

theorem npWalk_new {tc : Npfcall} {newfid : FidPtr} (p : FidPtr) (fresh : Fresh d newfid s) :
    Ensures (execPool env) (fun _ s' => spare s' = d) (do
      let cloned : Bool ← call (.clone p newfid)
      if cloned then
        let user ← user p
        npUserIncref user
        setUser newfid user
        let type ← type p
        setType newfid type
        npWalkFrom tc newfid
      else
        npFidDecref (some newfid)
        return none) s := by
  refine fresh.front (by simp [call, Quiet]) fun cloned s' fresh => ?_
  rw [Ensures, run_ite]
  split_ifs
  · refine inherit_gives ?_ fresh
    refine Steady.front (fun _ => ?_) (by simp [Quiet])
    exact Steady.front (fun _ => steady_npWalkFrom tc newfid) (by simp [Quiet])
  · exact (steady_decref_pure _ _).ensures fresh.1

theorem steady_npWalk (tc : Npfcall) : Steady env (npWalk tc) := by
  refine Steady.front (fun fid => ?_) (by simp [Quiet])
  cases fid with
  | none => exact .of_quiet (by simp [Quiet])
  | some fid =>
      refine Steady.front (fun _ => ?_) (by simp [Quiet])
      refine Steady.front (fun _ => ?_) (by simp [Quiet])
      refine Steady.front (fun omode => ?_) (by simp [Quiet])
      split_ifs
      · exact .of_quiet (by simp [Quiet])
      · exact .of_quiet (by simp [Quiet])
      · intro s
        have found : (npFidFind tc.newfid).run (execPool env) s = (s.pool tc.newfid, s) := rfl
        rw [run_bind, found]
        cases absent : s.pool tc.newfid with
        | some newfid => exact Steady.front (fun _ => steady_decref_pure _ _) (by simp [Quiet]) s
        | none =>
            exact npFidCreate_fresh absent rfl fun newfid s' fresh => npWalk_new fid fresh
      · exact steady_npWalkFrom tc fid

/-! ### Requests about one fid -/

theorem steady_withFid {rest : FidPtr → Serve (Option Npfcall)}
    (steady : ∀ p, Steady env (rest p)) : Steady env (withFid n rest) := by
  refine Steady.front (fun found => ?_) (by simp [Quiet])
  cases found with
  | none => exact .of_quiet (by simp [Quiet])
  | some p =>
      refine Steady.front (fun _ => ?_) (by simp [Quiet])
      exact Steady.front (fun _ => steady p) (by simp [Quiet])

theorem steady_npRead (tc : Npfcall) : Steady env (npRead tc) := by
  refine .of_quiet ?_
  simp [npRead, npReadAuth, withFid, call, Option.forall, Quiet]
  intro _ _ _ _ _ _ _ heap
  cases npAllocRread tc.count heap <;> simp [Quiet]

theorem steady_npXattrwalk (tc : Npfcall) : Steady env (npXattrwalk tc) := by
  refine steady_withFid fun fid s => ?_
  have found : (npFidFind tc.newfid).run (execPool env) s = (s.pool tc.newfid, s) := rfl
  rw [run_bind, found]
  cases absent : s.pool tc.newfid with
  | some newfid => exact Steady.of_quiet (by simp [Quiet]) s
  | none =>
      refine npFidCreate_fresh absent rfl fun newfid s' fresh => inherit_gives ?_ fresh
      refine Steady.front (fun _ => ?_) (by simp [Quiet])
      refine Steady.front (fun rc => ?_) (by simp [call, Quiet])
      split_ifs
      · exact Steady.front (fun _ => steady_decref_pure _ _) (by simp [Quiet])
      · exact steady_decref_pure _ _

theorem steady_npClunked (fid : FidPtr) (rc : Option Npfcall) :
    Steady env (npClunked fid rc) := by
  unfold npClunked
  split_ifs
  · exact steady_decref_pure _ _
  · exact fun _ => rfl

theorem steady_npClunk (tc : Npfcall) : Steady env (npClunk tc) := by
  refine steady_withFid fun fid => Steady.front (fun type => ?_) (by simp [Quiet])
  split_ifs
  · exact .of_quiet (by simp [call, Quiet])
  · refine Steady.front (fun omode => ?_) (by simp [Quiet])
    split_ifs
    · refine Steady.front (fun removed => ?_) (by simp [call, Quiet])
      cases removed with
      | none => exact .of_quiet (by simp [Quiet])
      | some removed =>
          dsimp only
          split_ifs
          · exact fun _ => rfl
          · exact Steady.front (fun rc => steady_npClunked fid rc) (by simp [Quiet])
    · exact Steady.front (fun rc => steady_npClunked fid rc) (by simp [call, Quiet])

theorem steady_npRemove (tc : Npfcall) : Steady env (npRemove tc) := by
  refine steady_withFid fun fid => Steady.front (fun rc => ?_) (by simp [call, Quiet])
  split_ifs
  · exact steady_decref_pure _ _
  · exact fun _ => rfl

theorem steady_npRename (tc : Npfcall) : Steady env (npRename tc) := by
  refine steady_withFid fun fid => Steady.front (fun dfid => ?_) (by simp [Quiet])
  cases dfid with
  | none => exact .of_quiet (by simp [Quiet])
  | some dfid =>
      refine Steady.front (fun _ => ?_) (by simp [Quiet])
      exact Steady.front (fun rc => steady_decref_pure _ _) (by simp [call, Quiet])

theorem steady_npLink (tc : Npfcall) : Steady env (npLink tc) := by
  refine Steady.front (fun fid => ?_) (by simp [Quiet])
  cases fid with
  | none => exact .of_quiet (by simp [Quiet])
  | some fid =>
      refine Steady.front (fun _ => ?_) (by simp [Quiet])
      refine Steady.front (fun dfid => ?_) (by simp [Quiet])
      cases dfid with
      | none => exact .of_quiet (by simp [Quiet])
      | some dfid =>
          refine Steady.front (fun _ => ?_) (by simp [Quiet])
          refine Steady.front (fun _ => ?_) (by simp [Quiet])
          exact Steady.front (fun rc => steady_decref_pure _ _)
            (by simp [inDirectory, call, Quiet])

theorem steady_npRenameat (tc : Npfcall) : Steady env (npRenameat tc) := by
  refine steady_withFid fun fid => ?_
  refine Steady.front (fun omode => ?_) (by simp [Quiet])
  split_ifs
  · exact .of_quiet (by simp [Quiet])
  refine Steady.front (fun type => ?_) (by simp [Quiet])
  split_ifs
  · exact .of_quiet (by simp [Quiet])
  refine Steady.front (fun nfid => ?_) (by simp [Quiet])
  cases nfid with
  | none => exact .of_quiet (by simp [Quiet])
  | some nfid =>
      refine Steady.front (fun _ => ?_) (by simp [Quiet])
      exact Steady.front (fun rc => steady_decref_pure _ _) (by simp [inDirectory, call, Quiet])

theorem steady_inDirectory {rest : Serve (Option Npfcall)} (steady : Steady env rest) :
    Steady env (inDirectory fid rest) := by
  refine Steady.front (fun omode => ?_) (by simp [Quiet])
  split_ifs
  · exact .of_quiet (by simp [Quiet])
  refine Steady.front (fun type => ?_) (by simp [Quiet])
  split_ifs
  · exact .of_quiet (by simp [Quiet])
  · exact steady

/-- Most handlers do nothing with users. -/
theorem steady_call {callback : Callback} (quiet : Quiet (.call callback)) :
    Steady env (call callback) := .of_quiet ⟨quiet, fun _ _ => trivial⟩

theorem steady_npOpen (tc : Npfcall) : Steady env (npOpen tc) :=
  steady_withFid fun _ => .of_quiet (by simp [call, Quiet])

theorem steady_npCreateFile (tc : Npfcall) : Steady env (npCreateFile tc) :=
  steady_withFid fun _ => steady_inDirectory (.of_quiet (by simp [call, Option.forall, Quiet]))

theorem steady_npWrite (tc : Npfcall) : Steady env (npWrite tc) :=
  steady_withFid fun _ => .of_quiet (by simp [call, Quiet])

theorem steady_npWstat (tc : Npfcall) : Steady env (npWstat tc) :=
  steady_withFid fun _ => .of_quiet (by simp [call, Quiet])

theorem steady_npLopen (tc : Npfcall) : Steady env (npLopen tc) :=
  steady_withFid fun _ => .of_quiet (by simp [call, Quiet])

theorem steady_npLcreate (tc : Npfcall) : Steady env (npLcreate tc) :=
  steady_withFid fun _ => steady_inDirectory (.of_quiet (by simp [call, Option.forall, Quiet]))

theorem steady_npSymlink (tc : Npfcall) : Steady env (npSymlink tc) :=
  steady_withFid fun _ => steady_inDirectory (steady_call trivial)

theorem steady_npMkdir (tc : Npfcall) : Steady env (npMkdir tc) :=
  steady_withFid fun _ => steady_inDirectory (steady_call trivial)

theorem steady_npMknod (tc : Npfcall) : Steady env (npMknod tc) :=
  steady_withFid fun _ => steady_inDirectory (.of_quiet (by simp [call, Quiet]))

theorem steady_npXattrcreate (tc : Npfcall) : Steady env (npXattrcreate tc) :=
  steady_withFid fun _ => .of_quiet (by simp [call, Quiet])

theorem steady_npReaddir (tc : Npfcall) : Steady env (npReaddir tc) :=
  steady_withFid fun _ => .of_quiet (by simp [call, Quiet])

theorem steady_npUnlinkat (tc : Npfcall) : Steady env (npUnlinkat tc) := by
  refine Steady.front (fun fid => ?_) (by simp [Quiet])
  cases fid with
  | none => exact .of_quiet (by simp [Quiet])
  | some fid =>
      refine Steady.front (fun _ => steady_inDirectory ?_) (by simp [Quiet])
      exact .of_quiet (by simp [call, Quiet])

theorem steady_npFlush (tc : Npfcall) : Steady env (npFlush tc) :=
  .of_quiet (by simp [npFlush, Quiet])

/-- Every handler but that of `Tversion`. -/
theorem npFcalls_steady {i : ℕ} {f : Npfcall → Serve (Option Npfcall)}
    (listed : npFcalls i = some f) : i = 100 ∨ ∀ tc, Steady env (f tc) := by
  unfold npFcalls at listed
  split at listed <;> cases listed
  · exact .inr fun _ => steady_withFid fun _ => steady_call trivial
  · exact .inr steady_npLopen
  · exact .inr steady_npLcreate
  · exact .inr steady_npSymlink
  · exact .inr steady_npMknod
  · exact .inr steady_npRename
  · exact .inr fun _ => steady_withFid fun _ => steady_call trivial
  · exact .inr fun _ => steady_withFid fun _ => steady_call trivial
  · exact .inr fun _ => steady_withFid fun _ => steady_call trivial
  · exact .inr steady_npXattrwalk
  · exact .inr steady_npXattrcreate
  · exact .inr steady_npReaddir
  · exact .inr fun _ => steady_withFid fun _ => steady_call trivial
  · exact .inr fun _ => steady_withFid fun _ => steady_call trivial
  · exact .inr fun _ => steady_withFid fun _ => steady_call trivial
  · exact .inr steady_npLink
  · exact .inr steady_npMkdir
  · exact .inr steady_npRenameat
  · exact .inr steady_npUnlinkat
  · exact .inl rfl
  · exact .inr steady_npAuth
  · exact .inr steady_npAttach
  · exact .inr steady_npFlush
  · exact .inr steady_npWalk
  · exact .inr steady_npOpen
  · exact .inr steady_npCreateFile
  · exact .inr steady_npRead
  · exact .inr steady_npWrite
  · exact .inr steady_npClunk
  · exact .inr steady_npRemove
  · exact .inr fun _ => steady_withFid fun _ => steady_call trivial
  · exact .inr steady_npWstat

/-! ## Whole requests -/

/-- The `msize` that `np_default_version` cuts a requested one down to. -/
def cutMsize (srv : Npsrv) (conn : Npconn) (msize : UInt32) : UInt32 :=
  let msize := if msize > srv.msize then srv.msize else msize
  if msize > conn.msize then conn.msize else msize

/-- The request is a `Tversion` that resets the session. -/
def resets (srv : Npsrv) (conn : Npconn) (tc : Npfcall) : Bool :=
  tc.type.toNat / 2 * 2 = 100 ∧ ¬tc.msize < IOHDRSZ + 1 ∧
    ¬cutMsize srv conn tc.msize < IOHDRSZ ∧ (chosenVersion srv (tc.text tc.version)).isSome

/-- The references of the fids that `np_fidpool_destroy` frees are nobody's. -/
theorem spare_connReset (msize : UInt32) (dotu dotl : Bool) (u : UserPtr) :
    spare (execPool env (.connReset msize dotu dotl) s).2 u = spare s u + named s u := by
  have cleared : named (execPool env (.connReset msize dotu dotl) s).2 u = 0 := Cells.count_clear
  rw [spare, cleared, spare]
  change s.users u - ((0 : ℕ) : ℤ) = _
  ring

theorem npVersion_spare {tc : Npfcall} (typed : tc.type.toNat / 2 * 2 = 100) (u : UserPtr) :
    spare ((npVersion tc).run (execPool env) s).2 u =
      spare s u + if resets s.srv s.conn tc then (named s u : ℤ) else 0 := by
  have quits (ename : CStr) : Steady env (fail ename EIO : Serve (Option Npfcall)) :=
    .of_quiet (by simp [Quiet])
  have refused (ename : CStr) :
      spare ((fail ename EIO : Serve (Option Npfcall)).run (execPool env) s).2 u = spare s u :=
    congrFun (quits ename s) u
  have srv : Serve.srv.run (execPool env) s = (s.srv, s) := rfl
  have conn : Serve.conn.run (execPool env) s = (s.conn, s) := rfl
  by_cases small : tc.msize < IOHDRSZ + 1
  · simp [npVersion, refused, small, resets]
  rw [npVersion, if_neg small, npDefaultVersion, run_bind, srv, run_bind, conn, resets]
  dsimp only
  rw [← cutMsize]
  by_cases tiny : cutMsize s.srv s.conn tc.msize < IOHDRSZ
  · simp [refused, tiny]
  rw [if_neg tiny]
  cases chosen : chosenVersion s.srv (tc.text tc.version) with
  | none => simp [refused]
  | some version =>
      have steady (msize : UInt32) (ver : CStr) :
          Steady env (create (npCreateRversion msize ver)) := .of_quiet (by simp [Quiet])
      dsimp only
      rw [run_bind, steady (cutMsize s.srv s.conn tc.msize) version.1]
      simp only [typed, small, tiny, Option.isSome_some, not_false_eq_true, and_self,
        decide_true, if_true]
      exact spare_connReset (cutMsize s.srv s.conn tc.msize) version.2.1 version.2.2 u

/-- What a handler does to the account. -/
theorem npHandle_spare (tc : Npfcall) (u : UserPtr) :
    spare ((npHandle tc).run (execPool env) s).2 u =
      spare s u + if resets s.srv s.conn tc then (named s u : ℤ) else 0 := by
  have other (off : ¬tc.type.toNat / 2 * 2 = 100) : resets s.srv s.conn tc = false := by
    simp [resets, off]
  have early (low : tc.type < 6) : ¬tc.type.toNat / 2 * 2 = 100 := by
    have bound : tc.type.toNat < 6 := low
    omega
  by_cases low : tc.type < 6
  · rw [other (early low)]
    have failed : Steady env (npHandle tc) := by
      refine .of_quiet ?_
      simp [npHandle, npHandler, low, Quiet]
    simp [failed s]
  · have handler : npHandler tc = npFcalls (tc.type.toNat / 2 * 2) := by
      rw [npHandler, if_neg low]
    cases listed : npFcalls (tc.type.toNat / 2 * 2) with
    | none =>
        have failed : Steady env (npHandle tc) := by
          refine .of_quiet ?_
          simp [npHandle, handler, listed, Quiet]
        have off : ¬tc.type.toNat / 2 * 2 = 100 := by
          intro typed
          rw [typed] at listed
          cases listed
        simp [failed s, other off]
    | some f =>
        have run : npHandle tc = f tc := by rw [npHandle, handler, listed]
        rw [run]
        rcases @npFcalls_steady _ _ env _ f listed with typed | steady
        · rw [typed] at listed
          cases listed
          exact npVersion_spare typed u
        · by_cases typed : tc.type.toNat / 2 * 2 = 100
          · rw [typed] at listed
            cases listed
            exact npVersion_spare typed u
          · simp [steady tc s, other typed]

theorem steady_errorReply (npErrnoToLinux : UInt32 → UInt32) (rc : Option Npfcall) :
    Steady env (errorReply npErrnoToLinux rc) := by
  refine Steady.front (fun error => ?_) (by simp [Quiet])
  cases error with
  | none => exact fun _ => rfl
  | some error => exact .of_quiet (by simp [Quiet])

theorem steady_npRespond (tc rc : Npfcall) : Steady env (npRespond tc rc) := by
  have last (fid : Option FidPtr) : Steady env (do
      npFidDecref fid
      setReqFid none
      return npSetTag rc tc.tag) := by
    refine (steady_npFidDecref fid).bind fun _ => ?_
    exact .of_quiet (by simp [Quiet])
  refine Steady.front (fun fid => ?_) (by simp [Quiet])
  split_ifs
  · cases fid with
    | none => exact Steady.front (fun _ => last none) (by simp [Quiet])
    | some fid =>
        refine Steady.front (fun type => ?_) (by simp [Quiet])
        split_ifs
        · exact Steady.front (fun _ => last (some fid)) (by simp [Quiet])
        · exact last (some fid)
  · exact last fid

theorem steady_sendReply (tc : Npfcall) (rc : Option Npfcall) : Steady env (sendReply tc rc) := by
  cases rc with
  | none => exact fun _ => rfl
  | some rc => exact (steady_npRespond tc rc).bind fun _ _ => rfl

/-- What a request does to the account. -/
theorem serve_spare (npErrnoToLinux : UInt32 → UInt32) (tc : Npfcall) (later : Option Npfcall)
    (s : Session Aux World) (u : UserPtr) :
    spare ((serve npErrnoToLinux tc later).run (execPool env) s).2 u =
      spare s u + if resets s.srv s.conn tc then (named s u : ℤ) else 0 := by
  rw [serve_eq, run_bind, run_bind, run_bind, steady_sendReply, steady_errorReply, npHandle_spare]
  rfl

/-! ## Servers -/

/-- A server with its open connections and its users. -/
structure Server (Aux World : Type) where
  /-- `u->refcount`. -/
  users : UserPtr → ℤ
  /-- The connections; the users are those of the server. -/
  sessions : List (Session Aux World)
  /-- The references of the pool, and of callers other than the requests. -/
  held : UserPtr → ℕ
  /-- History: the fids with a user that `np_fidpool_destroy` has freed. -/
  lost : UserPtr → ℕ

/-- What happens next. -/
inductive Event (Aux World : Type) where
  /-- The pool makes a user, or another caller takes a reference. -/
  | take (user : UserPtr)
  | drop (user : UserPtr)
  /-- `np_conn_create`. -/
  | connect (srv : Npsrv) (conn : Npconn) (world : World)
  /-- A request is served on a connection. -/
  | request (i : ℕ) (env : Env Aux World) (tc : Npfcall) (later : Option Npfcall)
  /-- A connection ends: `np_conn_reset` and the last `np_conn_decref`. -/
  | disconnect (i : ℕ)

/-- A connection whose fid pool is empty. -/
def newSession (users : UserPtr → ℤ) (srv : Npsrv) (conn : Npconn) (world : World) :
    Session Aux World where
  srv := srv
  conn := conn
  fids := Cells.empty
  pool _ := none
  users := users
  error := none
  reqFid := none
  world := world
  fault := false

namespace Server

variable (npErrnoToLinux : UInt32 → UInt32) (s : Server Aux World)

/-- A server without users. -/
def start : Server Aux World := ⟨fun _ => 0, [], fun _ => 0, fun _ => 0⟩

/-- How many live fids of all connections name a user. -/
def named (user : UserPtr) : ℕ := (s.sessions.map (UserRefs.named · user)).sum

/-- One step; `none` when it cannot be taken. -/
def step : Event Aux World → Option (Server Aux World)
  | .take user =>
    some { s with
      users := Function.update s.users user (s.users user + 1)
      held := Function.update s.held user (s.held user + 1) }
  | .drop user =>
    if 0 < s.held user then
      some { s with
        users := Function.update s.users user (s.users user - 1)
        held := Function.update s.held user (s.held user - 1) }
    else none
  | .connect srv conn world =>
    some { s with sessions := s.sessions ++ [newSession s.users srv conn world] }
  | .request i env tc later =>
    (s.sessions[i]?).map fun session =>
      let served := ((serve npErrnoToLinux tc later).run (execPool env)
        { session with users := s.users }).2
      { s with
        users := served.users
        sessions := s.sessions.set i served
        lost := fun user => s.lost user +
          if resets session.srv session.conn tc then UserRefs.named session user else 0 }
  | .disconnect i =>
    (s.sessions[i]?).map fun session =>
      { s with
        sessions := s.sessions.eraseIdx i
        lost := fun user => s.lost user + UserRefs.named session user }

/-- The count of a user is the number of the references that the pool and its callers hold and of
the fids that name the user. -/
def Counted : Prop := ∀ user, s.users user = s.held user + s.named user

/-- No fid of the connection has a user. -/
def Vacant (session : Session Aux World) : Prop := session.fids.count (·.user.isSome) = 0

/-- A session is reset, and a connection ends, only when no fid of it has a user. -/
def Tidy : Event Aux World → Prop
  | .request i _ tc _ => ∀ session ∈ s.sessions[i]?,
      resets session.srv session.conn tc = true → Vacant session
  | .disconnect i => ∀ session ∈ s.sessions[i]?, Vacant session
  | _ => True

instance (session : Session Aux World) : Decidable (Vacant session) :=
  inferInstanceAs (Decidable (_ = _))

instance (event : Event Aux World) : Decidable (s.Tidy event) :=
  match event with
  | .request i _ _ _ => inferInstanceAs (Decidable (∀ session ∈ s.sessions[i]?, _ → _))
  | .disconnect i => inferInstanceAs (Decidable (∀ session ∈ s.sessions[i]?, _))
  | .take _ | .drop _ | .connect .. => inferInstanceAs (Decidable True)

/-! ## Every run -/

variable {s} {s' : Server Aux World} {npErrnoToLinux}

theorem sum_set {γ : Type} (f : γ → ℕ) {l : List γ} {i : ℕ} {a : γ} (here : l[i]? = some a)
    (b : γ) : ((l.set i b).map f).sum + f a = (l.map f).sum + f b := by
  induction l generalizing i with
  | nil => simp at here
  | cons head tail ih =>
      cases i with
      | zero =>
          obtain rfl : head = a := by simpa using here
          simp only [List.set_cons_zero, List.map_cons, List.sum_cons]
          omega
      | succ i =>
          have rest := ih (by simpa using here)
          simp only [List.set_cons_succ, List.map_cons, List.sum_cons]
          omega

theorem sum_eraseIdx {γ : Type} (f : γ → ℕ) {l : List γ} {i : ℕ} {a : γ} (here : l[i]? = some a) :
    ((l.eraseIdx i).map f).sum + f a = (l.map f).sum := by
  obtain ⟨inside, rfl⟩ := List.getElem?_eq_some_iff.mp here
  have perm := ((List.getElem_cons_eraseIdx_perm inside).map f).sum_eq
  rw [← perm, List.map_cons, List.sum_cons, Nat.add_comm]

/-- The account of every user. -/
def Accounted (s : Server Aux World) : Prop :=
  ∀ user, s.users user = s.held user + s.named user + s.lost user

theorem accounted_start : Accounted (start : Server Aux World) := fun _ => rfl

theorem Accounted.step {event : Event Aux World} (accounted : Accounted s)
    (taken : s.step npErrnoToLinux event = some s') : Accounted s' := by
  intro u
  have before := accounted u
  cases event with
  | take user =>
      obtain rfl : _ = s' := by simpa [Server.step] using taken
      by_cases same : u = user
      · subst same
        simp [named] at before ⊢
        omega
      · simpa [named, same] using before
  | drop user =>
      simp only [Server.step] at taken
      split_ifs at taken with some
      obtain rfl := Option.some.inj taken
      by_cases same : u = user
      · subst same
        simp [named] at before ⊢
        omega
      · simpa [named, same] using before
  | connect srv conn world =>
      obtain rfl : _ = s' := by simpa [Server.step] using taken
      have empty : UserRefs.named (newSession s.users srv conn world : Session Aux World) u = 0 :=
        rfl
      simpa [named, empty] using before
  | request i env tc later =>
      obtain ⟨session, here, rfl⟩ := Option.map_eq_some_iff.mp taken
      let served := ((serve npErrnoToLinux tc later).run (execPool env)
        { session with users := s.users }).2
      have kept : served.users u - UserRefs.named served u = s.users u - UserRefs.named session u +
          if resets session.srv session.conn tc then (UserRefs.named session u : ℤ) else 0 :=
        serve_spare npErrnoToLinux tc later { session with users := s.users } u
      have sum := sum_set (UserRefs.named · u) here served
      change served.users u = s.held u +
        (((s.sessions.set i served).map (UserRefs.named · u)).sum : ℕ) + ((s.lost u + _ : ℕ) : ℤ)
      simp only [named] at before
      split_ifs at kept ⊢ <;> omega
  | disconnect i =>
      obtain ⟨session, here, rfl⟩ := Option.map_eq_some_iff.mp taken
      have sum := sum_eraseIdx (UserRefs.named · u) here
      simp only [named] at before ⊢
      omega

theorem Accounted.of_run {guard : Server Aux World → Event Aux World → Prop}
    (run : Transition.Reaches (Server.step npErrnoToLinux) guard start s) : Accounted s :=
  run.invariant Accounted accounted_start fun accounted _ taken => accounted.step taken

/-- With the account kept, the counts are right when nothing was lost. -/
theorem Accounted.counted_iff (accounted : Accounted s) :
    s.Counted ↔ ∀ user, s.lost user = 0 := by
  refine forall_congr' fun u => ?_
  have account := accounted u
  omega

/-- A user that a fid names has a reference. -/
theorem Accounted.alive (accounted : Accounted s) {user : UserPtr} (some : 0 < s.named user) :
    0 < s.users user := by
  have account := accounted user
  omega

theorem named_of_vacant {session : Session Aux World} (vacant : Vacant session) (user : UserPtr) :
    UserRefs.named session user = 0 := by
  rw [Vacant, Cells.count, List.countP_eq_zero] at vacant
  rw [UserRefs.named, Cells.count, List.countP_eq_zero]
  intro cell member
  have owned := vacant cell member
  cases cell with
  | none => simp
  | some f =>
      cases names : f.user with
      | none => simp [names]
      | some user => simp [names] at owned

theorem lost_step {event : Event Aux World} (none : ∀ user, s.lost user = 0) (tidy : s.Tidy event)
    (taken : s.step npErrnoToLinux event = some s') : ∀ user, s'.lost user = 0 := by
  intro u
  cases event with
  | take user =>
      obtain rfl : _ = s' := by simpa [Server.step] using taken
      exact none u
  | drop user =>
      simp only [Server.step] at taken
      split_ifs at taken
      obtain rfl := Option.some.inj taken
      exact none u
  | connect srv conn world =>
      obtain rfl : _ = s' := by simpa [Server.step] using taken
      exact none u
  | request i env tc later =>
      obtain ⟨session, here, rfl⟩ := Option.map_eq_some_iff.mp taken
      by_cases reset : resets session.srv session.conn tc = true
      · simp [reset, none, named_of_vacant (tidy session here reset)]
      · simp [reset, none]
  | disconnect i =>
      obtain ⟨session, here, rfl⟩ := Option.map_eq_some_iff.mp taken
      simp [none, named_of_vacant (tidy session here)]

/-- In every run in which sessions are reset and connections end without fids, each user has as many
references as the pool and its callers hold and fids name it; and it has one as long as a fid names
it. -/
theorem counted_of_run (run : Transition.Reaches (Server.step npErrnoToLinux) Tidy start s) :
    s.Counted ∧ ∀ user, 0 < s.named user → 0 < s.users user := by
  have accounted := Accounted.of_run run
  have kept := run.invariant (fun s => ∀ user, s.lost user = 0) (fun _ => rfl)
    fun none tidy taken => lost_step none tidy taken
  exact ⟨accounted.counted_iff.mpr kept, fun user some => accounted.alive some⟩

/-- In all runs, what the counts are too high by is the number of the fids with a user that
`np_fidpool_destroy` has freed. -/
theorem counted_iff_of_run {guard : Server Aux World → Event Aux World → Prop}
    (run : Transition.Reaches (Server.step npErrnoToLinux) guard start s) :
    (s.Counted ↔ ∀ user, s.lost user = 0) ∧ ∀ user, 0 < s.named user → 0 < s.users user :=
  ⟨(Accounted.of_run run).counted_iff, fun _ some => (Accounted.of_run run).alive some⟩

/-! ## Two runs -/

/-- A file server that lets user 1 attach and clunk. -/
def welcoming : Env Unit Unit where
  answer
    | .uid2user _, _, _ => ⟨some 1, none, false, none, ()⟩
    | .attach .., _, _ => ⟨some { (default : Npfcall) with type := 105 }, none, true, none, ()⟩
    | .clunk .., _, _ => ⟨some { (default : Npfcall) with type := 121 }, none, false, none, ()⟩
    | callback, _, _ => ⟨callback.silence, none, false, none, ()⟩
  malloc _ := (⟨default, fun _ => 0⟩, ())
  flush _ _ := (true, ())
  reset _ _ := ()

def attachOne : Npfcall := { (default : Npfcall) with type := 104, fid := 1, afid := NOFID }

def clunkOne : Npfcall := { (default : Npfcall) with type := 120, fid := 1 }

/-- The settings of a connection. -/
def settings : Npsrv × Npconn := (⟨8192, true, true, none, false⟩, ⟨8192, true, true⟩)

/-- A client attaches, clunks and leaves. -/
theorem counted_of_run_clunk : ∃ s : Server Unit Unit,
    Transition.Reaches (Server.step id) Tidy start s ∧ s.users 1 = 1 ∧ s.sessions = [] ∧
      s.Counted ∧ ∀ user, 0 < s.named user → 0 < s.users user := by
  let played := Transition.play (Server.step id) Tidy (start : Server Unit Unit)
    [.take 1, .connect settings.1 settings.2 (), .request 0 welcoming attachOne none,
      .request 0 welcoming clunkOne none, .disconnect 0]
  have run := Transition.reaches_of_play (Option.some_get (show played.isSome from rfl)).symm
  exact ⟨_, run, rfl, rfl, counted_of_run run⟩

/-- A client attaches and leaves: its user keeps a reference that nobody holds. -/
theorem not_counted_of_run : ∃ s : Server Unit Unit,
    Transition.Reaches (Server.step id) (fun _ _ => True) start s ∧ s.users 1 = 2 ∧ s.held 1 = 1 ∧
      s.named 1 = 0 ∧ ¬s.Counted := by
  let played := Transition.play (Server.step id) (fun _ _ => True) (start : Server Unit Unit)
    [.take 1, .connect settings.1 settings.2 (), .request 0 welcoming attachOne none,
      .disconnect 0]
  have run := Transition.reaches_of_play (Option.some_get (show played.isSome from rfl)).symm
  refine ⟨_, run, rfl, rfl, rfl, fun counted => ?_⟩
  have one := counted 1
  exact absurd one (by decide)

end Server

end Npfs.UserRefs
