import Npfs.AuthFid
import Npfs.Mediation

/-!
# Attaching past `libnpauth`

A server whose `Npauth` is `srvauthp9any` of `libnpauth/srv.c`.  Its `checkauth` refuses with the -1
of `err`, and `np_attach` takes only 0 for a refusal: the client gets the error, and the fid stays.
-/

namespace Npfs.P9sk1

open Serve Program Mediation

/-- What `libnpauth` keeps, beside the world of the file server. -/
structure Vault (World : Type) where
  /-- `fid->aux` of the auth fids. -/
  states : FidPtr → Option Authstate
  world : World

namespace Vault

variable {World : Type}

/-- An auth fid gets another state. -/
def put (v : Vault World) (afid : FidPtr) (a : Option Authstate) : Vault World :=
  { v with states := Function.update v.states afid a }

end Vault

/-- What a function of `libnpauth` leaves behind when it returns this. -/
def returns {Aux World α : Type} (reply : α) (error : Option Nperror) (v : Vault World) :
    Outcome Aux (Vault World) α :=
  ⟨reply, none, false, error.map some, v⟩

/-- The error that a function has set. -/
def Trouble.error : Trouble → Option Nperror
  | .failed error => error
  | .undefined => none

/-- `srvauthp9any`, beside a file server. -/
structure Libnpauth where
  des : Des
  ids : CStr
  dom : CStr
  key : Key
  /-- `user->uname`. -/
  uname : UserPtr → CStr

namespace Libnpauth

variable {Aux World : Type} (lib : Libnpauth)

/-- `checkauth`: 1, or -1 with an error. -/
def checkauth (user : Option UserPtr) (a : Option Authstate) : Int × Option Nperror :=
  if (user.map lib.uname).any (P9sk1.checkauth · a) then (1, none)
  else (-1, some (.of (cstr "bad auth") EPERM))

/-- The environment of a file server whose `Npauth` is `srvauthp9any`, and `rand` what `getRand`
returns.  A function that is given an auth fid without a state does nothing. -/
def env (rand : World → Block) (server : Env Aux World) : Env Aux (Vault World) where
  answer callback fids v :=
    match callback with
    | .startauth afid _ =>
      returns (some { type := Qtauth.toUInt8, version := 0, path := 1 }) none
        (v.put afid (some (newAuthState lib.des lib.ids lib.dom lib.key)))
    | .checkauth fid afid _ =>
      let (result, error) := lib.checkauth ((fids fid).bind (·.user)) (afid.bind v.states)
      returns (result != 0) error v
    | .authRead afid _ cnt =>
      match v.states afid with
      | none => returns (0, []) none v
      | some a =>
        match readauth cnt a with
        | (.ok data, a) => returns (data.length, data) none (v.put afid (some a))
        | (.error trouble, a) => returns (-1, []) trouble.error (v.put afid (some a))
    | .authWrite afid _ _ data =>
      match v.states afid with
      | none => returns (0 : Int) none v
      | some a =>
        match writeauth lib.des (rand v.world) data a with
        | (.ok n, a) => returns (n : Int) none (v.put afid (some a))
        | (.error trouble, a) => returns (0 : Int) trouble.error (v.put afid (some a))
    | .authClunk afid => returns (1 : Int) none (v.put afid none)
    | callback =>
      let outcome := server.answer callback fids v.world
      ⟨outcome.reply, outcome.aux, outcome.takesRef, outcome.error, { v with world := outcome.world }⟩
  malloc v := ((server.malloc v.world).1, { v with world := (server.malloc v.world).2 })
  flush oldtag v := ((server.flush oldtag v.world).1, { v with world := (server.flush oldtag v.world).2 })
  reset fids v := { v with world := server.reset fids v.world }

/-- The user pool finds the user that the request names. -/
def Names (server : Env Aux World) (tc : Npfcall) (user : UserPtr) : Prop :=
  ∀ fids world,
    if tc.uname.len ≠ 0 ∧ tc.nUname = 0xFFFFFFFF then
      (server.answer (.uname2user (npStrdup (tc.text tc.uname))) fids world).reply = some user
    else
      (server.answer (.uid2user tc.nUname) fids world).reply = some user

variable {lib} {rand : World → Block} {server : Env Aux World} {s : Session Aux (Vault World)}
  {tc : Npfcall} {user : UserPtr} {fid : FidPtr} {f : Npfid Aux}

theorem run_npReqUser (names : Names server tc user) :
    ∃ error world, (npReqUser tc).run (exec (lib.env rand server)) s =
      (some user, { s with error, world }) := by
  have found := names s.fids.get s.world.world
  unfold npReqUser
  split_ifs at found ⊢
  · have replied : ((lib.env rand server).answer (.uname2user (npStrdup (tc.text tc.uname)))
        s.fids.get s.world).reply = some user := found
    dsimp only
    rw [run_bind, run_call, replied]
    exact ⟨_, _, rfl⟩
  · have replied : ((lib.env rand server).answer (.uid2user tc.nUname) s.fids.get s.world).reply =
        some user := found
    dsimp only
    rw [run_bind, run_call, replied]
    exact ⟨_, _, rfl⟩

/-- The file server takes the fid of the `Tattach` as its own. -/
def Accepts (server : Env Aux World) (tc : Npfcall) (fid : FidPtr) : Prop :=
  ∀ fids world,
    let outcome := server.answer (.attach fid none (tc.text tc.uname) (tc.text tc.aname)) fids world
    outcome.takesRef = true ∧ outcome.error = none

/-- Without an afid `checkauth` sets an error and returns -1. -/
theorem answer_checkauth (aname : Option CStr) (fids : FidPtr → Option (Npfid Aux))
    (v : Vault World) : (lib.env rand server).answer (.checkauth fid none aname) fids v =
      ⟨true, none, false, some (some (.of (cstr "bad auth") EPERM)), v⟩ := by
  have refused (user : Option UserPtr) :
      lib.checkauth user none = (-1, some (.of (cstr "bad auth") EPERM)) := by
    simp [checkauth, P9sk1.checkauth]
  simp [env, refused, returns]

/-- The file server is asked all the same. -/
theorem run_npAttachUser (names : Names server tc user) (accepts : Accepts server tc fid)
    (auth : s.srv.auth.any (·.checkauth) = true) (live : s.fids.get fid = some f) :
    ∃ rc s', (npAttachUser tc fid none).run (exec (lib.env rand server)) s = (rc, s') ∧
      (∃ error, s'.error = some error) ∧ s'.pool = s.pool ∧ s'.reqFid = s.reqFid ∧
      ∃ f', s'.fids.get fid = some f' ∧ f'.user = some user ∧ f'.refcount = f.refcount + 1 := by
  obtain ⟨error, world, found⟩ := @run_npReqUser _ _ lib rand server s tc user names
  have attached (fids : FidPtr → Option (Npfid Aux)) (v : Vault World) :
      ((lib.env rand server).answer (.attach fid none (tc.text tc.uname) (tc.text tc.aname))
        fids v).takesRef = true ∧
      ((lib.env rand server).answer (.attach fid none (tc.text tc.uname) (tc.text tc.aname))
        fids v).error = none := accepts fids v.world
  unfold npAttachUser
  rw [run_bind, found]
  refine ⟨_, _, rfl, ?_⟩
  simp [auth, Program.bind, call, exec, Session.modify, Session.afterCall, Callback.target,
    answer_checkauth, attached, live]

theorem run_npAttach (names : Names server tc user) (accepts : Accepts server tc s.fids.next)
    (auth : s.srv.auth.any (·.checkauth) = true) (unused : s.pool tc.fid = none)
    (noAfid : tc.afid = NOFID ∧ s.pool NOFID = none ∧ tc.fid ≠ NOFID) :
    ∃ rc s', (npAttach tc).run (exec (lib.env rand server)) s = (rc, s') ∧
      (∃ error, s'.error = some error) ∧ s'.pool tc.fid = some s.fids.next ∧
      s'.reqFid = some s.fids.next ∧
      ∃ f, s'.fids.get s.fids.next = some f ∧ f.user = some user ∧ f.refcount = 2 := by
  obtain ⟨afid, none', other⟩ := noAfid
  have free : Function.update s.pool tc.fid (some s.fids.next) tc.afid = none := by
    rw [afid, Function.update_of_ne other.symm, none']
  have live : ((s.fids.push (.new tc.fid)).modify s.fids.next (.addRef 1)).get s.fids.next =
      some (Npfid.addRef 1 (.new tc.fid)) := by simp
  obtain ⟨rc, s', run, error, pool, held, f, live', owned, count⟩ := @run_npAttachUser _ _ lib rand
    server { s with
      fids := (s.fids.push (.new tc.fid)).modify s.fids.next (.addRef 1)
      pool := Function.update s.pool tc.fid (some s.fids.next)
      reqFid := some s.fids.next } tc user s.fids.next _ names accepts auth live
  refine ⟨rc, s', ?_, error, by simp [pool], held, f, live', owned, count⟩
  rw [← run]
  simp [npAttach, run_bind, unused, run_npFidCreate, Session.modify, afid, none', other.symm]

end Libnpauth

/-- On a server with `libnpauth` anybody can attach as anybody: the client gets an error, and the fid
that it has named is there, of the user that it has named. -/
theorem attach_unauthenticated {Aux World : Type} (lib : Libnpauth) (rand : World → Block)
    (server : Env Aux World) (npErrnoToLinux : UInt32 → UInt32) (s : Session Aux (Vault World))
    (tc : Npfcall) (later : Option Npfcall) (user : UserPtr)
    (type : tc.type = MsgType.tattach.code) (names : Libnpauth.Names server tc user)
    (accepts : Libnpauth.Accepts server tc s.fids.next)
    (auth : s.srv.auth.any (·.checkauth) = true) (unused : s.pool tc.fid = none)
    (noAfid : tc.afid = NOFID ∧ s.pool NOFID = none ∧ tc.fid ≠ NOFID) :
    ∃ reply s', (serve npErrnoToLinux tc later).run (exec (lib.env rand server)) s =
        (some reply, s') ∧ reply.Failed ∧ s'.pool tc.fid = some s.fids.next ∧
      ∃ f, s'.fids.get s.fids.next = some f ∧ f.user = some user ∧ f.refcount = 1 := by
  have handler : npHandle tc = npAttach tc := by
    rw [npHandle, npHandler, type]
    rfl
  obtain ⟨rc, s', run, error, pool, held, f, live, owned, count⟩ := @Libnpauth.run_npAttach _ _ lib
    rand server { s with error := none } tc user names accepts auth unused noAfid
  have fails : Fails s'.error rc later := .inl error
  obtain ⟨reply, world, failed, finished⟩ :=
    @finish_of_fails _ _ npErrnoToLinux (lib.env rand server) s' tc later rc fails
  have more : f.refcount ≠ 1 := by omega
  have dropped : (npFidDecref s'.reqFid).run (exec (lib.env rand server)) { s' with world } =
      ((), { s' with world }.modify s.fids.next (.addRef (-1))) := by
    rw [held]
    exact run_npFidDecref_more live more
  rw [dropped] at finished
  refine ⟨reply, { { s' with world }.modify s.fids.next (.addRef (-1)) with reqFid := none }, ?_,
    failed, pool, f.addRef (-1), ?_, owned, ?_⟩
  · rw [run_serve, handler, run]
    exact finished
  · change (s'.fids.modify s.fids.next (.addRef (-1))).get s.fids.next = _
    simp [live]
  · simp [Npfid.addRef, count]

/-- A file server that knows every user and lets everybody attach. -/
def Env.trusting : Env Unit Unit :=
  { Env.silent with
    answer := fun callback _ _ =>
      match callback with
      | .uid2user uid => ⟨some uid.toNat, none, false, none, ()⟩
      | .attach .. =>
        ⟨npCreateRattach { type := 0, version := 0, path := 0 } ⟨default, fun _ => 0⟩, none, true, none, ()⟩
      | callback => ⟨callback.silence, none, false, none, ()⟩ }

theorem attach_unauthenticated_root :
    let lib : Libnpauth := ⟨Des.plain, cstr "bin", cstr "dom", List.Vector.replicate 7 3, fun _ => cstr "root"⟩
    let s : Session Unit (Vault Unit) := { unattached with world := ⟨fun _ => none, ()⟩ }
    ∃ reply s', (serve id tattach none).run
        (exec (lib.env (fun _ => List.Vector.replicate 8 0) Env.trusting)) s = (some reply, s') ∧
      reply.Failed ∧ s'.pool 0 = some 0 ∧
      ∃ f, s'.fids.get 0 = some f ∧ f.user = some 1 ∧ f.refcount = 1 :=
  attach_unauthenticated _ _ Env.trusting id _ tattach none 1 rfl (fun _ _ => rfl)
    (fun _ _ => ⟨rfl, rfl⟩) rfl rfl ⟨rfl, rfl, by decide⟩

end Npfs.P9sk1
