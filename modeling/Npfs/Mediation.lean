import Npfs.FailedRequest
import Npfs.Transition

/-!
# Who the file server works for

A server with a `checkauth` function, over runs of requests of every kind: the functions of the file
server are called only for fids of users that `checkauth` has cleared, as long as no request but
`Tread`, `Twrite` and `Tclunk` names an auth fid.  The other handlers do not look for `Qtauth`.
-/

namespace Npfs.Mediation

open Serve Program

variable {Aux World α β : Type}

/-! ## Runs that obey -/

section Obeys

variable (env : Env Aux World) (ok : Op → Session Aux World → Prop)

/-- Every operation of the run is `ok` where it is performed, and its end satisfies `post`. -/
def Obeys (post : α → Session Aux World → Prop) (program : Serve α) (s : Session Aux World) :
    Prop :=
  (∀ event ∈ program.events (exec env) s, ok event.1 event.2) ∧ Ensures (exec env) post program s

variable {env ok} {s : Session Aux World} {program : Serve α}

theorem obeys_done {post : α → Session Aux World → Prop} {result : α} (last : post result s) :
    Obeys env ok post (.done result) s := ⟨by simp, last⟩

theorem obeys_bind {post : β → Session Aux World → Prop} {rest : α → Serve β}
    (first : ∀ event ∈ program.events (exec env) s, ok event.1 event.2)
    (onward : Obeys env ok post (rest (program.run (exec env) s).1) (program.run (exec env) s).2) :
    Obeys env ok post (program >>= rest) s := by
  refine ⟨?_, ensures_bind.mpr onward.2⟩
  rw [events_bind]
  intro event member
  rcases List.mem_append.mp member with member | member
  · exact first event member
  · exact onward.1 event member

theorem Obeys.bind {middle : α → Session Aux World → Prop} {post : β → Session Aux World → Prop}
    {rest : α → Serve β} (first : Obeys env ok middle program s)
    (onward : ∀ result s', middle result s' → Obeys env ok post (rest result) s') :
    Obeys env ok post (program >>= rest) s :=
  obeys_bind first.1 (onward _ _ first.2)

theorem obeys_step {post : α → Session Aux World → Prop} {op : Op} {next : op.Reply → Serve α}
    (now : ok op s) (later : Obeys env ok post (next (exec env op s).1) (exec env op s).2) :
    Obeys env ok post (.step op next) s := by
  refine ⟨fun event member => ?_, later.2⟩
  rcases List.mem_cons.mp member with rfl | member
  · exact now
  · exact later.1 event member

theorem Obeys.mono {post weaker : α → Session Aux World → Prop} (obeys : Obeys env ok post program s)
    (weaken : ∀ result s', post result s' → weaker result s') : Obeys env ok weaker program s :=
  ⟨obeys.1, obeys.2.mono weaken⟩

/-- What always happens, where each operation keeps an invariant. -/
theorem Obeys.of_always {possible : (op : Op) → op.Reply → Prop} {allowed : Op → Prop}
    {inv : Session Aux World → Prop} (always : program.Always possible allowed fun _ => True)
    (steps : ∀ op s, inv s → allowed op →
      ok op s ∧ possible op (exec env op s).1 ∧ inv (exec env op s).2) (initially : inv s) :
    Obeys env ok (fun _ s' => inv s') program s := by
  induction program generalizing s with
  | done result => exact obeys_done initially
  | step op next ih =>
      obtain ⟨now, replied, kept⟩ := steps op s initially always.1
      exact obeys_step now (ih _ (always.2 _ replied) kept)

end Obeys

/-! ## The calls of the file server -/

/-- The fids that a function of the file server works on. -/
def served : Callback → List FidPtr
  | .clone fid newfid | .xattrwalk fid newfid _ | .rename fid newfid _ | .link newfid fid _
  | .renameat fid _ newfid _ => [fid, newfid]
  | .attach fid _ _ _ | .walk fid _ | .openFid fid _ | .create fid _ _ _ _ | .read fid _ _
  | .write fid _ _ _ | .clunk fid | .remove fid | .stat fid | .wstat fid _ _ | .statfs fid
  | .lopen fid _ | .lcreate fid _ _ _ _ | .symlink fid _ _ _ | .mknod fid _ _ _ _ _
  | .readlink fid | .getattr fid _ | .setattr fid _ | .xattrcreate fid _ _ _ | .xattrread fid _ _
  | .xattrwrite fid _ _ _ | .readdir fid _ _ | .fsync fid | .flock fid _ _ _ _ _ _
  | .getlock fid _ _ _ _ _ | .mkdir fid _ _ _ | .unlinkat fid _ => [fid]
  | .fiddestroy _ | .startauth .. | .checkauth .. | .authRead .. | .authWrite .. | .authClunk _
  | .uname2user _ | .uid2user _ => []

variable (cleared : World → UserPtr → Prop)

/-- What `checkauth` says about a user stays said; when it refuses it says why and takes no
reference to the fid, and the functions at the end of a fid do not take an error back. -/
structure Vouches (env : Env Aux World) (cleared : World → UserPtr → Prop) : Prop where
  call : ∀ callback fids world user, cleared world user →
    cleared (env.answer callback fids world).world user
  malloc : ∀ world user, cleared world user → cleared (env.malloc world).2 user
  flush : ∀ oldtag world user, cleared world user → cleared (env.flush oldtag world).2 user
  reset : ∀ fids world user, cleared world user → cleared (env.reset fids world) user
  checked : ∀ fid afid aname fids world f user, fids fid = some f → f.user = some user →
    (env.answer (.checkauth fid afid aname) fids world).reply = true →
      cleared (env.answer (.checkauth fid afid aname) fids world).world user
  refused : ∀ fid afid aname fids world,
    (env.answer (.checkauth fid afid aname) fids world).reply = false →
      (env.answer (.checkauth fid afid aname) fids world).takesRef = false ∧
        ∃ error, (env.answer (.checkauth fid afid aname) fids world).error = some (some error)
  ended : ∀ callback fid fids world, callback = .authClunk fid ∨ callback = .fiddestroy fid →
    (env.answer callback fids world).error ≠ some none

/-- The user of the fid, if it has one, is cleared. -/
def Cleared (s : Session Aux World) (fid : FidPtr) : Prop :=
  ∀ f user, s.fids.get fid = some f → f.user = some user → cleared s.world user

/-- The fid is an auth fid, or its user is cleared. -/
def Guarded (s : Session Aux World) (fid : FidPtr) : Prop :=
  ∀ f, s.fids.get fid = some f → f.type &&& Qtauth ≠ 0 ∨ Cleared cleared s fid

/-- The file server works for users that are cleared. -/
def Mediated (op : Op) (s : Session Aux World) : Prop :=
  ∀ callback, op = .call callback → ∀ fid ∈ served callback, Cleared cleared s fid

theorem mediated_of_ne {cleared : World → UserPtr → Prop} {op : Op} {s : Session Aux World}
    (plain : ∀ callback, op ≠ .call callback) : Mediated cleared op s :=
  fun callback same => absurd same (plain callback)

theorem mediated_call {cleared : World → UserPtr → Prop} {callback : Callback}
    {s : Session Aux World} : Mediated cleared (.call callback) s ↔
      ∀ fid ∈ served callback, Cleared cleared s fid := by
  constructor
  · exact fun mediated => mediated callback rfl
  · rintro holds _ ⟨⟩
    exact holds

/-! ## What an operation does -/

section Operations

variable {cleared} {env : Env Aux World} {s : Session Aux World} {op : Op} {fid : FidPtr}
  {user : UserPtr}

/-- A load says at most that it went wrong. -/
theorem load_eq {γ : Type} (p : FidPtr) (field : Npfid Aux → γ) (junk : γ) :
    (s.load p field junk).2 = { s with fault := (s.load p field junk).2.fault } := by
  unfold Session.load
  split <;> rfl

theorem cleared_exec (vouches : Vouches env cleared) (held : cleared s.world user) (op : Op) :
    cleared (exec env op s).2.world user := by
  cases op with
  | fidCreate n =>
      simp only [exec]
      split <;> exact held
  | fidUnlink p =>
      simp only [exec]
      split
      · split <;> exact held
      · exact held
  | userIncref u => cases u <;> exact held
  | omode p | type p | diroffset p | user p =>
      rw [exec, load_eq]
      exact held
  | connReset msize dotu dotl => exact vouches.reset _ _ _ held
  | flush oldtag => exact vouches.flush _ _ _ held
  | malloc => exact vouches.malloc _ _ held
  | call callback =>
      have kept := vouches.call callback s.fids.get _ _ held
      simp only [exec, Session.afterCall]
      split <;> exact kept
  | _ => exact held

/-- A fid after an assignment. -/
theorem found_modify {p : FidPtr} {change : Npfid Aux → Npfid Aux} {f' : Npfid Aux}
    (live : (s.modify p change).fids.get fid = some f') :
    ∃ f, s.fids.get fid = some f ∧ (f' = f ∨ fid = p ∧ f' = change f) := by
  rw [Session.modify, Cells.get_modify] at live
  split_ifs at live with same
  · obtain ⟨f, before, rfl⟩ := Option.map_eq_some_iff.mp live
    exact ⟨f, same ▸ before, .inr ⟨same, rfl⟩⟩
  · exact ⟨f', live, .inl rfl⟩

/-- Where the user and the type of a fid come from. -/
theorem found_exec {f' : Npfid Aux} (live : (exec env op s).2.fids.get fid = some f') :
    (∃ f, s.fids.get fid = some f ∧
      (f'.user = f.user ∨ ∃ user, op = .setUser fid user ∧ f'.user = user) ∧
      (f'.type = f.type ∨ ∃ type, op = .setType fid type)) ∨ f'.user = none := by
  have modified {p : FidPtr} {change : Npfid Aux → Npfid Aux}
      (live : (s.modify p change).fids.get fid = some f')
      (user : ∀ f, (change f).user = f.user) (type : ∀ f, (change f).type = f.type) :
      ∃ f, s.fids.get fid = some f ∧
        (f'.user = f.user ∨ ∃ user, op = .setUser fid user ∧ f'.user = user) ∧
        (f'.type = f.type ∨ ∃ type, op = .setType fid type) := by
    obtain ⟨f, before, rfl | ⟨-, rfl⟩⟩ := found_modify live
    · exact ⟨_, before, .inl rfl, .inl rfl⟩
    · exact ⟨f, before, .inl (user f), .inl (type f)⟩
  have same (live : s.fids.get fid = some f') : (∃ f, s.fids.get fid = some f ∧
      (f'.user = f.user ∨ ∃ user, op = .setUser fid user ∧ f'.user = user) ∧
      (f'.type = f.type ∨ ∃ type, op = .setType fid type)) ∨ f'.user = none :=
    .inl ⟨f', live, .inl rfl, .inl rfl⟩
  cases op with
  | fidCreate n =>
      simp only [exec] at live
      split at live
      · exact same live
      · rw [Cells.get_push] at live
        split_ifs at live
        · obtain rfl := Option.some.inj live
          exact .inr rfl
        · exact same live
  | fidUnlink p =>
      simp only [exec] at live
      split at live
      · split at live <;> exact same live
      · exact same live
  | fidFree p =>
      rw [exec, Cells.get_free] at live
      split_ifs at live
      exact same live
  | fidIncref p | fidDecref p | setOmode p _ | setDiroffset p _ =>
      exact .inl (modified live (fun _ => rfl) fun _ => rfl)
  | setType p type =>
      obtain ⟨f, before, rfl | ⟨rfl, rfl⟩⟩ := found_modify live
      · exact .inl ⟨_, before, .inl rfl, .inl rfl⟩
      · exact .inl ⟨f, before, .inl rfl, .inr ⟨type, rfl⟩⟩
  | setUser p user =>
      obtain ⟨f, before, rfl | ⟨rfl, rfl⟩⟩ := found_modify live
      · exact .inl ⟨_, before, .inl rfl, .inl rfl⟩
      · exact .inl ⟨f, before, .inr ⟨user, rfl, rfl⟩, .inl rfl⟩
  | userIncref user => cases user <;> exact same live
  | omode p | type p | diroffset p | user p =>
      rw [exec, load_eq] at live
      exact same live
  | connReset msize dotu dotl => simp [exec] at live
  | call callback =>
      simp only [exec, Session.afterCall] at live
      split at live
      · exact same live
      · exact .inl (modified live (fun _ => rfl) fun _ => rfl)
  | _ => exact same live

/-- Only `np_fid_create` gives a number to a fid. -/
theorem pool_exec {n : UInt32} (uncreated : ∀ n, op ≠ .fidCreate n)
    (found : (exec env op s).2.pool n = some fid) : s.pool n = some fid := by
  cases op with
  | fidCreate m => exact absurd rfl (uncreated m)
  | fidUnlink p =>
      simp only [exec] at found
      split at found
      · split at found
        · simp only [Function.update_apply] at found
          split_ifs at found
          exact found
        · exact found
      · exact found
  | userIncref user => cases user <;> exact found
  | omode p | type p | diroffset p | user p =>
      rw [exec, load_eq] at found
      exact found
  | connReset msize dotu dotl => cases found
  | call callback =>
      simp only [exec, Session.afterCall] at found
      split at found <;> exact found
  | _ => exact found

/-- The operation gives the fid no user that is not cleared. -/
theorem Cleared.exec (held : Cleared cleared s fid) (vouches : Vouches env cleared)
    (given : ∀ user, op = .setUser fid (some user) → cleared s.world user) :
    Cleared cleared (exec env op s).2 fid := by
  intro f' user live same
  apply cleared_exec vouches
  rcases found_exec live with ⟨f, before, kept | ⟨user', set, got⟩, -⟩ | none
  · exact held f user before (kept.symm.trans same)
  · rw [got] at same
    exact given user (same ▸ set)
  · rw [none] at same
    cases same

theorem Guarded.exec (held : Guarded cleared s fid) (vouches : Vouches env cleared)
    (given : ∀ user, op = .setUser fid (some user) → cleared s.world user)
    (typed : ∀ type, op = .setType fid type → Cleared cleared s fid) :
    Guarded cleared (exec env op s).2 fid := by
  intro f' live
  rcases found_exec live with ⟨f, before, -, kept | ⟨type, set⟩⟩ | none
  · rcases held f before with auth | known
    · exact .inl (kept ▸ auth)
    · exact .inr (known.exec vouches given)
  · exact .inr ((typed type set).exec vouches given)
  · right
    intro f'' user live' same
    rw [live] at live'
    obtain rfl := Option.some.inj live'
    rw [none] at same
    cases same

end Operations

/-! ## Programs that work for known fids -/

/-- Every fid is guarded, these users are cleared, these fids are theirs, and these numbers stand for
such fids. -/
structure Safe (names : List UInt32) (known : FidPtr → Prop) (users : UserPtr → Prop)
    (s : Session Aux World) : Prop where
  guarded : ∀ fid, Guarded cleared s fid
  cleared : ∀ user, users user → cleared s.world user
  owned : ∀ fid, known fid → ∀ f user, s.fids.get fid = some f → f.user = some user → users user
  found : ∀ n ∈ names, ∀ fid, s.pool n = some fid → known fid

/-- The operation is about known fids if it sets a type or calls the file server, about these users
if it sets one, and it gives out no numbers. -/
def Allowed (known : FidPtr → Prop) (users : UserPtr → Prop) : Op → Prop
  | .setType fid _ => known fid
  | .setUser _ user => ∀ ptr ∈ user, users ptr
  | .fidCreate _ => False
  | .call callback => ∀ fid ∈ served callback, known fid
  | _ => True

/-- These numbers stand for known fids, which are of these users. -/
def Possible (names : List UInt32) (known : FidPtr → Prop) (users : UserPtr → Prop) :
    (op : Op) → op.Reply → Prop
  | .fidFind n, fid => n ∈ names → ∀ ptr, fid = some ptr → known ptr
  | .user fid, user => known fid → ∀ ptr, user = some ptr → users ptr
  | _, _ => True

/-- The program works for known fids and for these users. -/
def Works (names : List UInt32) (known : FidPtr → Prop) (users : UserPtr → Prop)
    (program : Serve α) : Prop :=
  program.Always (Possible names known users) (Allowed known users) fun _ => True

section Works

variable {cleared} {env : Env Aux World} {s : Session Aux World} {names : List UInt32}
  {known : FidPtr → Prop} {users : UserPtr → Prop} {program : Serve α}

theorem Safe.clears (safe : Safe cleared names known users s) {fid : FidPtr} (member : known fid) :
    Cleared cleared s fid :=
  fun f user live same => safe.cleared user (safe.owned fid member f user live same)

theorem Safe.exec (safe : Safe cleared names known users s) (vouches : Vouches env cleared)
    {op : Op} (allowed : Allowed known users op) :
    Safe cleared names known users (exec env op s).2 := by
  have given (fid : FidPtr) (user : UserPtr) (set : op = .setUser fid (some user)) :
      users user := by
    rw [set] at allowed
    exact allowed user rfl
  have uncreated (n : UInt32) : op ≠ .fidCreate n := by
    rintro rfl
    exact allowed
  refine ⟨fun fid => ?_, fun user member => ?_, fun fid member => ?_, fun n member fid found => ?_⟩
  · refine (safe.guarded fid).exec vouches (fun user set => safe.cleared user (given fid user set))
      fun type set => ?_
    rw [set] at allowed
    exact safe.clears allowed
  · exact cleared_exec vouches (safe.cleared user member) op
  · intro f' user live same
    rcases found_exec live with ⟨f, before, kept | ⟨user', set, got⟩, -⟩ | none
    · exact safe.owned fid member f user before (kept.symm.trans same)
    · rw [got] at same
      exact given fid user (same ▸ set)
    · rw [none] at same
      cases same
  · exact safe.found n member fid (pool_exec uncreated found)

theorem Safe.mediated (safe : Safe cleared names known users s) {op : Op}
    (allowed : Allowed known users op) : Mediated cleared op s := by
  rintro callback rfl fid member
  exact safe.clears (allowed fid member)

theorem Safe.possible (safe : Safe cleared names known users s) (env : Env Aux World) (op : Op) :
    Possible names known users op (Npfs.exec env op s).1 := by
  cases op with
  | fidFind n => exact fun member fid found => safe.found n member fid found
  | user fid =>
      intro member ptr same
      simp only [Npfs.exec, Session.load] at same
      split at same
      · next f live => exact safe.owned fid member f ptr live same
      · cases same
  | _ => trivial

theorem Works.obeys (works : Works names known users program) (vouches : Vouches env cleared)
    (safe : Safe cleared names known users s) :
    Obeys env (Mediated cleared) (fun _ s' => Safe cleared names known users s') program s :=
  Obeys.of_always works
    (fun op _ safe allowed => ⟨safe.mediated allowed, safe.possible env op, safe.exec vouches allowed⟩)
    safe

end Works

/-! ## The handlers that only look fids up -/

/-- The numbers of the fids that a request works on, but for `Tread`, `Twrite` and `Tclunk`. -/
def directs (i : ℕ) (tc : Npfcall) : List UInt32 :=
  match i with
  | 16 => [tc.dfid]
  | 20 | 70 => [tc.fid, tc.dfid]
  | 74 => [tc.fid, tc.newfid]
  | 100 | 102 | 104 | 108 | 116 | 118 | 120 => []
  | _ => [tc.fid]

section Handlers

variable {names : List UInt32} {known : FidPtr → Prop} {users : UserPtr → Prop}
  {fid dfid : FidPtr} {n : UInt32} {tc : Npfcall}

@[simp] theorem allowed_call {callback : Callback} :
    Allowed known users (.call callback) ↔ ∀ fid ∈ served callback, known fid := Iff.rfl

@[simp] theorem allowed_setType {type : UInt16} :
    Allowed known users (.setType fid type) ↔ known fid := Iff.rfl

@[simp] theorem possible_fidFind {reply : Option FidPtr} :
    Possible names known users (.fidFind n) reply ↔
      (n ∈ names → ∀ ptr, reply = some ptr → known ptr) := Iff.rfl

@[simp] theorem always_works_npFidDecref {fid : Option FidPtr} {post : Unit → Prop} :
    (npFidDecref fid).Always (Possible names known users) (Allowed known users) post ↔
      post () := by
  constructor
  · intro always
    cases fid with
    | none => exact always
    | some fid => exact always.2 1 trivial
  · refine always_npFidDecref fun ptr _ op ops => ?_
    cases op with
    | call callback => rcases ops with rfl | rfl <;> exact fun _ none => nomatch none
    | setType | setUser | fidCreate => exact ops.elim
    | _ => trivial

theorem works_call {callback : Callback} (about : ∀ fid ∈ served callback, known fid) :
    Works names known users (call callback) := ⟨about, fun _ _ => trivial⟩

theorem works_npVersion (tc : Npfcall) : Works names known users (npVersion tc) := by
  simp [Works, npVersion, npDefaultVersion, Allowed]
  intro _ srv conn _
  cases chosenVersion srv (tc.text tc.version) <;> simp [Allowed]

theorem works_npFidFind {rest : Option FidPtr → Serve (Option Npfcall)}
    (missing : Works names known users (rest none))
    (found : ∀ fid, (n ∈ names → known fid) → Works names known users (rest (some fid))) :
    Works names known users (npFidFind n >>= rest) := by
  rw [Works, always_bind, always_npFidFind]
  refine ⟨trivial, fun fid named => ?_⟩
  cases fid with
  | none => exact missing
  | some fid => exact found fid fun member => named member fid rfl

theorem works_withFid {rest : FidPtr → Serve (Option Npfcall)}
    (found : ∀ fid, (n ∈ names → known fid) → Works names known users (rest fid)) :
    Works names known users (withFid n rest) := by
  refine works_npFidFind (by simp [Works, Allowed]) fun fid member => ?_
  have works := found fid member
  rw [Works] at works
  simp [Works, Allowed, works]

/-- The handlers that look the fids of the request up, and no others. -/
theorem npFcalls_works {i : ℕ} {f : Npfcall → Serve (Option Npfcall)}
    (listed : npFcalls i = some f) (tc : Npfcall) :
    i ∈ [30, 102, 104, 110, 116, 118, 120] ∨ Works (directs i tc) known users (f tc) := by
  unfold npFcalls at listed
  split at listed <;> cases listed <;> first
    | exact .inl (by decide)
    | refine .inr (works_withFid fun fid member => ?_)
      have mine : known fid := member (by simp [directs])
      simp [Works, inDirectory, call, Option.forall, Allowed, served, mine]
      done
    -- the handlers with a second fid
    | refine .inr (works_withFid fun fid member => ?_)
      have mine : known fid := member (by simp [directs])
      simp +contextual [Works, inDirectory, call, Option.forall, Allowed, served, directs, mine]
    -- `np_link` and `np_unlinkat` store `req->fid` only after their tests
    | refine .inr (works_npFidFind (by simp [Works, Allowed]) fun fid member => ?_)
      have mine : known fid := member (by simp [directs])
      simp +contextual [Works, inDirectory, call, Option.forall, Allowed, served, directs, mine]
    | refine .inr ?_
      simp [Works, npFlush, Allowed]
      done
    | exact .inr (works_npVersion tc)

end Handlers

/-! ## The handlers that look at the type -/

section Typed

variable {cleared} {env : Env Aux World} {s : Session Aux World} {names : List UInt32}
  {known : FidPtr → Prop} {users : UserPtr → Prop} {fid : FidPtr} {n : UInt32}

/-- Every fid is guarded. -/
def Secure (cleared : World → UserPtr → Prop) (s : Session Aux World) : Prop :=
  ∀ fid, Guarded cleared s fid

theorem Secure.safe (secure : Secure cleared s)
    (direct : ∀ n ∈ names, ∀ fid, s.pool n = some fid → Cleared cleared s fid) :
    Safe cleared names (Cleared cleared s) (cleared s.world) s :=
  ⟨secure, fun _ => id, fun _ => id, direct⟩

theorem Secure.unnamed (secure : Secure cleared s) :
    Safe cleared [] (Cleared cleared s) (cleared s.world) s :=
  secure.safe (by simp)

/-- The program keeps every fid guarded, and the file server works for users that are cleared. -/
def Obedient (env : Env Aux World) (cleared : World → UserPtr → Prop) (program : Serve α)
    (s : Session Aux World) : Prop :=
  Obeys env (Mediated cleared) (fun _ s' => Secure cleared s') program s

theorem Secure.works {program : Serve α} (secure : Secure cleared s) (vouches : Vouches env cleared)
    (works : ∀ known users, Works [] known users program) : Obedient env cleared program s :=
  ((works _ _).obeys vouches secure.unnamed).mono fun _ _ safe => safe.guarded

theorem Safe.obedient {program : Serve α} (safe : Safe cleared names known users s)
    (vouches : Vouches env cleared) (works : Works names known users program) :
    Obedient env cleared program s :=
  (works.obeys vouches safe).mono fun _ _ safe => safe.guarded

theorem Safe.bind {first : Serve α} {rest : α → Serve β}
    (safe : Safe cleared names known users s) (vouches : Vouches env cleared)
    (works : Works names known users first)
    (onward : ∀ result s', Safe cleared names known users s' →
      Obedient env cleared (rest result) s') : Obedient env cleared (first >>= rest) s :=
  (works.obeys vouches safe).bind onward

theorem obeys_npFidFind {post : α → Session Aux World → Prop} {rest : Option FidPtr → Serve α}
    (later : Obeys env (Mediated cleared) post (rest (s.pool n)) s) :
    Obeys env (Mediated cleared) post (npFidFind n >>= rest) s := by
  refine obeys_step ?_ later
  exact mediated_of_ne (by simp)

/-- A handler that looks the fid of the request up. -/
theorem Safe.withFid {rest : FidPtr → Serve (Option Npfcall)}
    (safe : Safe cleared names known users s) (vouches : Vouches env cleared)
    (onward : ∀ fid s', (n ∈ names → known fid) → Safe cleared names known users s' →
      Obedient env cleared (rest fid) s') :
    Obedient env cleared (withFid n rest) s := by
  apply obeys_npFidFind
  cases looked : s.pool n with
  | none =>
      apply safe.obedient vouches
      simp [Works, Allowed]
  | some fid =>
      refine safe.bind vouches ?_ fun _ s' safe' => safe'.bind vouches ?_ fun _ s' safe' =>
        onward fid s' (fun member => safe.found n member fid looked) safe'
      · simp [Works, Allowed]
      · simp [Works, Allowed]

theorem Secure.withFid {rest : FidPtr → Serve (Option Npfcall)} (secure : Secure cleared s)
    (vouches : Vouches env cleared)
    (onward : ∀ fid s', Secure cleared s' → Obedient env cleared (rest fid) s') :
    Obedient env cleared (withFid n rest) s :=
  secure.unnamed.withFid vouches fun fid s' _ safe => onward fid s' safe.guarded

/-- A fid whose type is not that of an auth fid is cleared. -/
theorem Secure.typed {rest : UInt16 → Serve α} (secure : Secure cleared s)
    (vouches : Vouches env cleared)
    (works : ∀ known users type, (type &&& Qtauth = 0 → known fid) →
      Works [] known users (rest type)) : Obedient env cleared (Serve.type fid >>= rest) s := by
  have kept : Secure cleared (exec env (.type fid) s).2 :=
    fun fid => (secure fid).exec vouches (by simp) (by simp)
  have plain (zero : (exec env (.type fid) s).1 &&& Qtauth = 0) :
      Cleared cleared (exec env (.type fid) s).2 fid := by
    simp only [exec, Session.load] at zero ⊢
    split at zero
    · next f live => exact (secure fid f live).resolve_left (not_not_intro zero)
    · next dead =>
      intro f user live
      rw [dead] at live
      cases live
  exact obeys_step (mediated_of_ne (by simp))
    (((works _ _ _ plain).obeys vouches kept.unnamed).mono fun _ _ safe => safe.guarded)

theorem works_npReadAuth (known : FidPtr → Prop) (users : UserPtr → Prop) (tc : Npfcall) :
    Works names known users (npReadAuth tc fid) := by
  simp [Works, npReadAuth, call, Allowed, Possible]
  intro srv _ heap
  cases npAllocRread tc.count heap <;> simp [Allowed, served]

theorem Secure.npRead (secure : Secure cleared s) (vouches : Vouches env cleared) (tc : Npfcall) :
    Obedient env cleared (npRead tc) s := by
  refine secure.withFid vouches fun fid s secure => obeys_step (mediated_of_ne (by simp)) ?_
  have kept : Secure cleared (exec env .conn s).2 := secure
  change Obedient env cleared (if _ then _ else _) _
  split_ifs
  · apply kept.works vouches
    simp [Works, Allowed]
  · refine kept.typed vouches fun known users type plain => ?_
    rw [Works, always_ite]
    split_ifs with auth xattr
    · exact works_npReadAuth known users tc
    · simp [call, served, plain (not_not.mp auth)]
    · simp [call, Allowed, served, plain (not_not.mp auth)]

theorem Secure.npWrite (secure : Secure cleared s) (vouches : Vouches env cleared) (tc : Npfcall) :
    Obedient env cleared (npWrite tc) s := by
  refine secure.withFid vouches fun fid s secure =>
    secure.typed vouches fun known users type plain => ?_
  simp +contextual [Works, call, Allowed, served, plain]

theorem Secure.npClunk (secure : Secure cleared s) (vouches : Vouches env cleared) (tc : Npfcall) :
    Obedient env cleared (npClunk tc) s := by
  refine secure.withFid vouches fun fid s secure =>
    secure.typed vouches fun known users type plain => ?_
  simp +contextual [Works, npClunked, call, Option.forall, Allowed, served, plain]

end Typed

/-! ## The handlers that make a fid -/

section Makers

variable {cleared} {env : Env Aux World} {s : Session Aux World} {names : List UInt32}
  {known : FidPtr → Prop} {users : UserPtr → Prop} {fid : FidPtr} {n : UInt32} {tc : Npfcall}

/-- A new fid has no user. -/
theorem Safe.made (safe : Safe cleared names known users s) (env : Env Aux World)
    (absent : s.pool n = none) : Safe cleared [] (fun fid => known fid ∨ fid = s.fids.next) users
      ((npFidCreate n).run (Npfs.exec env) s).2 := by
  rw [run_npFidCreate absent]
  have found {fid : FidPtr} {f : Npfid Aux} (live : (s.fids.push (.new n)).get fid = some f) :
      s.fids.get fid = some f ∨ f.user = none := by
    rw [Cells.get_push] at live
    split_ifs at live
    · obtain rfl := Option.some.inj live
      exact .inr rfl
    · exact .inl live
  refine ⟨fun fid f live => ?_, safe.cleared, fun fid member f user live same => ?_, nofun⟩
  · rcases found live with old | unowned
    · rcases safe.guarded fid f old with auth | held
      · exact .inl auth
      · refine .inr fun f' user live' same => ?_
        obtain rfl := Option.some.inj (live.symm.trans live')
        exact held f user old same
    · refine .inr fun f' user live' same => ?_
      obtain rfl := Option.some.inj (live.symm.trans live')
      rw [unowned] at same
      cases same
  · rcases found live with old | unowned
    · rcases member with member | rfl
      · exact safe.owned fid member f user old same
      · have below := Cells.lt_of_get old
        exact absurd below (lt_irrefl _)
    · rw [unowned] at same
      cases same

theorem Safe.looked {rest : Option FidPtr → Serve α} (safe : Safe cleared names known users s)
    (vouches : Vouches env cleared) (present : ∀ fid, Works names known users (rest (some fid)))
    (absent : s.pool n = none → Obedient env cleared (rest none) s) :
    Obedient env cleared (npFidFind n >>= rest) s := by
  apply obeys_npFidFind
  cases looked : s.pool n with
  | none => exact absent looked
  | some fid => exact safe.obedient vouches (present fid)

theorem obeys_npFidCreate {post : α → Session Aux World → Prop} {rest : Option FidPtr → Serve α}
    (absent : s.pool n = none)
    (later : Obeys env (Mediated cleared) post (rest (some s.fids.next))
      ((npFidCreate n).run (exec env) s).2) :
    Obeys env (Mediated cleared) post (npFidCreate n >>= rest) s := by
  have made : ((npFidCreate n).run (exec env) s).1 = some s.fids.next := by
    rw [run_npFidCreate absent]
  rw [← made] at later
  refine obeys_step ?_ later
  exact mediated_of_ne (by simp)

theorem works_npWalkNames (member : known fid) (wnames : List (List UInt8)) :
    Works names known users (npWalkNames fid wnames) := by
  induction wnames with
  | nil => trivial
  | cons wname wnames ih =>
      simp [Works, npWalkNames, call, Option.forall, Allowed, Possible, served, member]
      exact fun _ _ => ih

theorem works_npWalkFrom (member : known fid) : Works names known users (npWalkFrom tc fid) := by
  simp [Works, npWalkFrom, Allowed, Possible]
  exact works_npWalkNames member _

theorem Safe.npXattrwalk (safe : Safe cleared [tc.fid] known users s)
    (vouches : Vouches env cleared) : Obedient env cleared (npXattrwalk tc) s := by
  refine safe.withFid vouches fun fid s' named safe => ?_
  have member := named (by simp)
  refine safe.looked vouches (fun _ => ?_) fun absent => ?_
  · simp [Works, Allowed]
  apply obeys_npFidCreate absent
  apply (safe.made env absent).obedient vouches
  simp [Works, call, Allowed, served, Possible, member]

theorem Safe.npWalk (safe : Safe cleared [tc.fid] known users s)
    (vouches : Vouches env cleared) : Obedient env cleared (npWalk tc) s := by
  refine safe.withFid vouches fun fid s' named safe => ?_
  have member := named (by simp)
  refine safe.bind vouches (by simp [Works, Allowed]) fun omode s' safe => ?_
  split_ifs
  · apply safe.obedient vouches
    simp [Works, Allowed]
  · apply safe.obedient vouches
    simp [Works, Allowed]
  · refine safe.looked vouches (fun _ => ?_) fun absent => ?_
    · simp [Works, Allowed]
    apply obeys_npFidCreate absent
    apply (safe.made env absent).obedient vouches
    have walks : Works [] (fun fid => known fid ∨ fid = s'.fids.next) users
        (npWalkFrom tc s'.fids.next) := works_npWalkFrom (.inr rfl)
    rw [Works] at walks
    simp [Works, call, Allowed, served, Possible, member, walks]
  · exact safe.obedient vouches (works_npWalkFrom member)

end Makers

/-! ## The handlers that name a user -/

section Users

variable {cleared} {env : Env Aux World} {s : Session Aux World} {p fid : FidPtr} {tc : Npfcall}

theorem works_npReqUser {names : List UInt32} {known : FidPtr → Prop} {users : UserPtr → Prop}
    (tc : Npfcall) : Works names known users (npReqUser tc) := by
  simp [Works, npReqUser, call, Option.forall, Allowed, served]

/-- An auth fid gets its type right behind its user. -/
theorem Secure.auth (secure : Secure cleared s) (vouches : Vouches env cleared)
    (user : Option UserPtr) : Secure cleared
      (exec env (.setType p Qtauth) (exec env (.setUser p user) s).2).2 := by
  intro fid
  by_cases same : fid = p
  · subst same
    intro f live
    change (Session.modify _ fid _).fids.get fid = some f at live
    rw [Session.modify, Cells.get_modify_self] at live
    obtain ⟨f', -, rfl⟩ := Option.map_eq_some_iff.mp live
    have flagged : Qtauth &&& Qtauth ≠ 0 := by decide
    exact .inl flagged
  · have other : p ≠ fid := Ne.symm same
    have given : Guarded cleared (exec env (.setUser p user) s).2 fid :=
      (secure fid).exec vouches (by simp [other]) (by simp)
    exact given.exec vouches (by simp) (by simp [other])

theorem Secure.npStartAuth (secure : Secure cleared s) (vouches : Vouches env cleared) :
    Obedient env cleared (npStartAuth tc p) s := by
  refine (secure.works vouches fun _ _ => works_npReqUser tc).bind fun user s secure => ?_
  cases user with
  | none => exact obeys_done secure
  | some user =>
      refine obeys_step (mediated_of_ne (by simp))
        (obeys_step (mediated_of_ne (by simp)) ?_)
      apply (secure.auth vouches (some user)).works vouches
      simp [Works, call, Option.forall, Allowed, served, Program.bind]

theorem Secure.npAuth (secure : Secure cleared s) (vouches : Vouches env cleared) :
    Obedient env cleared (npAuth tc) s := by
  have safe := secure.unnamed
  refine safe.looked vouches (fun _ => ?_) fun absent => ?_
  · simp [Works, Allowed]
  apply obeys_npFidCreate absent
  have made := (safe.made env absent).guarded
  refine (Secure.works made vouches fun _ _ => ?_).bind fun _ s secure =>
    (secure.npStartAuth vouches).bind fun rc s secure => ?_
  · simp [Works, Allowed]
  cases rc with
  | some rc => exact obeys_done secure
  | none =>
      apply secure.works vouches
      simp [Works]

/-- The fid of a `Tattach`, which only the request holds. -/
def Fresh (p : FidPtr) (s : Session Aux World) : Prop :=
  s.reqFid = some p ∧ ∃ f, s.fids.get p = some f ∧ f.refcount = 1

/-- `checkauth` has refused the user of the fid of the `Tattach`. -/
structure Refused (cleared : World → UserPtr → Prop) (p : FidPtr) (s : Session Aux World) :
    Prop where
  fresh : Fresh p s
  error : ∃ error, s.error = some error
  others : ∀ fid ≠ p, Guarded cleared s fid

/-- The operation leaves this fid and `req->fid` alone. -/
def Apart (p : FidPtr) : Op → Prop
  | .fidIncref fid | .fidDecref fid | .fidFree fid | .setOmode fid _ | .setType fid _
  | .setDiroffset fid _ | .setUser fid _ => fid ≠ p
  | .setReqFid _ | .connReset .. => False
  | .call callback => callback.target ≠ some p
  | _ => True

theorem Fresh.exec (fresh : Fresh p s) (env : Env Aux World) {op : Op} (apart : Apart p op) :
    Fresh p (exec env op s).2 := by
  have modified {fid : FidPtr} {change : Npfid Aux → Npfid Aux} (other : fid ≠ p) :
      Fresh p (s.modify fid change) := by
    obtain ⟨held, f, live, one⟩ := fresh
    exact ⟨held, f, (Cells.get_modify_ne other.symm).trans live, one⟩
  cases op with
  | fidCreate n =>
      simp only [Npfs.exec]
      split
      · exact fresh
      · obtain ⟨held, f, live, one⟩ := fresh
        refine ⟨held, f, ?_, one⟩
        rw [Cells.get_push, if_neg (Cells.lt_of_get live).ne, live]
  | fidUnlink fid =>
      simp only [Npfs.exec]
      split
      · split <;> exact fresh
      · exact fresh
  | fidFree fid =>
      obtain ⟨held, f, live, one⟩ := fresh
      exact ⟨held, f, (Cells.get_free_ne apart.symm).trans live, one⟩
  | fidIncref fid | fidDecref fid | setOmode fid | setDiroffset fid | setType fid | setUser fid =>
      exact modified apart
  | userIncref user => cases user <;> exact fresh
  | omode fid | type fid | diroffset fid | user fid =>
      rw [Npfs.exec, load_eq]
      exact fresh
  | setReqFid | connReset => exact apart.elim
  | call callback =>
      simp only [Npfs.exec, Session.afterCall]
      split
      · exact fresh
      · next fid target => exact modified fun same => apart (same ▸ target)
  | _ => exact fresh

theorem Fresh.run {program : Serve α} (fresh : Fresh p s) (env : Env Aux World)
    (apart : program.Always (fun _ _ => True) (Apart p) fun _ => True) :
    Fresh p (program.run (Npfs.exec env) s).2 :=
  (@Always.run _ _ _ _ _ _ _ _ _ (Fresh p) _ apart (fun _ _ _ _ => trivial)
    (fun _ _ held apart => Fresh.exec held env apart) fresh).2.1

theorem apart_of_decrefOps {op : Op} (ops : decrefOps fid op) (other : fid ≠ p) : Apart p op := by
  cases op with
  | call callback =>
      rcases ops with rfl | rfl <;> exact fun same => other (Option.some.inj same)
  | fidDecref fid' | fidFree fid' => exact fun same => other (ops ▸ same)
  | fidIncref | setOmode | setType | setDiroffset | setUser | setReqFid | connReset => exact ops.elim
  | _ => trivial

/-- What gives up a reference does not call the file server, and leaves users and types alone. -/
theorem allowed_of_decrefOps {op : Op} (ops : decrefOps fid op) :
    Allowed (fun _ => False) (fun _ => False) op := by
  cases op with
  | call callback => rcases ops with rfl | rfl <;> exact fun _ none => nomatch none
  | setType | setUser | fidCreate => exact ops.elim
  | _ => trivial

theorem error_of_decrefOps {op : Op} {error : Nperror} (ops : decrefOps fid op)
    (vouches : Vouches env cleared) (failed : s.error = some error) :
    ∃ error, (Npfs.exec env op s).2.error = some error := by
  cases op with
  | fidUnlink fid' =>
      simp only [Npfs.exec]
      split
      · split <;> exact ⟨error, failed⟩
      · exact ⟨error, failed⟩
  | type fid' | user fid' =>
      rw [Npfs.exec, load_eq]
      exact ⟨error, failed⟩
  | call callback =>
      have kept := vouches.ended callback fid s.fids.get s.world ops
      simp only [Npfs.exec, Session.afterCall]
      cases given : (env.answer callback s.fids.get s.world).error with
      | none => split <;> exact ⟨error, failed⟩
      | some later =>
          cases later with
          | none => exact absurd given kept
          | some later => split <;> exact ⟨later, rfl⟩
  | fidDecref | fidFree | srv | userDecref => exact ⟨error, failed⟩
  | _ => exact ops.elim

theorem Allowed.mediated {op : Op} (allowed : Allowed (fun _ => False) (fun _ => False) op) :
    Mediated cleared op s := by
  rintro callback rfl fid member
  exact (allowed fid member).elim

theorem Allowed.guarded {op : Op} (allowed : Allowed (fun _ => False) (fun _ => False) op)
    (vouches : Vouches env cleared) (held : Guarded cleared s fid) :
    Guarded cleared (Npfs.exec env op s).2 fid := by
  apply held.exec vouches
  · intro user set
    subst set
    exact (allowed user rfl).elim
  · intro type set
    subst set
    exact allowed.elim

/-- The fid of a `Tattach` when another fid ends. -/
theorem Refused.npFidDecref (refused : Refused cleared p s) (vouches : Vouches env cleared)
    (other : fid ≠ p) :
    Obeys env (Mediated cleared) (fun _ s' => Refused cleared p s') (npFidDecref (some fid)) s := by
  have always : (Serve.npFidDecref (some fid)).Always (fun _ _ => True) (decrefOps fid)
      fun _ => True := by
    refine always_npFidDecref (fun ptr same op ops => ?_) trivial
    exact Option.some.inj same ▸ ops
  refine Obeys.of_always always (fun op s refused ops => ?_) refused
  have allowed := allowed_of_decrefOps ops
  obtain ⟨error, failed⟩ := refused.error
  refine ⟨allowed.mediated, trivial, refused.fresh.exec env (apart_of_decrefOps ops other),
    error_of_decrefOps ops vouches failed, fun fid' apart => ?_⟩
  exact allowed.guarded vouches (refused.others fid' apart)

theorem Obedient.or {program : Serve α} {refused : Session Aux World → Prop}
    (obedient : Obedient env cleared program s) :
    Obeys env (Mediated cleared) (fun _ s' => Secure cleared s' ∨ refused s') program s :=
  obedient.mono fun _ _ => .inl

/-- A handler that has made the fid of a `Tattach` leaves it guarded, or `checkauth` has refused. -/
def Attaching (env : Env Aux World) (cleared : World → UserPtr → Prop) (p : FidPtr)
    (program : Serve α) (s : Session Aux World) : Prop :=
  Obeys env (Mediated cleared) (fun _ s' => Secure cleared s' ∨ Refused cleared p s') program s

theorem Obeys.and {post post' : α → Session Aux World → Prop}
    {ok : Op → Session Aux World → Prop} {program : Serve α} (obeys : Obeys env ok post program s)
    (ensures : Ensures (exec env) post' program s) :
    Obeys env ok (fun result s' => post result s' ∧ post' result s') program s :=
  ⟨obeys.1, obeys.2, ensures⟩

/-- `checkauth` has returned. -/
theorem Secure.checked (secure : ∀ fid ≠ p, Guarded cleared s fid) (vouches : Vouches env cleared)
    (fresh : Fresh p s) (afid : Option FidPtr) (aname : Option CStr) :
    let s' := (exec env (.call (.checkauth p afid aname)) s).2
    if (env.answer (.checkauth p afid aname) s.fids.get s.world).reply then
      Secure cleared s' ∧ Cleared cleared s' p
    else
      Refused cleared p s' := by
  obtain ⟨held, f, live, one⟩ := fresh
  have others (fid : FidPtr) (other : fid ≠ p) :
      Guarded cleared (exec env (.call (.checkauth p afid aname)) s).2 fid :=
    (secure fid other).exec vouches (by simp) (by simp)
  have found : (exec env (.call (.checkauth p afid aname)) s).2.fids.get p = some { f with
      aux := (env.answer (.checkauth p afid aname) s.fids.get s.world).aux
      refcount := f.refcount +
        if (env.answer (.checkauth p afid aname) s.fids.get s.world).takesRef then 1 else 0 } := by
    change (Session.modify _ p _).fids.get p = _
    simp [Session.modify, live]
  dsimp only
  split_ifs with checked
  · have known : Cleared cleared (exec env (.call (.checkauth p afid aname)) s).2 p := by
      intro f' user' live' same
      obtain rfl := Option.some.inj (found.symm.trans live')
      exact vouches.checked p afid aname s.fids.get s.world f user' live same checked
    refine ⟨fun fid => ?_, known⟩
    by_cases same : fid = p
    · rw [same]
      exact fun f' _ => .inr known
    · exact others fid same
  · have denied : (env.answer (.checkauth p afid aname) s.fids.get s.world).reply = false :=
      Bool.not_eq_true _ ▸ checked
    obtain ⟨free, error, failed⟩ := vouches.refused p afid aname s.fids.get s.world denied
    refine ⟨⟨held, _, found, by simp [free, one]⟩, ⟨error, ?_⟩, others⟩
    change (env.answer (.checkauth p afid aname) s.fids.get s.world).error.getD s.error = _
    rw [failed]
    rfl

/-- The settings of the server stay. -/
theorem run_settings (program : Serve α) (env : Env Aux World) (s : Session Aux World) :
    (program.run (exec env) s).2.srv = s.srv := by
  induction program generalizing s with
  | done result => rfl
  | step op next ih => exact (ih _ _).trans (exec_settings env op s).1

theorem Secure.npAttachUser (secure : Secure cleared s) (vouches : Vouches env cleared)
    (checks : s.srv.auth.any (·.checkauth) = true) (fresh : Fresh p s) (afid : Option FidPtr) :
    Attaching env cleared p (npAttachUser tc p afid) s := by
  have apart : (npReqUser tc).Always (fun _ _ => True) (Apart p) fun _ => True := by
    simp [npReqUser, call, Option.forall, Apart, Callback.target]
  have kept : Ensures (exec env) (fun _ s' => Fresh p s' ∧ s'.srv = s.srv) (npReqUser tc) s :=
    ⟨fresh.run env apart, run_settings _ env s⟩
  refine ((secure.works vouches fun _ _ => works_npReqUser tc).and kept).bind fun user s' named => ?_
  obtain ⟨secure, fresh, same⟩ := named
  cases user with
  | none => exact obeys_done (.inl secure)
  | some user =>
      rw [← same] at checks
      have others (fid : FidPtr) (other : fid ≠ p) :
          Guarded cleared (exec env (.setUser p (some user)) s').2 fid :=
        (secure fid).exec vouches (by simp [other.symm]) (by simp)
      have fresh' : Fresh p (exec env (.setUser p (some user)) s').2 := by
        obtain ⟨held, f, live, one⟩ := fresh
        refine ⟨held, { f with user := some user }, ?_, one⟩
        change (Session.modify _ p _).fids.get p = _
        simp [Session.modify, live]
      have after := Secure.checked others vouches fresh' afid (npReqAname tc)
      refine obeys_step (mediated_of_ne (by simp))
        (obeys_step (mediated_of_ne (by simp)) ?_)
      change Attaching env cleared p (if s'.srv.auth.any (·.checkauth) = true then
        call (.checkauth p afid (npReqAname tc)) >>= fun checked =>
          if checked = true then _ else _ else _) (exec env (.setUser p (some user)) s').2
      rw [if_pos checks]
      refine obeys_step (mediated_call.mpr (by simp [served])) ?_
      change Attaching env cleared p (if (env.answer (.checkauth p afid (npReqAname tc)) _ _).reply
        = true then _ else _) _
      split_ifs at after ⊢ with checked
      · obtain ⟨secure, known⟩ := after
        have safe := secure.unnamed
        have works : Obedient env cleared
            (call (.attach p afid (tc.text tc.uname) (tc.text tc.aname))) _ :=
          safe.obedient vouches (works_call (by simpa [served] using known))
        exact works.or
      · exact obeys_done (.inr after)

/-- `np_attach` behind the fid that it has made. -/
def npAttachFound (tc : Npfcall) (fid : FidPtr) : Serve (Option Npfcall) := do
  match ← npFidFind tc.afid with
  | none =>
    if tc.afid ≠ NOFID then
      fail Eunknownfid EIO
    else
      npAttachUser tc fid none
  | some afid =>
    let type ← type afid
    if type &&& Qtauth = 0 then
      npWerror Ebadusefid EIO
      npFidDecref (some afid)
      return none
    else
      npFidIncref (some afid)
      let rc ← npAttachUser tc fid (some afid)
      npFidDecref (some afid)
      return rc

theorem Secure.npAttachFound (secure : Secure cleared s) (vouches : Vouches env cleared)
    (checks : s.srv.auth.any (·.checkauth) = true) (fresh : Fresh p s)
    (plain : ∀ f, s.fids.get p = some f → f.type = 0) :
    Attaching env cleared p (npAttachFound tc p) s := by
  apply obeys_npFidFind
  cases looked : s.pool tc.afid with
  | none =>
      dsimp only
      split_ifs
      · apply Obedient.or
        apply secure.works vouches
        simp [Works, Allowed]
      · exact secure.npAttachUser vouches checks fresh none
  | some afid =>
      have idle {op : Op} {s : Session Aux World}
          (allowed : Allowed (fun _ => False) (fun _ => False) op) (secure : Secure cleared s) :
          Secure cleared (exec env op s).2 := fun fid => allowed.guarded vouches (secure fid)
      have typed : Secure cleared (exec env (.type afid) s).2 := idle trivial secure
      refine obeys_step (mediated_of_ne (by simp)) ?_
      change Attaching env cleared p (if (exec env (.type afid) s).1 &&& Qtauth = 0 then _ else _) _
      split_ifs with zero
      · apply Obedient.or
        apply typed.works vouches
        simp [Works, Allowed]
      · have other : afid ≠ p := by
          rintro rfl
          obtain ⟨-, f, live, -⟩ := fresh
          apply zero
          simp [exec, Session.load, live, plain f live]
        have counted : Secure cleared (exec env (.fidIncref afid) (exec env (.type afid) s).2).2 :=
          idle trivial typed
        have fresh' : Fresh p (exec env (.type afid) s).2 := fresh.exec env trivial
        have fresh'' : Fresh p (exec env (.fidIncref afid) (exec env (.type afid) s).2).2 :=
          fresh'.exec env other
        have checks' : (exec env (.fidIncref afid) (exec env (.type afid) s).2).2.srv.auth.any
            (·.checkauth) = true := by
          rw [(exec_settings env _ _).1, (exec_settings env _ _).1]
          exact checks
        refine obeys_step (mediated_of_ne (by simp)) ?_
        refine (counted.npAttachUser vouches checks' fresh'' (some afid)).bind
          fun rc s' outcome => ?_
        rcases outcome with secure | refused
        · apply Obedient.or
          apply secure.works vouches
          simp [Works]
        · exact (refused.npFidDecref vouches other).bind fun _ _ refused => obeys_done (.inr refused)

theorem Secure.npAttach (secure : Secure cleared s) (vouches : Vouches env cleared)
    (checks : s.srv.auth.any (·.checkauth) = true) :
    Obeys env (Mediated cleared) (fun _ s' => Secure cleared s' ∨ ∃ p, Refused cleared p s')
      (npAttach tc) s := by
  apply obeys_npFidFind
  cases absent : s.pool tc.fid with
  | some fid =>
      apply Obedient.or
      apply secure.works vouches
      simp [Works, Allowed]
  | none =>
      have safe := secure.unnamed
      apply obeys_npFidCreate absent
      have made := (safe.made env absent).guarded
      have live : ((npFidCreate tc.fid).run (exec env) s).2.fids.get s.fids.next =
          some (.new tc.fid) := by simp [run_npFidCreate absent]
      have settings : ((npFidCreate tc.fid).run (exec env) s).2.srv = s.srv :=
        run_settings _ env s
      generalize ((npFidCreate tc.fid).run (exec env) s).2 = s₁ at made live settings ⊢
      generalize s.fids.next = p at live ⊢
      refine obeys_step (mediated_of_ne (by simp))
        (obeys_step (mediated_of_ne (by simp)) ?_)
      have counted : (exec env (.setReqFid (some p)) (exec env (.fidIncref p) s₁).2).2.fids.get p =
          some (Npfid.addRef 1 (.new tc.fid)) := by
        change (Session.modify _ p _).fids.get p = _
        simp [Session.modify, live]
      have secure₁ : Secure cleared (exec env (.fidIncref p) s₁).2 :=
        fun fid => Allowed.guarded trivial vouches (made fid)
      have secure₂ : Secure cleared
          (exec env (.setReqFid (some p)) (exec env (.fidIncref p) s₁).2).2 :=
        fun fid => Allowed.guarded trivial vouches (secure₁ fid)
      refine Obeys.mono (secure₂.npAttachFound vouches ?_ ⟨rfl, _, counted, rfl⟩ ?_)
        fun _ _ => Or.imp_right fun refused => ⟨p, refused⟩
      · rw [(exec_settings env _ _).1, (exec_settings env _ _).1, settings]
        exact checks
      · intro f same
        obtain rfl := Option.some.inj (counted.symm.trans same)
        rfl

end Users

/-! ## Requests -/

section Requests

variable {cleared} {npErrnoToLinux : UInt32 → UInt32} {env : Env Aux World}
  {s s₀ : Session Aux World} {tc : Npfcall} {later : Option Npfcall}

/-- No request but `Tread`, `Twrite` and `Tclunk` names an auth fid. -/
def Direct (s : Session Aux World) (request : Npfcall × Option Npfcall) : Prop :=
  ∀ n ∈ directs (request.1.type.toNat / 2 * 2) request.1, ∀ fid f, s.pool n = some fid →
    s.fids.get fid = some f → f.type &&& Qtauth = 0

/-- A request is served. -/
def step (npErrnoToLinux : UInt32 → UInt32) (env : Env Aux World) (s : Session Aux World)
    (request : Npfcall × Option Npfcall) : Option (Session Aux World) :=
  some ((serve npErrnoToLinux request.1 request.2).run (exec env) s).2

theorem Secure.direct (secure : Secure cleared s) (direct : Direct s (tc, later)) :
    Safe cleared (directs (tc.type.toNat / 2 * 2) tc) (Cleared cleared s) (cleared s.world) s := by
  refine secure.safe fun n member fid found f user live same => ?_
  have plain := direct n member fid f found live
  exact ((secure fid f live).resolve_left (not_not_intro plain)) f user live same

theorem Secure.npHandle (secure : Secure cleared s) (vouches : Vouches env cleared)
    (checks : s.srv.auth.any (·.checkauth) = true) (direct : Direct s (tc, later)) :
    Obeys env (Mediated cleared) (fun _ s' => Secure cleared s' ∨ ∃ p, Refused cleared p s')
      (npHandle tc) s := by
  have safe := secure.direct direct
  unfold Npfs.npHandle npHandler
  split
  · next f named =>
    split_ifs at named
    rcases npFcalls_works named tc with special | works
    · generalize tc.type.toNat / 2 * 2 = i at named safe special
      simp only [List.mem_cons, List.not_mem_nil, or_false] at special
      rcases special with rfl | rfl | rfl | rfl | rfl | rfl | rfl <;> cases named
      · exact (safe.npXattrwalk vouches).or
      · exact (secure.npAuth vouches).or
      · exact secure.npAttach vouches checks
      · exact (safe.npWalk vouches).or
      · exact (secure.npRead vouches tc).or
      · exact (secure.npWrite vouches tc).or
      · exact (secure.npClunk vouches tc).or
    · exact (safe.obedient vouches works).or
  · apply Obedient.or
    apply secure.works vouches
    simp [Works, Allowed]

/-- What follows on the handler does not call the file server for a fid. -/
theorem works_finish {names : List UInt32} {known : FidPtr → Prop} {users : UserPtr → Prop}
    (tc : Npfcall) (later rc : Option Npfcall) :
    Works names known users (finish npErrnoToLinux tc later rc) := by
  have sent (rc : Option Npfcall) : Works names known users (sendReply tc rc) := by
    cases rc with
    | none => trivial
    | some rc => simp [Works, sendReply, npRespond, Option.forall, Allowed]
  simp only [Works, finish, errorReply, always_bind, always_npRerror]
  refine ⟨trivial, fun error _ => ?_⟩
  cases error with
  | none => exact sent _
  | some error =>
      simp only [always_bind, always_conn, always_ite, always_create]
      refine ⟨trivial, fun conn _ => ?_⟩
      split_ifs
      · exact ⟨trivial, fun _ _ => sent _⟩
      · exact ⟨trivial, fun _ _ => sent _⟩

theorem possible_none {op : Op} {users : UserPtr → Prop} {reply : op.Reply} :
    Possible [] (fun _ => False) users op reply := by
  cases op with
  | fidFind n => exact nofun
  | user fid => exact False.elim
  | _ => trivial

/-- The fid that `checkauth` has refused ends with its request. -/
theorem Refused.finish {p : FidPtr} (refused : Refused cleared p s) (vouches : Vouches env cleared)
    (later rc : Option Npfcall) : Obedient env cleared (Npfs.finish npErrnoToLinux tc later rc) s := by
  have works : Works [] (fun _ => False) (fun _ => False) (Npfs.finish npErrnoToLinux tc later rc) :=
    works_finish tc later rc
  have obeys : Obeys env (Mediated cleared) (fun _ s' => ∀ fid ≠ p, Guarded cleared s' fid)
      (Npfs.finish npErrnoToLinux tc later rc) s :=
    Obeys.of_always works (fun op s others allowed => ⟨allowed.mediated, possible_none,
      fun fid apart => allowed.guarded vouches (others fid apart)⟩) refused.others
  have fails : Fails s.error rc later := .inl refused.error
  obtain ⟨reply, world, -, run⟩ :=
    @finish_of_fails Aux World npErrnoToLinux env s tc later rc fails
  obtain ⟨held, f, live, one⟩ := refused.fresh
  have gone : ((Npfs.finish npErrnoToLinux tc later rc).run (exec env) s).2.fids.get p = none := by
    rw [run, held]
    exact get_npFidDecref_last live one
  refine ⟨obeys.1, fun fid => ?_⟩
  by_cases same : fid = p
  · intro f' live'
    rw [same, gone] at live'
    cases live'
  · exact obeys.2 fid same

theorem Secure.serve (secure : Secure cleared s) (vouches : Vouches env cleared)
    (checks : s.srv.auth.any (·.checkauth) = true) (direct : Direct s (tc, later)) :
    Obedient env cleared (serve npErrnoToLinux tc later) s := by
  rw [serve_eq]
  have clear : Secure cleared { s with error := none } := secure
  refine obeys_step (mediated_of_ne (by simp)) ?_
  refine (Secure.npHandle clear vouches checks direct).bind fun rc s' outcome => ?_
  rcases outcome with secure | ⟨p, refused⟩
  · exact secure.works vouches fun _ _ => works_finish tc later rc
  · exact refused.finish vouches later rc

/-- A connection without fids whose server has the functions of `srvauthp9any`. -/
def unattached : Session Unit Unit where
  srv := ⟨8216, true, true, some ⟨true, true, true⟩, false⟩
  conn := { msize := 8216, dotu := true, dotl := true }
  fids := Cells.empty
  pool _ := none
  users _ := 0
  error := none
  reqFid := none
  world := ()
  fault := false

/-- A `Tattach` of the user 1. -/
def tattach : Npfcall :=
  { (default : Npfcall) with type := MsgType.tattach.code, afid := NOFID, nUname := 1 }

end Requests

end Npfs.Mediation
