import Npfs.FailedRequest
import Npfs.UfsListing
import Npfs.UserCache

/-!
# Files without an owner

`npfs_stat` and `npfs_read_dir` with the default user pool.  A lookup that finds nothing shows `???`
for the owner, and leaves an error with the thread.
-/

namespace Npfs

namespace Ufs

namespace Pooled

open Program Serve Unix

/-! ## The code with the lookups of the pool -/

/-- One operation of a function that asks the user pool. -/
inductive PoolOp where
  | base (op : Op)
  | uid2user (uid : UInt32)
  | gid2group (gid : UInt32)

/-- What an operation returns. -/
abbrev PoolOp.Reply : PoolOp → Type
  | .base op => op.Reply
  | .uid2user _ => Option Npuser
  | .gid2group _ => Option Npgroup

/-- A piece of the code. -/
abbrev PoolCode : Type → Type := Program PoolOp PoolOp.Reply

/-- Code that does not ask the pool. -/
def lift {α : Type} : Code α → PoolCode α
  | .done result => .done result
  | .step op next => .step (.base op) fun reply => lift (next reply)

/-- `up->uid2user(up, uid)`. -/
def uid2user (uid : UInt32) : PoolCode (Option Npuser) := .step (.uid2user uid) .done

/-- `up->gid2group(up, gid)`. -/
def gid2group (gid : UInt32) : PoolCode (Option Npgroup) := .step (.gid2group gid) .done

/-- `f = fid->aux`, where `f` is then used. -/
def withAux {α : Type} [Inhabited α] (fid : FidPtr) (rest : Fid → PoolCode α) : PoolCode α :=
  .step (.base (.aux fid)) fun
    | some f => rest f
    | none => do
      lift (np .crash)
      return default

/-- `ustat2npwstat`. -/
def ustat2npwstat (path : CStr) (st : Stat) (dotu : Bool) : PoolCode Npwstat := do
  let u ← uid2user st.uid
  let g ← gid2group st.gid
  let extension ← lift (npwstatExtension path st dotu)
  return {
    (default : Npwstat) with
    qid := ustat2qid st
    mode := umode2npmode st.mode dotu
    atime := st.atimeSec.toUInt32
    mtime := st.mtimeSec.toUInt32
    length := st.size
    uid := some ((u.map (·.uname)).getD (cstr "???"))
    gid := some ((g.map (·.gname)).getD (cstr "???"))
    muid := some (cstr "")
    extension
    nUid := flag dotu st.uid
    nGid := flag dotu st.gid
    name := some (basename path) }

/-- The loop of `npfs_read_dir`: the bytes that it has written and their number. -/
def readDirLoop (f : Fid) (dir : UInt64) (count : Nat) (dotu : Bool) :
    (turns : Nat) → (buf : List UInt8) → (n : Nat) → PoolCode (List UInt8 × Nat)
  | 0, buf, n => do
    lift (np .crash)
    return (buf, n)
  | turns + 1, buf, n =>
    if n < count then do
      let read ← lift (data (.readdir dir))
      match read.toOption.bind (·.dirent) with
      | none => return (buf, n)
      | some dirent =>
        if isDots dirent.name then
          readDirLoop f dir count dotu turns buf n
        else
          let path := ufsJoin f.path.bytes dirent.name.bytes
          let st : Except Errno Stat ← lift (sys (.lstat path))
          match st with
          | .error errno => do
            let _ : Option Unit ← lift (createRerror errno)
            return (buf, 0)
          | .ok st =>
            let wstat ← ustat2npwstat path st dotu
            let (i, mem) := npSerializeStat wstat ((buf.drop n).take (count - n - 1)) dotu
            let buf := store buf n mem
            if i = 0 then return (buf, n) else readDirLoop f dir count dotu turns buf (n + i)
    else
      return (buf, n)

/-- `npfs_read_dir`. -/
def npfsReadDir (f : Fid) (dir : UInt64) (buf : List UInt8) (offset : UInt64) (count : Nat) :
    PoolCode (List UInt8 × Nat) := do
  lift (rewind dir offset)
  let conn : Npconn ← lift (np .conn)
  let u ← lift ufs
  readDirLoop f dir count conn.dotu u.turns buf 0

/-- What `npfs_read` reads. -/
def npfsReadData (f : Fid) (ret : Npfcall) (offset : UInt64) (count : Nat) :
    PoolCode (List UInt8 × Nat) :=
  match f.dir with
  | some dir => npfsReadDir f dir ((ret.pkt.drop 11).take count) offset count
  | none => lift (npfsReadFile f offset count)

/-- `npfs_read`. -/
def npfsRead (fid : FidPtr) (offset : UInt64) (count : UInt32) : PoolCode (Option Npfcall) :=
  withAux fid fun f => do
    let ret ← lift (create (npAllocRread count))
    lift (npfsSetUser fid)
    match ret with
    | none => do
      lift (np .crash)
      return none
    | some ret =>
      let (buf, n) ← npfsReadData f ret offset count.toNat
      let error : Option Nperror ← lift (np .rerror)
      match error with
      | some _ => return none
      | none => return some (setRread ret buf n)

/-- `npfs_stat`. -/
def npfsStat (fid : FidPtr) : PoolCode (Option Npfcall) :=
  withAux fid fun f => do
    lift (npfsSetUser fid)
    let (err, f) ← lift (fidstat fid f)
    match err with
    | .error err => lift (createRerror err)
    | .ok _ =>
      let conn : Npconn ← lift (np .conn)
      let wstat ← ustat2npwstat f.path f.stat conn.dotu
      lift (create (npCreateRstat wstat conn.dotu))

/-- The functions of the server. -/
def ufsStart : (callback : Callback) → PoolCode callback.Reply
  | .read fid offset count => npfsRead fid offset count
  | .stat fid => npfsStat fid
  | callback => lift (Ufs.ufsStart callback)

/-! ## What the operations do -/

/-- The entries behind the position of the stream, and the caches of the pool. -/
structure Pool where
  rest : List Dirent
  users : ℕ → List Npuser
  groups : ℕ → List Npgroup

/-- The state of a connection, and of the pool. -/
abbrev Listing := Session Fid Pool

/-- The caches, as the thread of the request sees them. -/
def caches (s : Listing) : Lookup := ⟨s.world.users, s.world.groups, s.error⟩

/-- What a lookup leaves behind. -/
def looked (s : Listing) (l : Lookup) : Listing :=
  { s with
    world := { s.world with users := l.users, groups := l.groups }
    error := l.error }

variable (d : Directory) (u : Ufssrv) (db : UserDatabase)

/-- What the operations of `libnpfs` need of their environment.  The callbacks are not run here. -/
def env : Env Fid Pool where
  answer callback _ w := ⟨callback.silence, none, false, none, w⟩
  malloc w := (d.heap, w)
  flush _ w := (true, w)
  reset _ w := w

/-- Perform an operation of `libufs`. -/
def execOp : (op : PoolOp) → Listing → op.Reply × Listing
  | .base (.sys call), s => ((d.exec call s.world.rest).1,
      { s with world := { s.world with rest := (d.exec call s.world.rest).2 } })
  | .base (.aux fid), s => s.load fid (·.aux) none
  | .base (.setAux fid aux), s => ((), s.modify fid fun f => { f with aux := some aux })
  | .base (.np op), s => Npfs.exec (env d) op s
  | .base .ufs, s => (u, s)
  | .uid2user uid, s =>
    (((caches s).npUnixUid2user db uid).1, looked s ((caches s).npUnixUid2user db uid).2)
  | .gid2group gid, s =>
    (((caches s).npUnixGid2group db gid).1, looked s ((caches s).npUnixGid2group db gid).2)

/-- Perform an operation of a request. -/
def exec : (op : Npfs.Op) → Listing → op.Reply × Listing
  | .call callback, s => (ufsStart callback).run (execOp d u db) s
  | op, s => Npfs.exec (env d) op s

/-! ## What it is for -/

/-- The databases have no entry for the user or none for the group. -/
def Unowned (st : Stat) : Prop := Lookup.UnknownUser db st.uid ∨ Lookup.UnknownGroup db st.gid

/-- `fidstat` finds the status of the file of a fid. -/
def Finds (p : FidPtr) (f f' : Fid) : Prop :=
  ∀ s, ((lift (fidstat p f)).run (execOp d u db) s).1 = (.ok (), f')

/-- Where a Tread begins to read the stream. -/
def begins (s : Listing) (offset : UInt64) : List Dirent :=
  if offset = 0 then d.entries else s.world.rest

/-- The request is about a file that is unowned: a Tstat of its fid, or a Tread of a directory that
comes past its entry. -/
inductive About (s : Listing) (tc : Npfcall) (p : FidPtr) (g : Npfid Fid) (f : Fid) (s' : Listing) :
    Prop
  | stat (f' : Fid) (type : tc.type = MsgType.tstat.code) (finds : Finds d u db p f f')
      (unowned : Unowned db f'.stat)
  | read (front : List Dirent) (dirent : Dirent) (st : Stat) (type : tc.type = MsgType.tread.code)
      (auth : g.type &&& Qtauth = 0) (xattr : g.type &&& Ftxattr = 0) (dir : f.dir.isSome = true)
      (passed : begins d s tc.offset = front ++ s'.world.rest) (member : dirent ∈ front)
      (proper : ¬ isDots dirent.name = true) (found : d.lstat f dirent = .ok st)
      (unowned : Unowned db st)

/-! ## A lookup -/

section Lookups

variable {d u db} {s : Listing} {f : Fid} {st : Stat} {path : CStr} {dotu : Bool} {α β : Type}

theorem lift_bind (code : Code α) (next : α → Code β) :
    lift (code >>= next) = lift code >>= fun result => lift (next result) := by
  induction code with
  | done result => rfl
  | step op rest ih => exact congrArg (Program.step (PoolOp.base op)) (funext ih)

/-- The state behind the two lookups of `ustat2npwstat`. -/
def lookedUp (db : UserDatabase) (st : Stat) (s : Listing) : Listing :=
  let s := looked s ((caches s).npUnixUid2user db st.uid).2
  looked s ((caches s).npUnixGid2group db st.gid).2

theorem proper_lookedUp : Lookup.Proper db (caches s) (caches (lookedUp db st s)) :=
  Lookup.proper_uid2user.trans Lookup.proper_gid2group

/-- The lookups for a file without an owner leave an error. -/
theorem error_lookedUp (sound : (caches s).Sound db) (unowned : Unowned db st) :
    (lookedUp db st s).error.isSome = true := by
  rcases unowned with user | group
  · refine (@Lookup.proper_gid2group db _ st.gid).loud ?_
    rw [Lookup.uid2user_unknown sound user]
    rfl
  · have sound' := (@Lookup.proper_uid2user db _ st.uid).sound sound
    have none' := Lookup.gid2group_unknown sound' group
    show (((caches s).npUnixUid2user db st.uid).2.npUnixGid2group db st.gid).2.error.isSome = true
    rw [none']
    rfl

theorem run_extension : ∃ extension,
    (lift (npwstatExtension path st dotu)).run (execOp d u db) s = (extension, s) := by
  unfold npwstatExtension
  dsimp only
  split_ifs
  · exact ⟨_, rfl⟩
  · exact ⟨_, rfl⟩
  · exact ⟨_, rfl⟩
  · exact ⟨_, rfl⟩

theorem run_ustat2npwstat : ∃ wstat,
    (ustat2npwstat path st dotu).run (execOp d u db) s = (wstat, lookedUp db st s) := by
  obtain ⟨extension, ran⟩ := @run_extension d u db (lookedUp db st s) st path dotu
  unfold ustat2npwstat
  simp only [uid2user, gid2group, step_bind, done_bind, run_step, execOp]
  rw [run_bind]
  exact ⟨_, congrArg (fun r => Program.run (execOp d u db) (Program.done _) r.2) ran⟩

end Lookups

/-! ## The listing -/

section Loop

variable {d u db} {s s' s'' : Listing} {f : Fid} {dotu : Bool} {dir : UInt64} {count turns n : ℕ}
  {buf : List UInt8} {dirent : Dirent} {rest : List Dirent}

/-- An entry of a file without an owner. -/
def Unlisted (d : Directory) (db : UserDatabase) (f : Fid) (dirent : Dirent) : Prop :=
  ¬ isDots dirent.name = true ∧ ∃ st, d.lstat f dirent = .ok st ∧ Unowned db st

/-- The stream has gone on, the caches are kept sound, and an entry of a file without an owner that
the stream has come past has left an error. -/
structure Passes (d : Directory) (db : UserDatabase) (f : Fid) (s s' : Listing) : Prop where
  proper : Lookup.Proper db (caches s) (caches s')
  passed : ∃ front, s.world.rest = front ++ s'.world.rest ∧
    ((caches s).Sound db → ∀ dirent ∈ front, Unlisted d db f dirent → s'.error.isSome = true)

theorem Passes.still (proper : Lookup.Proper db (caches s) (caches s'))
    (rest : s'.world.rest = s.world.rest) : Passes d db f s s' :=
  ⟨proper, [], rest.symm, fun _ dirent member => by cases member⟩

/-- One entry is read, and then others are. -/
theorem Passes.cons (next : s.world.rest = dirent :: s'.world.rest)
    (proper : Lookup.Proper db (caches s) (caches s'))
    (now : (caches s).Sound db → Unlisted d db f dirent → s'.error.isSome = true)
    (passes : Passes d db f s' s'') : Passes d db f s s'' := by
  obtain ⟨front, split, loud⟩ := passes.passed
  refine ⟨proper.trans passes.proper, dirent :: front, ?_, fun sound other member unlisted => ?_⟩
  · rw [next, split, List.cons_append]
  · rcases List.mem_cons.mp member with rfl | later
    · exact passes.proper.loud (now sound unlisted)
    · exact loud (proper.sound sound) other later unlisted

/-- One entry is read, and no other. -/
theorem Passes.last (next : s.world.rest = dirent :: s'.world.rest)
    (proper : Lookup.Proper db (caches s) (caches s'))
    (now : (caches s).Sound db → Unlisted d db f dirent → s'.error.isSome = true) :
    Passes d db f s s' := .cons next proper now (.still .refl rfl)

theorem run_readdir : (lift (data (.readdir dir))).run (execOp d u db) s =
    (.ok { (default : Returned) with dirent := s.world.rest.head? },
      { s with world := { s.world with rest := s.world.rest.tail } }) := rfl

theorem run_lstat : (lift (sys (.lstat (ufsJoin f.path.bytes dirent.name.bytes)))).run
    (execOp d u db) s = (d.lstat f dirent, s) := rfl

/-- The loop of `npfs_read_dir`. -/
theorem passes_readDirLoop : Passes d db f s
    ((readDirLoop f dir count dotu turns buf n).run (execOp d u db) s).2 := by
  induction turns generalizing s buf n with
  | zero => exact .still .refl rfl
  | succ turns ih =>
      rw [readDirLoop]
      split_ifs with room
      · rw [run_bind, run_readdir]
        cases ahead : s.world.rest with
        | nil =>
            refine .still .refl ?_
            rw [ahead]
            rfl
        | cons dirent rest =>
            dsimp only [List.head?_cons, List.tail_cons, Except.toOption, Option.bind_some]
            have behind : Lookup.Proper db (caches s)
              (caches { s with world := { s.world with rest := rest } }) := .refl
            rw [run_ite]
            split_ifs with dots
            · exact .cons ahead behind (fun _ unlisted => absurd dots unlisted.1) ih
            · rw [run_bind, run_lstat]
              cases found : d.lstat f dirent with
              | error errno =>
                  exact .last ahead ⟨fun sound => sound.werror _, fun _ => rfl⟩ fun _ _ => rfl
              | ok st =>
                  dsimp only
                  obtain ⟨wstat, made⟩ := @run_ustat2npwstat d u db
                    { s with world := { s.world with rest } } st
                    (ufsJoin f.path.bytes dirent.name.bytes) dotu
                  rw [run_bind, made]
                  dsimp only
                  have looks : Lookup.Proper db (caches s)
                    (caches (lookedUp db st { s with world := { s.world with rest } })) :=
                      behind.trans proper_lookedUp
                  have now (sound : (caches s).Sound db) (unlisted : Unlisted d db f dirent) :
                      (lookedUp db st
                        { s with world := { s.world with rest } }).error.isSome = true := by
                    obtain ⟨-, st', found', unowned⟩ := unlisted
                    obtain rfl := Except.ok.inj (found.symm.trans found')
                    exact error_lookedUp (behind.sound sound) unowned
                  rw [run_ite]
                  split_ifs
                  · exact .last ahead looks now
                  · exact .cons ahead looks now ih
      · exact .still .refl rfl

end Loop

/-! ## The handlers -/

section Handlers

variable {d u db} {s : Listing} {f : Fid} {p : FidPtr} {g : Npfid Fid} {offset : UInt64}
  {count : UInt32} {tc : Npfcall}

theorem world_load {β : Type} {field : Npfid Fid → β} {junk : β} :
    (s.load p field junk).2.world = s.world := by
  unfold Session.load
  split <;> rfl

theorem world_np (op : Npfs.Op) : (Npfs.exec (env d) op s).2.world = s.world := by
  cases op with
  | fidCreate fid => cases taken : s.pool fid <;> simp only [Npfs.exec, taken]
  | fidUnlink fid =>
      cases live : s.fids.get fid <;> simp only [Npfs.exec, live]
      split_ifs <;> rfl
  | omode | type | diroffset | user => exact world_load
  | userIncref user => cases user <;> rfl
  | call callback => cases callback <;> rfl
  | _ => rfl

theorem world_userUid : ((lift (userUid p)).run (execOp d u db) s).2.world = s.world := by
  simp only [userUid, ufs, np, step_bind, done_bind, lift, run_step, execOp, Npfs.exec]
  generalize loaded : s.load p (·.user) none = owner
  obtain ⟨owner, s'⟩ := owner
  have kept : s'.world = s.world := by
    rw [← @world_load s p _ (·.user) none, loaded]
  cases owner with
  | none => exact kept
  | some user => exact kept

theorem world_npfsSetUser : ((lift (npfsSetUser p)).run (execOp d u db) s).2.world = s.world := by
  unfold npfsSetUser
  simp only [ufs, step_bind, done_bind, lift, run_step, execOp]
  by_cases same : u.sameuser = true
  · simp only [same, if_true]
    rfl
  · simp only [same, Bool.false_eq_true, if_false]
    rw [lift_bind, run_bind]
    have kept := @world_userUid d u db s p
    generalize (lift (userUid p)).run (execOp d u db) s = result at kept ⊢
    obtain ⟨uid, s'⟩ := result
    simp only [data, step_bind, done_bind, lift, run_step, execOp, Directory.exec]
    by_cases already : (d.answer (.data .geteuid)).toOption.map (·.number.toUInt32) = some uid
    · simp only [already, if_true]
      exact kept
    · simp only [already, if_false, lift, run_step, execOp, Directory.exec]
      cases d.answer (.data (.changeUser uid)) with
      | ok done => exact kept
      | error err => exact kept

/-- The state in which the loop of `npfs_read_dir` begins. -/
def started (d : Directory) (s : Listing) (offset : UInt64) : Listing :=
  { s with world := { s.world with rest := begins d s offset } }

theorem passes_npfsReadDir {dir : UInt64} {buf : List UInt8} {n : ℕ} :
    Passes d db f (started d s offset)
      ((npfsReadDir f dir buf offset n).run (execOp d u db) s).2 := by
  have back : (lift (rewind dir offset)).run (execOp d u db) s = ((), started d s offset) := by
    unfold rewind started begins
    split_ifs <;> rfl
  rw [npfsReadDir, run_bind, back]
  exact passes_readDirLoop

/-- Code that does not ask the pool keeps its caches. -/
theorem cached_lift {α : Type} (code : Code α) :
    ((lift code).run (execOp d u db) s).2.world.users = s.world.users ∧
      ((lift code).run (execOp d u db) s).2.world.groups = s.world.groups := by
  induction code generalizing s with
  | done result => exact ⟨rfl, rfl⟩
  | step op next ih =>
      have kept : (execOp d u db (.base op) s).2.world.users = s.world.users ∧
          (execOp d u db (.base op) s).2.world.groups = s.world.groups := by
        cases op with
        | sys call => exact ⟨rfl, rfl⟩
        | aux fid => exact ⟨congrArg Pool.users world_load, congrArg Pool.groups world_load⟩
        | setAux fid aux => exact ⟨rfl, rfl⟩
        | np op => exact ⟨congrArg Pool.users (world_np op), congrArg Pool.groups (world_np op)⟩
        | ufs => exact ⟨rfl, rfl⟩
      obtain ⟨users, groups⟩ :=
        ih (execOp d u db (.base op) s).1 (s := (execOp d u db (.base op) s).2)
      exact ⟨users.trans kept.1, groups.trans kept.2⟩

theorem sound_of_world {s' : Listing} (users : s'.world.users = s.world.users)
    (groups : s'.world.groups = s.world.groups) (sound : (caches s).Sound db) :
    (caches s').Sound db := by
  have same : (caches s').users = (caches s).users ∧ (caches s').groups = (caches s).groups :=
    ⟨users, groups⟩
  refine ⟨fun n v member => sound.users n v ?_, fun n v member => sound.groups n v ?_⟩
  · rwa [← same.1]
  · rwa [← same.2]

theorem sound_lift {α : Type} (code : Code α) (sound : (caches s).Sound db) :
    (caches ((lift code).run (execOp d u db) s).2).Sound db := by
  obtain ⟨users, groups⟩ := @cached_lift d u db s _ code
  exact sound_of_world users groups sound

/-- A function has failed: it has left an error, or has not given a reply. -/
def Refuses (result : Option Npfcall × Listing) : Prop :=
  result.1 = none ∨ result.2.error.isSome = true

theorem run_withAux {α : Type} [Inhabited α] {rest : Fid → PoolCode α}
    (live : s.fids.get p = some g) (aux : g.aux = some f) :
    (withAux p rest).run (execOp d u db) s = (rest f).run (execOp d u db) s := by
  simp only [withAux, run_step, execOp, Session.load, live, aux]

theorem run_create (constructor : Malloc → Option Npfcall) :
    (lift (create constructor)).run (execOp d u db) s = (constructor d.heap, s) := rfl

/-- `npfs_stat` of a file without an owner. -/
theorem refuses_npfsStat {f' : Fid} (sound : (caches s).Sound db) (live : s.fids.get p = some g)
    (aux : g.aux = some f) (finds : Finds d u db p f f') (unowned : Unowned db f'.stat) :
    Refuses ((npfsStat p).run (execOp d u db) s) := by
  rw [npfsStat, run_withAux live aux, run_bind, run_bind, finds]
  have sound' := sound_lift (d := d) (u := u) (fidstat p f)
    (sound_lift (d := d) (u := u) (npfsSetUser p) sound)
  generalize ((lift (fidstat p f)).run (execOp d u db) _).2 = s' at sound' ⊢
  obtain ⟨wstat, made⟩ := @run_ustat2npwstat d u db s' f'.stat f'.path s'.conn.dotu
  refine .inr ?_
  show ((ustat2npwstat f'.path f'.stat s'.conn.dotu >>= fun wstat =>
    lift (create (npCreateRstat wstat s'.conn.dotu))).run (execOp d u db) s').2.error.isSome = true
  rw [run_bind, made]
  exact error_lookedUp sound' unowned

/-- `npfs_read` of a directory that comes past an entry of a file without an owner. -/
theorem refuses_npfsRead {front : List Dirent} {dirent : Dirent} (sound : (caches s).Sound db)
    (live : s.fids.get p = some g) (aux : g.aux = some f) (dir : f.dir.isSome = true)
    (member : dirent ∈ front) (unlisted : Unlisted d db f dirent)
    (passed : begins d s offset =
      front ++ ((npfsRead p offset count).run (execOp d u db) s).2.world.rest) :
    Refuses ((npfsRead p offset count).run (execOp d u db) s) := by
  obtain ⟨dirp, opened⟩ := Option.isSome_iff_exists.mp dir
  rw [npfsRead, run_withAux live aux, run_bind, run_create, run_bind] at passed ⊢
  have still := @world_npfsSetUser d u db s p
  generalize ((lift (npfsSetUser p)).run (execOp d u db) s).2 = s₁ at still passed ⊢
  cases made : npAllocRread count d.heap with
  | none => exact .inl rfl
  | some ret =>
      simp only [made] at passed ⊢
      have looked : npfsReadData f ret offset count.toNat =
          npfsReadDir f dirp ((ret.pkt.drop 11).take count.toNat) offset count.toNat := by
        simp only [npfsReadData, opened]
      rw [looked] at passed ⊢
      have passes := @passes_npfsReadDir d u db s₁ f offset dirp
        ((ret.pkt.drop 11).take count.toNat) count.toNat
      rw [run_bind] at passed ⊢
      generalize (npfsReadDir f dirp ((ret.pkt.drop 11).take count.toNat) offset count.toNat).run
        (execOp d u db) s₁ = read at passes passed ⊢
      obtain ⟨⟨buf, n⟩, s₂⟩ := read
      cases error : s₂.error with
      | some e =>
          refine .inr ?_
          simp only [np, lift, step_bind, done_bind, run_step, execOp, Npfs.exec, error, pure_eq,
            run_done, Option.isSome_some]
      | none =>
          simp only [np, lift, step_bind, done_bind, run_step, execOp, Npfs.exec, error, pure_eq,
            run_done] at passed
          obtain ⟨front', split, loud⟩ := passes.passed
          have start : (started d s₁ offset).world.rest = begins d s offset := by
            rw [started, begins, begins, still]
          obtain rfl : front = front' :=
            List.append_cancel_right (passed.symm.trans (start.symm.trans split))
          have sound' : (caches (started d s₁ offset)).Sound db :=
            sound_of_world (congrArg Pool.users still :)
              (congrArg Pool.groups still :) sound
          have failed := loud sound' dirent member unlisted
          rw [error] at failed
          cases failed

/-! ## A request -/

/-- The fid is found, and a reference to it taken. -/
def taken (s : Listing) (p : FidPtr) : Listing :=
  { s with fids := s.fids.modify p (.addRef 1), error := none, reqFid := some p }

theorem live_taken (live : s.fids.get p = some g) : (taken s p).fids.get p = some (g.addRef 1) := by
  simp [taken, live]

theorem sound_taken (sound : (caches s).Sound db) : (caches (taken s p)).Sound db :=
  sound_of_world (s := s) rfl rfl sound

theorem run_withFid (found : s.pool tc.fid = some p) (live : s.fids.get p = some g)
    (rest : FidPtr → Serve (Option Npfcall)) :
    (withFid tc.fid rest).run (exec d u db) { s with error := none } =
      (rest p).run (exec d u db) (taken s p) := by
  have fault : (s.fault || (s.fids.get p).isNone) = s.fault := by simp [live]
  simp only [withFid, npFidFind, step_bind, done_bind, run_step, exec, Npfs.exec, found,
    npFidIncref, setReqFid, Session.modify, fault]
  rfl

theorem refuses_npStat {f' : Fid} (sound : (caches s).Sound db) (found : s.pool tc.fid = some p)
    (live : s.fids.get p = some g) (aux : g.aux = some f) (finds : Finds d u db p f f')
    (unowned : Unowned db f'.stat) :
    Refuses ((npStat tc).run (exec d u db) { s with error := none }) := by
  rw [npStat, run_withFid found live]
  exact refuses_npfsStat (sound_taken sound) (live_taken live) aux finds unowned

theorem refuses_fail {ename : CStr} {ecode : UInt32} :
    Refuses ((Serve.fail ename ecode).run (exec d u db) s) := .inr rfl

theorem refuses_npRead {front : List Dirent} {dirent : Dirent} (sound : (caches s).Sound db)
    (found : s.pool tc.fid = some p) (live : s.fids.get p = some g) (aux : g.aux = some f)
    (auth : g.type &&& Qtauth = 0) (xattr : g.type &&& Ftxattr = 0) (dir : f.dir.isSome = true)
    (member : dirent ∈ front) (unlisted : Unlisted d db f dirent)
    (passed : begins d s tc.offset =
      front ++ ((npRead tc).run (exec d u db) { s with error := none }).2.world.rest) :
    Refuses ((npRead tc).run (exec d u db) { s with error := none }) := by
  have live' := live_taken live
  have auth' : ¬ (g.addRef 1).type &&& Qtauth ≠ 0 := fun other => other auth
  have xattr' : ¬ (g.addRef 1).type &&& Ftxattr ≠ 0 := fun other => other xattr
  rw [npRead, run_withFid found live] at passed ⊢
  simp only [conn, step_bind, done_bind, run_step, exec, Npfs.exec] at passed ⊢
  by_cases large : tc.count + IOHDRSZ > (taken s p).conn.msize
  · simp only [large, if_true]
    exact refuses_fail
  simp only [large, if_false, type, omode, step_bind, done_bind, run_step, exec, Npfs.exec,
    Session.load, live', auth', xattr'] at passed ⊢
  by_cases unreadable :
      (g.addRef 1).omode = Onotopen ∨ (g.addRef 1).omode &&& 3 = Owrite.toUInt16
  · simp only [unreadable, if_true]
    exact refuses_fail
  simp only [unreadable, if_false, diroffset, step_bind, done_bind, run_step, exec, Npfs.exec,
    Session.load, live'] at passed ⊢
  by_cases misplaced :
      (g.addRef 1).type &&& Qtdir ≠ 0 ∧ tc.offset ≠ (g.addRef 1).diroffset.toUInt64
  · rw [if_pos misplaced]
    exact refuses_fail
  simp only [misplaced, if_false] at passed ⊢
  exact refuses_npfsRead (sound_taken sound) live' aux dir member unlisted passed

/-- The error of a request is made a reply without asking the pool. -/
theorem run_errorReply_base {npErrnoToLinux : UInt32 → UInt32} (rc : Option Npfcall) :
    (errorReply npErrnoToLinux rc).run (exec d u db) s =
      (errorReply npErrnoToLinux rc).run (Npfs.exec (env d)) s := by
  unfold errorReply
  simp only [npRerror, step_bind, done_bind, run_step, exec, Npfs.exec]
  cases s.error with
  | none => rfl
  | some error =>
      simp only [conn, step_bind, done_bind, run_step, exec, Npfs.exec]
      by_cases dotl : s.conn.dotl = true
      · simp only [dotl, if_true]
        rfl
      · simp only [dotl, Bool.false_eq_true, if_false]
        rfl

/-- A handler that refuses makes a request that fails, or gets no reply. -/
theorem failed_of_refuses {npErrnoToLinux : UInt32 → UInt32} {result : Option Npfcall × Listing}
    (refuses : Refuses result) : ∃ rc,
      (errorReply npErrnoToLinux result.1).run (exec d u db) result.2 = (rc, result.2) ∧
        ∀ fc, rc = some fc → fc.Failed := by
  obtain ⟨rc, s⟩ := result
  dsimp only
  rw [run_errorReply_base]
  by_cases clear : s.error = none
  · obtain none' : rc = none := refuses.resolve_right fun some' => by simp [clear] at some'
    refine ⟨none, ?_, fun fc is => by cases is⟩
    rw [run_errorReply_none clear, none']
  · obtain ⟨error, is⟩ := Option.ne_none_iff_exists'.mp clear
    obtain ⟨fc, world, failed, replied⟩ :=
      @run_errorReply _ _ npErrnoToLinux (env d) s rc error is
    have kept : world = s.world := by
      have same := run_preserves (Npfs.exec (env d)) Session.world (fun op _ => world_np op)
        (errorReply npErrnoToLinux rc) s
      rw [replied] at same
      exact same
    refine ⟨some fc, ?_, fun fc' is => Option.some.inj is ▸ failed⟩
    rw [replied, kept]

/-- A request about a file without an owner is not answered, or with an error. -/
theorem refused_of_unowned {npErrnoToLinux : UInt32 → UInt32}
    (reached : Lookup.Reached db (caches s)) (found : s.pool tc.fid = some p)
    (live : s.fids.get p = some g) (aux : g.aux = some f)
    (about : About d u db s tc p g f
      ((npProcessRequest npErrnoToLinux tc).run (exec d u db) s).2) :
    ∀ rc, ((npProcessRequest npErrnoToLinux tc).run (exec d u db) s).1 = some rc → rc.Failed := by
  have sound := Lookup.sound_of_reached reached
  have ran : (npProcessRequest npErrnoToLinux tc).run (exec d u db) s =
      (errorReply npErrnoToLinux
        ((npHandle tc).run (exec d u db) { s with error := none }).1).run (exec d u db)
        ((npHandle tc).run (exec d u db) { s with error := none }).2 := by
    rw [npProcessRequest_eq, npWerrorNone, step_bind, run_step, done_bind, run_bind]
    rfl
  have answers (refuses : Refuses ((npHandle tc).run (exec d u db) { s with error := none })) :
      ∀ rc, ((npProcessRequest npErrnoToLinux tc).run (exec d u db) s).1 = some rc →
        rc.Failed := by
    obtain ⟨rc, replied, failed⟩ := @failed_of_refuses d u db npErrnoToLinux _ refuses
    rw [ran, replied]
    exact failed
  cases about with
  | stat f' type finds unowned =>
      have handler : npHandle tc = npStat tc := by
        rw [npHandle, npHandler, type]
        rfl
      rw [handler] at answers
      exact answers (refuses_npStat sound found live aux finds unowned)
  | read front dirent st type auth xattr dir passed member proper status unowned =>
      have handler : npHandle tc = npRead tc := by
        rw [npHandle, npHandler, type]
        rfl
      rw [handler] at answers ran
      have kept : ((npProcessRequest npErrnoToLinux tc).run (exec d u db) s).2.world =
          ((npRead tc).run (exec d u db) { s with error := none }).2.world := by
        rw [ran, run_errorReply_base]
        exact run_preserves (Npfs.exec (env d)) Session.world (fun op _ => world_np op) _ _
      rw [kept] at passed
      exact answers (refuses_npRead sound found live aux auth xattr dir member
        ⟨proper, st, status, unowned⟩ passed)

end Handlers

/-! ## A host without users -/

theorem finds_of_lstat {d : Directory} {u : Ufssrv} {db : UserDatabase} {p : FidPtr} {f : Fid}
    {st : Stat} (plain : f.mapped = false) (status : d.answer (.lstat f.path) = .ok st) :
    Finds d u db p f { f with stat := st, hmode := st.mode } := by
  intro s
  simp only [fidstat, sys, step_bind, done_bind, lift, run_step, execOp, Directory.exec, status,
    plain]
  rfl

/-- Databases without an entry. -/
def nobody : UserDatabase := ⟨[], [], 0, fun _ => cstr "Success", fun _ => 0⟩

/-- The directory is open, and read from its start. -/
def openedFid : Npfid Fid :=
  { (Npfid.new 1 : Npfid Fid) with omode := 0, aux := some Directory.openFid }

/-- A connection of 9P2000 with the fid. -/
def listing : Listing where
  srv := Directory.reading.srv
  conn := Directory.reading.conn
  fids := Cells.empty.push openedFid
  pool := fun _ => some 0
  users := fun _ => 0
  error := none
  reqFid := none
  world := ⟨[], fun _ => [], fun _ => []⟩
  fault := false

/-- A Tstat of the directory. -/
def tstat : Npfcall := { (default : Npfcall) with type := MsgType.tstat.code }

/-- A Tread of the directory from its start. -/
def tread : Npfcall := { (default : Npfcall) with type := MsgType.tread.code, count := 200 }

/-- A Tstat of the directory fails. -/
theorem not_answered_unowned : ¬ ∀ (d : Directory) (u : Ufssrv) (db : UserDatabase)
    (npErrnoToLinux : UInt32 → UInt32) (s : Listing) (tc : Npfcall) (p : FidPtr) (g : Npfid Fid)
    (f : Fid), Lookup.Reached db (caches s) → s.pool tc.fid = some p → s.fids.get p = some g →
      g.aux = some f →
      About d u db s tc p g f ((npProcessRequest npErrnoToLinux tc).run (exec d u db) s).2 →
        ∃ rc, ((npProcessRequest npErrnoToLinux tc).run (exec d u db) s).1 = some rc ∧
          ¬ rc.Failed := by
  intro all
  obtain ⟨rc, replied, answered⟩ := all Directory.twoFiles Directory.following nobody id listing
    tstat 0 openedFid Directory.openFid .start rfl rfl rfl
    (.stat _ rfl (finds_of_lstat rfl rfl) (.inl fun _ entry => by cases entry))
  have failed : (((npProcessRequest id tstat).run
      (exec Directory.twoFiles Directory.following nobody) listing).1.map (·.type)) =
        some MsgType.rerror.code := by
    decide +kernel
  rw [replied] at failed
  exact answered (.inl (Option.some.inj failed))

/-- A Tread that comes past the files of the directory fails. -/
theorem refused_of_unowned_tread : ∃ rc,
    ((npProcessRequest id tread).run (exec Directory.twoFiles Directory.following nobody)
      listing).1 = some rc ∧ rc.Failed := by
  have replied : ((npProcessRequest id tread).run
      (exec Directory.twoFiles Directory.following nobody) listing).1.isSome = true := by
    decide +kernel
  obtain ⟨rc, is⟩ := Option.isSome_iff_exists.mp replied
  have empty : ((npProcessRequest id tread).run
      (exec Directory.twoFiles Directory.following nobody) listing).2.world.rest.isEmpty =
        true := by
    decide +kernel
  have member : (⟨0, 0, 0, cstr "a"⟩ : Dirent) ∈ Directory.twoFiles.entries := by
    simp [Directory.twoFiles]
  refine ⟨rc, is, refused_of_unowned (p := 0) (g := openedFid) (f := Directory.openFid) .start rfl
    rfl rfl (.read Directory.twoFiles.entries ⟨0, 0, 0, cstr "a"⟩ _ rfl rfl rfl rfl ?_ member
      (by decide) rfl (.inl fun _ entry => by cases entry)) rc is⟩
  rw [List.isEmpty_iff.mp empty, List.append_nil]
  rfl

end Pooled

end Ufs

end Npfs
