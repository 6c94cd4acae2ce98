import Npfs.FileListing
import Npfs.LockTrace

/-!
# The locks of a tree of files

The callbacks of `libnpfs/file.c` over the operations of `fs/ramfs2.c`: which mutexes of files the
thread that serves a call takes and releases.  A call is run on a tree; what it changes there
matters to it as far as references are concerned.
-/

namespace Npfs.FileLocks

open FileListing (FilePtr)
open Program

/-- The operations of a directory or of a file that are not `NULL`. -/
structure Ops where
  first : Bool
  next : Bool
  create : Bool
  remove : Bool
  wstat : Bool
  read : Bool
  write : Bool

/-- An `Npfile`, as far as the callbacks depend on it. -/
structure Npfile where
  mode : UInt32
  uid : UserPtr
  gid : ℕ
  name : CStr
  length : UInt64
  excl : Bool
  parent : Option FilePtr
  next : Option FilePtr
  prev : Option FilePtr
  dirfirst : Option FilePtr
  ops : Ops

/-- A tree of files, and what its server finds outside of it. -/
structure Tree where
  file : FilePtr → Npfile
  /-- What `malloc` returns for a new file. -/
  fresh : FilePtr
  /-- How many files of a directory are followed. -/
  turns : ℕ
  /-- What `file2wstat` makes of a file. -/
  wstat : FilePtr → Npwstat
  /-- `user->upool->ismember`. -/
  ismember : UserPtr → ℕ → Bool
  /-- `fid->conn->dotu`. -/
  dotu : Bool
  /-- `file_truncate` gets its memory. -/
  truncates : Bool
  /-- The reply of `npfile_open` gets its memory. -/
  replies : Bool

/-- An `Npfilefid`, and `fid->user`. -/
structure Npfilefid where
  file : FilePtr
  omode : UInt32
  dirent : Option FilePtr
  user : Option UserPtr

/-! ## Operations -/

/-- An operation of the thread. -/
inductive Op where
  | sync (op : LockOp FilePtr)
  /-- `npfile_alloc`: a new file, with a mutex and no references. -/
  | init (f : FilePtr)
  /-- Add to `f->refcount`. -/
  | addRef (f : FilePtr) (n : ℤ)
  /-- Follow `NULL`. -/
  | crash

/-- What an operation returns: the new count of references. -/
abbrev Op.Reply : Op → Type
  | .addRef .. => ℤ
  | _ => Unit

/-- A piece of the code of a callback. -/
abbrev Code : Type → Type := Program Op Op.Reply

/-- The mutex of an operation. -/
def mutex : LockOp FilePtr → FilePtr
  | .lock f | .unlock f | .wait f | .destroy f => f

/-- The thread that serves a call. -/
structure Thread where
  refcount : FilePtr → ℤ
  held : Finset FilePtr
  /-- The files that have been freed. -/
  freed : Finset FilePtr
  /-- The thread has locked a mutex that it holds, has unlocked one that it does not hold, or has
  used one that had been freed. -/
  wrong : Bool
  /-- The thread does not go on. -/
  stopped : Bool

/-- The files that have been freed behind an operation. -/
def freedBy (freed : Finset FilePtr) : LockOp FilePtr → Finset FilePtr
  | .destroy f => insert f freed
  | _ => freed

/-- Perform an operation on a mutex. -/
def Thread.sync (s : Thread) (op : LockOp FilePtr) : Thread :=
  match if mutex op ∈ s.freed then none else op.apply s.held with
  | none => { s with wrong := true, stopped := true }
  | some held => { s with held, freed := freedBy s.freed op }

/-- Perform an operation. -/
def exec : (op : Op) → Thread → op.Reply × Thread
  | .sync op, s => ((), if s.stopped then s else s.sync op)
  | .init f, s => ((), { s with
      refcount := Function.update s.refcount f 0
      freed := s.freed.erase f })
  | .addRef f n, s =>
    (s.refcount f + n, { s with refcount := Function.update s.refcount f (s.refcount f + n) })
  | .crash, s => ((), { s with stopped := true })

/-- `pthread_mutex_lock(&f->lock)`. -/
def lock (f : FilePtr) : Code Unit := .step (.sync (.lock f)) .done

/-- `pthread_mutex_unlock(&f->lock)`. -/
def unlock (f : FilePtr) : Code Unit := .step (.sync (.unlock f)) .done

/-- `pthread_mutex_destroy(&f->lock)`, in front of `free(f)`. -/
def destroy (f : FilePtr) : Code Unit := .step (.sync (.destroy f)) .done

/-- `npfile_alloc`. -/
def init (f : FilePtr) : Code Unit := .step (.init f) .done

/-- Add to `f->refcount`. -/
def addRef (f : FilePtr) (n : ℤ) : Code ℤ := .step (.addRef f n) .done

/-- Follow `NULL`. -/
def crash : Code Unit := .step .crash .done

/-! ## `libnpfs/file.c` -/

/-- `npfile_incref`. -/
def npfileIncref : Option FilePtr → Code Unit
  | none => return ()
  | some f => do
    lock f
    let _ ← addRef f 1
    unlock f

/-- What `npfile_decrefimpl` does when it has the lock. -/
def npfileDecrefUnlock (f : FilePtr) : Code Unit := do
  let ret ← addRef f (-1)
  unlock f
  if ret = 0 then destroy f else return ()

/-- `npfile_decref`. -/
def npfileDecref : Option FilePtr → Code Unit
  | none => return ()
  | some f => do
    lock f
    npfileDecrefUnlock f

namespace Tree

variable (t : Tree)

/-- `rfs_first`. -/
def rfsFirst (dir : FilePtr) : Code (Option FilePtr) := do
  npfileIncref (t.file dir).dirfirst
  return (t.file dir).dirfirst

/-- `rfs_next`. -/
def rfsNext (prevchild : FilePtr) : Code (Option FilePtr) := do
  npfileIncref (t.file prevchild).next
  return (t.file prevchild).next

/-- The loop of `npfile_find`. -/
def findLoop (name : CStr) : (turns : ℕ) → Option FilePtr → Code (Option FilePtr)
  | _, none => return none
  | 0, some _ => do
    crash
    return none
  | turns + 1, some f =>
    if name = (t.file f).name then
      return some f
    else do
      npfileDecref (some f)
      let f ← t.rfsNext f
      findLoop name turns f

/-- `..`. -/
def dotDot : CStr := cstr ".."

/-- `file->mode & Dmdir`. -/
def isDir (file : FilePtr) : Bool := (t.file file).mode &&& Dmdir ≠ 0

/-- `dops->first`, in the place of which a file that is not a directory has `fops->write`. -/
def hasFirst (file : FilePtr) : Bool :=
  if t.isDir file then (t.file file).ops.first else (t.file file).ops.write

/-- `dops->next`, in the place of which a file that is not a directory has `fops->wstat`. -/
def hasNext (file : FilePtr) : Bool :=
  if t.isDir file then (t.file file).ops.next else (t.file file).ops.wstat

/-- `npfile_find`: the file, and whether it calls `np_werror`.  In a file that is not a directory it
calls what is not made to be called so. -/
def npfileFind (dir : FilePtr) (name : CStr) : Code (Option FilePtr × Bool) :=
  if name = dotDot then
    return ((t.file dir).parent, false)
  else do
    lock dir
    if ¬ t.hasFirst dir ∨ ¬ t.hasNext dir then
      unlock dir
      return (none, true)
    else if ¬ t.isDir dir then
      crash
      return (none, false)
    else
      let f ← t.rfsFirst dir
      let f ← t.findLoop name t.turns f
      unlock dir
      return (f, false)

/-- `check_perm`. -/
def checkPerm (fperm : UInt32) (fuid : UserPtr) (fgid : ℕ) (user : Option UserPtr)
    (perm : UInt32) : Bool :=
  match user with
  | none => false
  | some user =>
    let perm := perm &&& 7
    perm = 0 || fperm &&& 7 &&& perm ≠ 0 || fuid = user && (fperm >>> 6) &&& 7 &&& perm ≠ 0 ||
      (fperm >>> 3) &&& 7 &&& perm ≠ 0 && t.ismember user fgid

/-- `npfile_checkperm`. -/
def npfileCheckperm (file : FilePtr) (user : Option UserPtr) (perm : UInt32) : Bool :=
  t.checkPerm (t.file file).mode (t.file file).uid (t.file file).gid user perm

/-- `mode2perm`. -/
def mode2perm (mode : UInt8) : UInt32 :=
  (if mode &&& 3 = 0 then 4 else if mode &&& 3 = Owrite then 2 else if mode &&& 3 = Ordwr then 6
    else 1) ||| if mode &&& Otrunc ≠ 0 then 2 else 0

/-- `npfile_attach`. -/
def npfileAttach (root : FilePtr) (user : Option UserPtr) : Code Unit :=
  if t.npfileCheckperm root user 4 then npfileIncref (some root) else return ()

/-- `npfile_clone`. -/
def npfileClone (f : Npfilefid) : Code Unit := npfileIncref (some f.file)

/-- `npfile_walk`. -/
def npfileWalk (f : Npfilefid) (wname : List UInt8) : Code Unit :=
  if t.npfileCheckperm f.file f.user 1 then do
    let (nfile, _) ← t.npfileFind f.file (npStrdup wname)
    if nfile.isSome then npfileDecref (some f.file) else return ()
  else
    return ()

/-- `npfile_open`, of which the middle part takes no lock. -/
def npfileOpen (f : Npfilefid) (mode : UInt8) : Code Unit := do
  lock f.file
  if ¬ t.npfileCheckperm f.file f.user (mode2perm mode) ∨
      mode &&& Oexcl ≠ 0 ∧ (t.file f.file).excl then
    unlock f.file
  else
    unlock f.file
    let opened := t.isDir f.file ∨ mode &&& Otrunc = 0 ∨ (t.file f.file).ops.wstat
    if ¬ (opened ∧ t.replies) ∧ mode &&& Oexcl ≠ 0 then
      lock f.file
      unlock f.file
    else
      return ()

/-- `Dmlink`. -/
def Dmlink : UInt32 := 0x01000000

/-- `rfs_create`: the new file. -/
def rfsCreate (dir : FilePtr) (perm : UInt32) : Code (Option FilePtr) :=
  if perm &&& Dmlink ≠ 0 then
    return none
  else do
    init t.fresh
    let _ ← addRef dir 1
    npfileIncref (some t.fresh)
    npfileIncref (some t.fresh)
    return some t.fresh

/-- The permissions of a new file in a directory with these. -/
def createPerm (perm mode : UInt32) : UInt32 :=
  let perm := if perm &&& Ufs.Dmsymlink ≠ 0 then perm ||| 0o777 else perm
  if perm &&& Dmdir ≠ 0 then perm &&& (~~~0o777 ||| (mode &&& 0o777))
  else perm &&& (~~~0o666 ||| (mode &&& 0o666))

/-- `npfile_create`. -/
def npfileCreate (f : Npfilefid) (name : List UInt8) (perm : UInt32) (mode : UInt8) :
    Code Unit := do
  let sname := npStrdup name
  let dir := f.file
  let (nf, error) ← t.npfileFind dir sname
  let perm := createPerm perm (t.file dir).mode
  if error ∨ nf.isSome ∨ sname = cstr "." ∨ sname = dotDot ∨ ¬ t.npfileCheckperm dir f.user 2 ∨
      ¬ t.checkPerm perm (f.user.getD 0) (t.file dir).gid f.user (mode2perm mode) then
    return ()
  else
    lock dir
    if ¬ (t.file dir).ops.create then
      unlock dir
    else
      let file ← t.rfsCreate dir perm
      match file with
      | none => unlock dir
      | some file => do
        lock file
        unlock file
        unlock dir

/-- The loop of `npfile_read`: `ret->data`, and the child that comes next. -/
def readLoop (count : ℕ) : (turns : ℕ) → (buf : List UInt8) → (n : ℕ) → Option FilePtr → Code Unit
  | 0, _, _, _ | _, _, _, none => return ()
  | turns + 1, buf, n, some cf =>
    if n < count then
      let (i, mem) := npSerializeStat (t.wstat cf) ((buf.drop n).take (count - n - 1)) t.dotu
      if i = 0 then
        return ()
      else do
        let cf1 ← t.rfsNext cf
        npfileDecref (some cf)
        readLoop count turns (store buf n mem) (n + i) cf1
    else
      return ()

/-- The child that `npfile_read` starts with. -/
def restart (f : Npfilefid) (offset : UInt64) : Code (Option FilePtr) :=
  if offset = 0 then do
    npfileDecref f.dirent
    t.rfsFirst f.file
  else
    return f.dirent

/-- `npfile_read`, with the memory of its reply. -/
def npfileRead (f : Npfilefid) (offset : UInt64) (count : UInt32) (data : List UInt8) :
    Code Unit :=
  if t.isDir f.file then do
    lock f.file
    if ¬ (t.file f.file).ops.first ∨ ¬ (t.file f.file).ops.next then
      unlock f.file
    else
      let cf ← t.restart f offset
      t.readLoop count.toNat count.toNat data 0 cf
      unlock f.file
  else if ¬ (t.file f.file).ops.read then
    return ()
  else do
    lock f.file
    unlock f.file

/-- `rfs_write`: whether it calls `np_werror`. -/
def rfsWrite (f : Npfilefid) (offset : UInt64) (count : UInt32) : Code Bool :=
  if (t.file f.file).length < offset + count.toUInt64 then do
    lock f.file
    unlock f.file
    return ¬ t.truncates
  else
    return false

/-- `npfile_write`.  `np_write` does not ask for it on a directory. -/
def npfileWrite (f : Npfilefid) (offset : UInt64) (count : UInt32) : Code Unit :=
  if t.isDir f.file then
    crash
  else if ¬ (t.file f.file).ops.write then
    return ()
  else do
    let offset := if f.omode &&& Oappend.toUInt32 ≠ 0 then (t.file f.file).length else offset
    let error ← t.rfsWrite f offset count
    if error then
      return ()
    else
      lock f.file
      unlock f.file

/-- `rfs_remove`, which follows `file->prev` unless the file is the first one. -/
def rfsRemove (dir file : FilePtr) : Code Unit :=
  if (t.file dir).dirfirst = some file ∨ (t.file file).prev.isSome then return () else crash

/-- The second part of `npfile_remove`. -/
def removeFrom (f : Npfilefid) (parent : FilePtr) : Code Unit := do
  lock parent
  if ¬ t.npfileCheckperm parent f.user 2 ∨ ¬ (t.file parent).ops.remove then
    unlock parent
  else
    t.rfsRemove parent f.file
    npfileDecref (some f.file)
    npfileDecrefUnlock parent

/-- What `npfile_remove` does with a file that has no children. -/
def removeChildless (f : Npfilefid) : Code Unit := do
  unlock f.file
  match (t.file f.file).parent with
  | none => crash
  | some parent => t.removeFrom f parent

/-- `npfile_remove`. -/
def npfileRemove (f : Npfilefid) : Code Unit := do
  lock f.file
  if t.isDir f.file ∧ ¬ (t.file f.file).ops.first then
    return ()
  else
    let cf ← if t.isDir f.file then t.rfsFirst f.file else pure none
    match cf with
    | some cf => do
      npfileDecref (some cf)
      unlock f.file
    | none => t.removeChildless f

/-- `npfile_stat`. -/
def npfileStat (f : Npfilefid) : Code Unit := do
  lock f.file
  unlock f.file

/-- The fields of an `Npstat` that `npfile_wstat` tests. -/
structure Stat where
  name : List UInt8
  length : UInt64
  mode : UInt32
  mtime : UInt32

/-- `rfs_wstat`, of which the part that changes the file takes no lock. -/
def rfsWstat (parent : FilePtr) (stat : Stat) : Code Unit :=
  if stat.name ≠ [] then do
    lock parent
    let _ ← t.npfileFind parent (npStrdup stat.name)
    unlock parent
  else
    return ()

/-- The tests of `npfile_wstat`, of a file and the parent that it follows. -/
def wstatPasses (f : Npfilefid) (parent : FilePtr) (stat : Stat) : Bool :=
  (stat.name = [] || t.npfileCheckperm parent f.user 2) &&
    (stat.length = 0xFFFFFFFFFFFFFFFF || t.npfileCheckperm f.file f.user 2) &&
    (stat.mode = 0xFFFFFFFF || some (t.file f.file).uid = f.user) &&
    (stat.mtime = 0xFFFFFFFF || some (t.file f.file).uid = f.user) && (t.file f.file).ops.wstat

/-- `npfile_wstat`. -/
def npfileWstat (f : Npfilefid) (stat : Stat) : Code Unit := do
  lock f.file
  match (t.file f.file).parent with
  | none =>
    if stat.name ≠ [] then crash else unlock f.file
  | some parent =>
    if t.wstatPasses f parent stat then
      t.rfsWstat parent stat
      unlock f.file
    else
      unlock f.file

/-- `npfile_fiddestroy`. -/
def npfileFiddestroy (f : Npfilefid) : Code Unit := do
  if f.omode ≠ 0xFFFFFFFF then npfileDecref f.dirent else pure ()
  npfileDecref (some f.file)

end Tree

/-! ## Calls -/

/-- A call of the server. -/
inductive Call where
  | attach (root : FilePtr) (user : Option UserPtr)
  | clone (f : Npfilefid)
  | walk (f : Npfilefid) (wname : List UInt8)
  | openFile (f : Npfilefid) (mode : UInt8)
  | create (f : Npfilefid) (name : List UInt8) (perm : UInt32) (mode : UInt8)
  | read (f : Npfilefid) (offset : UInt64) (count : UInt32) (data : List UInt8)
  | write (f : Npfilefid) (offset : UInt64) (count : UInt32)
  | clunk
  | remove (f : Npfilefid)
  | stat (f : Npfilefid)
  | wstat (f : Npfilefid) (stat : Tree.Stat)
  | fiddestroy (f : Npfilefid)

namespace Tree

variable (t : Tree)

/-- Serve a call.  `npfile_clunk` does nothing but reply. -/
def serve : Call → Code Unit
  | .attach root user => t.npfileAttach root user
  | .clone f => npfileClone f
  | .walk f wname => t.npfileWalk f wname
  | .openFile f mode => t.npfileOpen f mode
  | .create f name perm mode => t.npfileCreate f name perm mode
  | .read f offset count data => t.npfileRead f offset count data
  | .write f offset count => t.npfileWrite f offset count
  | .clunk => return ()
  | .remove f => t.npfileRemove f
  | .stat f => npfileStat f
  | .wstat f stat => t.npfileWstat f stat
  | .fiddestroy f => npfileFiddestroy f

/-- The thread when it has served a call. -/
def after (call : Call) (s : Thread) : Thread := ((t.serve call).run exec s).2

/-! ## What a call locks -/

/-- The files of a list from a file on. -/
def siblings (f : Option FilePtr) : List FilePtr :=
  (LinkedChain.walk (fun f => (t.file f).next) t.turns f).getD []

/-- The children of a directory. -/
def children (dir : FilePtr) : List FilePtr := t.siblings (t.file dir).dirfirst

/-- The callbacks that go through a directory are there. -/
def lists (dir : FilePtr) : Bool :=
  t.isDir dir && (t.file dir).ops.first && (t.file dir).ops.next

/-- The files that are compared with a name, up to the one that has it. -/
def compared (name : CStr) : List FilePtr → List FilePtr
  | [] => []
  | f :: files => if name = (t.file f).name then [f] else f :: compared name files

/-- The files that `npfile_find` locks. -/
def searched (dir : FilePtr) (name : CStr) : List FilePtr :=
  if name = dotDot then []
  else dir :: if t.lists dir then t.compared name (t.children dir) else []

/-- The number of records that `npfile_read` writes. -/
def records (count : ℕ) : (turns : ℕ) → (buf : List UInt8) → (n : ℕ) → List FilePtr → ℕ
  | 0, _, _, _ | _, _, _, [] => 0
  | turns + 1, buf, n, cf :: files =>
    if n < count then
      let (i, mem) := npSerializeStat (t.wstat cf) ((buf.drop n).take (count - n - 1)) t.dotu
      if i = 0 then 0 else records count turns (store buf n mem) (n + i) files + 1
    else 0

/-- The files that the loop of `npfile_read` locks: those it writes, and the one behind them. -/
def written (count : ℕ) (data : List UInt8) (files : List FilePtr) : List FilePtr :=
  if t.records count count data 0 files = 0 then []
  else files.take (t.records count count data 0 files + 1)

/-- The children that `npfile_read` locks. -/
def read (f : Npfilefid) (offset : UInt64) (count : UInt32) (data : List UInt8) : List FilePtr :=
  if offset = 0 then
    (t.file f.file).dirfirst.toList ++ t.written count.toNat data (t.children f.file)
  else t.written count.toNat data (t.siblings f.dirent)

/-- The files that a call locks. -/
def uses : Call → List FilePtr
  | .attach root user => if t.npfileCheckperm root user 4 then [root] else []
  | .clone f | .openFile f _ | .stat f => [f.file]
  | .walk f wname =>
    if t.npfileCheckperm f.file f.user 1 then
      t.searched f.file (npStrdup wname) ++
        if npStrdup wname = dotDot ∧ (t.file f.file).parent.isSome then [f.file] else []
    else []
  | .create f name _ _ => t.searched f.file (npStrdup name)
  | .read f offset count data =>
    if t.isDir f.file then
      f.file :: if t.lists f.file then
        (if offset = 0 then f.dirent.toList else []) ++ t.read f offset count data else []
    else if (t.file f.file).ops.read then [f.file] else []
  | .write f _ _ => if ¬ t.isDir f.file ∧ (t.file f.file).ops.write then [f.file] else []
  | .clunk => []
  | .remove f =>
    f.file :: if t.isDir f.file ∧ ¬ (t.file f.file).ops.first then []
      else if t.isDir f.file ∧ (t.file f.file).dirfirst.isSome then
        (t.file f.file).dirfirst.toList
      else (t.file f.file).parent.toList
  | .wstat f stat =>
    f.file :: (t.file f.file).parent.toList.filter fun parent =>
      stat.name ≠ [] ∧ t.wstatPasses f parent stat
  | .fiddestroy f => (if f.omode ≠ 0xFFFFFFFF then f.dirent.toList else []) ++ [f.file]

/-- A directory without the callback `first` is not removed.  The name of a file is not changed,
unless the request does not pass the tests, or the new name is `..` and the file is not the root.
A read that starts again does not lock the child of the fid if it has freed it. -/
def Allowed (s : Thread) : Call → Prop
  | .remove f => ¬ (t.isDir f.file ∧ ¬ (t.file f.file).ops.first)
  | .wstat f stat => stat.name ≠ [] → ∀ parent ∈ (t.file f.file).parent,
    t.wstatPasses f parent stat → npStrdup stat.name = dotDot ∧ parent ≠ f.file
  | .read f offset count data => t.isDir f.file → t.lists f.file → offset = 0 →
    ∀ d ∈ f.dirent, s.refcount d = 1 → d ∉ t.read f offset count data
  | _ => True

/-- No file that the call locks has been freed, and what it does is allowed. -/
def Clean (s : Thread) (call : Call) : Prop :=
  (∀ f ∈ t.uses call, f ∉ s.freed) ∧ t.Allowed s call

/-- The fid of a call and its file in the tree: the links from the first child on and from the child
of the fid on end, and do not lead to the file itself; a root is nobody's successor. -/
structure Sound (f : Npfilefid) : Prop where
  children : LinkedChain.Path (fun f => (t.file f).next) (t.file f.file).dirfirst
    (t.children f.file)
  siblings : LinkedChain.Path (fun f => (t.file f).next) f.dirent (t.siblings f.dirent)
  apart : f.file ∉ t.children f.file
  apart' : f.file ∉ t.siblings f.dirent
  short : (t.children f.file).length ≤ t.turns
  fresh : t.fresh ≠ f.file
  root : (t.file f.file).parent = some f.file → (t.file f.file).prev = none

/-- The fid of a call. -/
def fid : Call → Option Npfilefid
  | .attach _ _ | .clunk => none
  | .clone f | .walk f _ | .openFile f _ | .create f _ _ _ | .read f _ _ _ | .write f _ _ |
    .remove f | .stat f | .wstat f _ | .fiddestroy f => some f

end Tree

/-- The thread holds no lock of a file, and has not gone wrong. -/
structure Thread.Idle (s : Thread) : Prop where
  held : s.held = ∅
  wrong : s.wrong = false
  stopped : s.stopped = false

/-- The thread has not gone wrong, and holds no lock if it goes on. -/
def Thread.Disciplined (s : Thread) : Prop := s.wrong = false ∧ (s.stopped = false → s.held = ∅)

/-! ## Code that ends as it should if a condition holds -/

/-- A thread that has gone wrong has gone wrong for good. -/
def gone : Trap exec where
  holds s := s.wrong = true
  lasts op s wrong := by
    cases op with
    | sync op =>
        simp only [exec, Thread.sync]
        split_ifs
        · exact wrong
        · rfl
        · cases op.apply s.held with
          | none => rfl
          | some held => exact wrong
    | init f => exact wrong
    | addRef f n => exact wrong
    | crash => exact wrong

/-- Where the condition holds the code ends as it should, and elsewhere the thread goes wrong. -/
abbrev Does {α : Type} (code : Code α) (s : Thread) (p : Prop) (post : α → Thread → Prop) : Prop :=
  EnsuresIff gone code s p post

/-! ## Locks and references -/

section Locks

variable {s s' s'' : Thread} {f : FilePtr} {files files' : List FilePtr} {p : Prop}

theorem does_lock (goes : s.stopped = false) (free : f ∉ s.held) :
    Does (lock f) s (f ∉ s.freed) fun _ s' => s' = { s with held := insert f s.held } := by
  constructor
  · intro live
    simp [lock, exec, goes, Thread.sync, mutex, live, LockOp.apply, free, freedBy]
  · intro freed
    simp [gone, lock, exec, goes, Thread.sync, mutex, not_not.mp freed]

theorem does_relock (goes : s.stopped = false) (held : f ∈ s.held) :
    ((lock f).run exec s).2.wrong = true := by
  simp only [lock, run_step, run_done, exec, goes, Bool.false_eq_true, if_false, Thread.sync, mutex,
    LockOp.apply, held, if_true]
  split_ifs <;> rfl

theorem does_unlock (goes : s.stopped = false) (held : f ∈ s.held) (live : f ∉ s.freed) :
    Does (unlock f) s True fun _ s' => s' = { s with held := s.held.erase f } := by
  refine ⟨fun _ => ?_, fun no => absurd trivial no⟩
  simp [unlock, exec, goes, Thread.sync, mutex, live, LockOp.apply, held, freedBy]

theorem does_destroy (goes : s.stopped = false) (free : f ∉ s.held) (live : f ∉ s.freed) :
    Does (destroy f) s True fun _ s' => s' = { s with freed := insert f s.freed } := by
  refine ⟨fun _ => ?_, fun no => absurd trivial no⟩
  simp [destroy, exec, goes, Thread.sync, mutex, live, LockOp.apply, free, freedBy]

/-- The thread holds what it held, goes on, and has freed none but these files. -/
structure Quiet (files : List FilePtr) (s s' : Thread) : Prop where
  held : s'.held = s.held
  wrong : s'.wrong = s.wrong
  stopped : s'.stopped = s.stopped
  freed : ∀ f ∉ files, f ∈ s'.freed ↔ f ∈ s.freed

theorem Quiet.refl : Quiet files s s := ⟨rfl, rfl, rfl, fun _ _ => Iff.rfl⟩

theorem Quiet.trans (first : Quiet files s s') (second : Quiet files s' s'') :
    Quiet files s s'' :=
  ⟨second.held.trans first.held, second.wrong.trans first.wrong,
    second.stopped.trans first.stopped,
    fun f out => (second.freed f out).trans (first.freed f out)⟩

theorem Quiet.mono (quiet : Quiet files s s') (more : ∀ f ∈ files, f ∈ files') :
    Quiet files' s s' :=
  ⟨quiet.held, quiet.wrong, quiet.stopped, fun f out => quiet.freed f (mt (more f) out)⟩

theorem does_addRef (n : ℤ) : Does (addRef f n) s True fun ret s' => ret = s.refcount f + n ∧
    s' = { s with refcount := Function.update s.refcount f (s.refcount f + n) } :=
  ⟨fun _ => ⟨rfl, rfl⟩, fun no => absurd trivial no⟩

/-- A reference is taken. -/
theorem does_incref (goes : s.stopped = false) (free : f ∉ s.held) :
    Does (npfileIncref (some f)) s (f ∉ s.freed) fun _ s' =>
      s' = { s with refcount := Function.update s.refcount f (s.refcount f + 1) } := by
  refine EnsuresIff.before (does_lock goes free) fun live _ s₁ locked => ?_
  subst locked
  refine EnsuresIff.behind (does_addRef 1) fun _ s₂ counted => ?_
  obtain ⟨-, rfl⟩ := counted
  refine EnsuresIff.mono (does_unlock goes (Finset.mem_insert_self f s.held) live)
    fun _ s₃ unlocked => ?_
  simpa [Finset.erase_insert free] using unlocked

/-- A reference is given up by a thread that has the lock. -/
theorem does_decrefUnlock (goes : s.stopped = false) (held : f ∈ s.held) (live : f ∉ s.freed) :
    Does (npfileDecrefUnlock f) s True fun _ s' => s' = { s with
      held := s.held.erase f
      refcount := Function.update s.refcount f (s.refcount f - 1)
      freed := if s.refcount f = 1 then insert f s.freed else s.freed } := by
  refine EnsuresIff.behind (does_addRef (-1)) fun ret s₁ counted => ?_
  obtain ⟨rfl, rfl⟩ := counted
  refine EnsuresIff.behind (does_unlock goes held live) fun _ s₂ unlocked => ?_
  subst unlocked
  by_cases last : s.refcount f = 1
  · have zero : s.refcount f + -1 = 0 := by omega
    simp only [if_pos zero, if_pos last]
    exact does_destroy goes (Finset.notMem_erase f s.held) live
  · have more : s.refcount f + -1 ≠ 0 := by omega
    simp only [if_neg more, if_neg last]
    exact ensuresIff_done trivial rfl

/-- A reference is given up. -/
theorem does_decref (goes : s.stopped = false) (free : f ∉ s.held) :
    Does (npfileDecref (some f)) s (f ∉ s.freed) fun _ s' => s' = { s with
      refcount := Function.update s.refcount f (s.refcount f - 1)
      freed := if s.refcount f = 1 then insert f s.freed else s.freed } := by
  refine EnsuresIff.before (does_lock goes free) fun live _ s₁ locked => ?_
  subst locked
  refine EnsuresIff.mono (does_decrefUnlock goes (Finset.mem_insert_self f s.held) live)
    fun _ s₂ counted => ?_
  simpa [Finset.erase_insert free] using counted

theorem quiet_incref {f : Option FilePtr} (goes : s.stopped = false) (free : ∀ g ∈ f, g ∉ s.held) :
    Does (npfileIncref f) s (∀ g ∈ f, g ∉ s.freed) fun _ s' => Quiet [] s s' := by
  cases f with
  | none => exact ensuresIff_done (by simp) .refl
  | some f =>
      refine ((does_incref goes (free f rfl)).congr (by simp)).mono fun _ s' counted => ?_
      subst counted
      exact ⟨rfl, rfl, rfl, fun _ _ => Iff.rfl⟩

theorem quiet_decref (goes : s.stopped = false) (free : f ∉ s.held) :
    Does (npfileDecref (some f)) s (f ∉ s.freed) fun _ s' => Quiet [f] s s' := by
  refine (does_decref goes free).mono fun _ s' counted => ?_
  subst counted
  refine ⟨rfl, rfl, rfl, fun g other => ?_⟩
  have different : g ≠ f := by simpa using other
  change g ∈ (if s.refcount f = 1 then insert f s.freed else s.freed) ↔ g ∈ s.freed
  split_ifs
  · simp [different]
  · rfl

/-- The mutex of a file is taken and released. -/
theorem does_section (goes : s.stopped = false) (free : f ∉ s.held) :
    Does (do lock f; unlock f) s (f ∉ s.freed) fun _ s' => s' = s := by
  refine EnsuresIff.before (does_lock goes free) fun live _ s₁ locked => ?_
  subst locked
  refine EnsuresIff.mono (does_unlock goes (Finset.mem_insert_self f s.held) live)
    fun _ s₂ unlocked => ?_
  simpa [Finset.erase_insert free] using unlocked

/-- The mutex of a file is taken and released in front of other code. -/
theorem does_section_before {α : Type} {rest : Code α} {post : α → Thread → Prop}
    (then' : f ∉ s.freed → Does rest s p post) (goes : s.stopped = false) (free : f ∉ s.held) :
    Does (do lock f; unlock f; rest) s (f ∉ s.freed ∧ p) post := by
  have both : Does ((do lock f; unlock f) >>= fun _ => rest) s (f ∉ s.freed ∧ p) post :=
    (does_section goes free).bind fun live _ s' same => same ▸ then' live
  rwa [bind_assoc] at both

/-- A thread that does not go on does no more. -/
theorem does_stopped {α : Type} (code : Code α) (stopped : s.stopped = true)
    (right : s.wrong = false) : Does code s True fun _ s' => s'.Disciplined := by
  have kept : ∀ (op : Op) (s : Thread), s.stopped = true ∧ s.wrong = false →
      (exec op s).2.stopped = true ∧ (exec op s).2.wrong = false := by
    rintro op s ⟨stopped, right⟩
    cases op with
    | sync op => simp [exec, stopped, right]
    | init f => exact ⟨stopped, right⟩
    | addRef f n => exact ⟨stopped, right⟩
    | crash => exact ⟨rfl, right⟩
  obtain ⟨stopped', right'⟩ := (run_invariant exec kept code ⟨stopped, right⟩).1
  refine ⟨fun _ => ⟨right', fun goes => ?_⟩, fun no => absurd trivial no⟩
  rw [stopped'] at goes
  cases goes

theorem does_crash (right : s.wrong = false) :
    Does crash s True fun _ s' => s'.stopped = true ∧ s'.wrong = false :=
  ⟨fun _ => ⟨rfl, right⟩, fun no => absurd trivial no⟩

theorem Quiet.disciplined (quiet : Quiet files s s') (idle : s.Idle) : s'.Disciplined :=
  ⟨quiet.wrong.trans idle.wrong, fun _ => quiet.held.trans idle.held⟩

theorem Thread.Idle.disciplined (idle : s.Idle) : s.Disciplined := ⟨idle.wrong, fun _ => idle.held⟩

theorem Thread.Idle.free (idle : s.Idle) (f : FilePtr) : f ∉ s.held := by simp [idle.held]

/-- Files that stay apart from those that are freed. -/
theorem Quiet.all_iff (quiet : Quiet files s s') (apart : ∀ f ∈ files', f ∉ files) :
    (∀ f ∈ files', f ∉ s'.freed) ↔ ∀ f ∈ files', f ∉ s.freed :=
  forall₂_congr fun f member => not_congr (quiet.freed f (apart f member))

end Locks

namespace Tree

variable {t : Tree} {s s' : Thread} {f : FilePtr} {files : List FilePtr} {start : Option FilePtr}

/-! ## Going through a directory -/

theorem does_rfsNext (goes : s.stopped = false) (free : ∀ g ∈ (t.file f).next, g ∉ s.held) :
    Does (t.rfsNext f) s (∀ g ∈ (t.file f).next, g ∉ s.freed) fun r s' =>
      r = (t.file f).next ∧ Quiet [] s s' :=
  (quiet_incref goes free).before fun _ _ _ quiet => ensuresIff_done trivial ⟨rfl, quiet⟩

theorem does_rfsFirst (goes : s.stopped = false) (free : ∀ g ∈ (t.file f).dirfirst, g ∉ s.held) :
    Does (t.rfsFirst f) s (∀ g ∈ (t.file f).dirfirst, g ∉ s.freed) fun r s' =>
      r = (t.file f).dirfirst ∧ Quiet [] s s' :=
  (quiet_incref goes free).before fun _ _ _ quiet => ensuresIff_done trivial ⟨rfl, quiet⟩

theorem compared_head (name : CStr) : ∀ g ∈ files.head?, g ∈ t.compared name files := by
  cases files with
  | nil => simp
  | cons f files =>
      intro g first
      obtain rfl : f = g := by simpa using first
      simp only [compared]
      split_ifs <;> simp

theorem compared_subset (name : CStr) : ∀ g ∈ t.compared name files, g ∈ files := by
  induction files with
  | nil => simp [compared]
  | cons f files ih =>
      intro g member
      simp only [compared] at member
      split_ifs at member
      · simp_all
      · rcases List.mem_cons.mp member with rfl | member
        · exact List.mem_cons_self
        · exact List.mem_cons_of_mem _ (ih g member)

/-- The loop of `npfile_find` locks the files that it compares. -/
theorem does_findLoop (name : CStr) {turns : ℕ}
    (path : LinkedChain.Path (fun f => (t.file f).next) start files)
    (short : files.length ≤ turns) (goes : s.stopped = false) (free : ∀ g ∈ files, g ∉ s.held)
    (live : ∀ g ∈ start, g ∉ s.freed) :
    Does (t.findLoop name turns start) s (∀ g ∈ t.compared name files, g ∉ s.freed) fun _ s' =>
      Quiet files s s' := by
  induction files generalizing turns start s with
  | nil =>
      obtain rfl : start = none := path.start_eq
      have code : t.findLoop name turns none = .done none := by cases turns <;> rfl
      rw [code]
      exact ensuresIff_done (by simp [compared]) .refl
  | cons f files ih =>
      have apart := (List.nodup_cons.mp path.nodup).1
      have more : ∀ g ∈ files, g ∈ f :: files := fun g => List.mem_cons_of_mem f
      have known := live
      cases path with
      | cons rest =>
          have next : (t.file f).next = files.head? := rest.start_eq
          have free₁ : f ∉ s.held := free f List.mem_cons_self
          have live₁ : f ∉ s.freed := live f rfl
          cases turns with
          | zero => simp at short
          | succ turns =>
              by_cases named : name = (t.file f).name
              · simp only [findLoop, compared, if_pos named]
                exact ensuresIff_done (by simpa using live₁) .refl
              · simp only [findLoop, compared, if_neg named]
                refine ((quiet_decref goes free₁).congr (iff_true_intro live₁)).behind
                  (q := ∀ g ∈ f :: t.compared name files, g ∉ s.freed) fun _ s₁ quiet₁ => ?_
                have goes₁ : s₁.stopped = false := quiet₁.stopped.trans goes
                have freeNext : ∀ g ∈ (t.file f).next, g ∉ s₁.held := by
                  intro g link
                  rw [quiet₁.held]
                  exact free g (more g (List.mem_of_mem_head? (next ▸ link)))
                refine EnsuresIff.congr (EnsuresIff.bind (does_rfsNext goes₁ freeNext)
                  (q := ∀ g ∈ t.compared name files, g ∉ s.freed) fun live₂ r s₂ quiet₂ => ?_) ?_
                · obtain ⟨rfl, quiet₂⟩ := quiet₂
                  have goes₂ : s₂.stopped = false := quiet₂.stopped.trans goes₁
                  have quiet := quiet₁.trans (quiet₂.mono (by simp))
                  have found := ih rest (Nat.le_of_succ_le_succ short) goes₂
                    (fun g member => by rw [quiet.held]; exact free g (more g member))
                    (fun g link => (quiet₂.freed g (by simp)).not.mpr (live₂ g link))
                  refine (found.congr (quiet.all_iff fun g member => ?_)).mono
                    fun _ s₃ quiet₃ => ?_
                  · rw [List.mem_singleton]
                    rintro rfl
                    exact apart (compared_subset name g member)
                  · exact (quiet.mono (by simp)).trans (quiet₃.mono more)
                · refine ⟨fun both => List.forall_mem_cons.mpr ⟨live₁, both.2⟩, fun all => ?_⟩
                  have all := (List.forall_mem_cons.mp all).2
                  refine ⟨fun g link => ?_, all⟩
                  have first := compared_head (t := t) name g (next ▸ link)
                  have other : g ∉ [f] := by
                    rw [List.mem_singleton]
                    rintro rfl
                    exact apart (compared_subset name g first)
                  exact (quiet₁.freed g other).not.mpr (all g first)

/-- The fid of a call and its directory. -/
theorem Sound.freeChildren {fid : Npfilefid} (sound : t.Sound fid) (idle : s.held = {fid.file}) :
    ∀ g ∈ t.children fid.file, g ∉ s.held := by
  intro g member
  rw [idle, Finset.mem_singleton]
  rintro rfl
  exact sound.apart member

/-- `npfile_find` in the file of a fid: it finds the file or not, or does not return. -/
theorem does_npfileFind {fid : Npfilefid} (name : CStr) (sound : t.Sound fid) (idle : s.Idle) :
    Does (t.npfileFind fid.file name) s (∀ g ∈ t.searched fid.file name, g ∉ s.freed) fun r s' =>
      Quiet (t.children fid.file) s s' ∧ (name = dotDot → r.1 = (t.file fid.file).parent) ∨
        name ≠ dotDot ∧ s'.stopped = true ∧ s'.wrong = false := by
  obtain ⟨idle, right, goes⟩ := idle
  by_cases up : name = dotDot
  · simp only [npfileFind, searched, if_pos up]
    exact ensuresIff_done (by simp) (.inl ⟨.refl, fun _ => rfl⟩)
  · simp only [npfileFind, searched, if_neg up]
    have free : fid.file ∉ s.held := by simp [idle]
    refine (EnsuresIff.bind (does_lock goes free) (q := ∀ g ∈ if t.lists fid.file then
      t.compared name (t.children fid.file) else [], g ∉ s.freed) fun live _ s₁ locked => ?_).congr
        (List.forall_mem_cons (p := fun g => g ∉ s.freed)).symm
    subst locked
    have held : insert fid.file s.held = {fid.file} := by rw [idle, insert_empty_eq]
    have member : fid.file ∈ insert fid.file s.held := Finset.mem_insert_self _ _
    have given : (insert fid.file s.held).erase fid.file = s.held := Finset.erase_insert free
    refine ensuresIff_ite (fun missing => ?_) fun present => ?_
    · have absent : t.lists fid.file = false := by
        simp only [hasFirst, hasNext] at missing
        by_cases dir : t.isDir fid.file = true
        · simpa [lists, dir, or_iff_not_imp_left] using missing
        · simp [lists, dir]
      simp only [absent]
      refine EnsuresIff.behind (does_unlock goes member live) (q := _) fun _ s₂ unlocked => ?_
      subst unlocked
      exact ensuresIff_done (by simp)
        (.inl ⟨⟨given, rfl, rfl, fun _ _ => Iff.rfl⟩, fun same => absurd same up⟩)
    refine ensuresIff_ite (fun plain => ?_) fun dir => ?_
    · have absent : t.lists fid.file = false := by simp [lists, plain]
      simp only [absent]
      refine EnsuresIff.behind (does_crash right) (q := _) fun _ s₂ crashed => ?_
      exact ensuresIff_done (by simp) (.inr ⟨up, crashed⟩)
    have dir' : t.isDir fid.file = true := not_not.mp dir
    have listed : t.lists fid.file = true := by
      simpa [lists, dir', hasFirst, hasNext, not_or] using present
    simp only [listed, if_true]
    have apart := sound.freeChildren (s := { s with held := insert fid.file s.held }) held
    have start := sound.children.start_eq
    have first := does_rfsFirst (s := { s with held := insert fid.file s.held }) goes fun g link =>
      apart g (List.mem_of_mem_head? (start ▸ link))
    refine (EnsuresIff.bind first (q := ∀ g ∈ t.compared name (t.children fid.file), g ∉ s.freed)
      fun live₁ r s₁ first => ?_).congr ?_
    · obtain ⟨rfl, quiet₁⟩ := first
      have goes₁ : s₁.stopped = false := quiet₁.stopped.trans goes
      have found := does_findLoop name sound.children sound.short goes₁
        (fun g inside => by rw [quiet₁.held]; exact apart g inside)
        (fun g link => (quiet₁.freed g (by simp)).not.mpr (live₁ g link))
      refine EnsuresIff.before (found.congr (quiet₁.all_iff (by simp))) fun _ r s₂ quiet₂ => ?_
      have quiet := (quiet₁.mono (by simp)).trans quiet₂
      have live₂ : fid.file ∉ s₂.freed := (quiet.freed _ sound.apart).not.mpr live
      have member₂ : fid.file ∈ s₂.held := by rw [quiet.held]; exact member
      refine EnsuresIff.behind (does_unlock (quiet.stopped.trans goes) member₂ live₂)
        fun _ s₃ unlocked => ?_
      subst unlocked
      refine ensuresIff_done trivial (.inl ⟨⟨?_, quiet.wrong, quiet.stopped, quiet.freed⟩,
        fun same => absurd same up⟩)
      rw [quiet.held]
      exact given
    · refine ⟨fun both => both.2, fun all => ⟨fun g link => ?_, all⟩⟩
      exact all g (compared_head name g (start ▸ link))

/-- The loop of `npfile_read` locks the files that it writes, and the one behind them. -/
theorem does_readLoop {count turns n : ℕ} {buf : List UInt8}
    (path : LinkedChain.Path (fun f => (t.file f).next) start files) (goes : s.stopped = false)
    (free : ∀ g ∈ files, g ∉ s.held) :
    Does (t.readLoop count turns buf n start) s
      (∀ g ∈ if t.records count turns buf n files = 0 then []
        else files.take (t.records count turns buf n files + 1), g ∉ s.freed) fun _ s' =>
      Quiet files s s' := by
  induction turns generalizing buf n start files s with
  | zero => exact ensuresIff_done (by simp [records]) .refl
  | succ turns ih =>
      have whole := path.nodup
      cases path with
      | nil => exact ensuresIff_done (by simp [records]) .refl
      | @cons cf files rest =>
          have apart : cf ∉ files := (List.nodup_cons.mp whole).1
          have more : ∀ g ∈ files, g ∈ cf :: files := fun g => List.mem_cons_of_mem cf
          have next : (t.file cf).next = files.head? := rest.start_eq
          simp only [readLoop, records]
          by_cases room : n < count
          · simp only [if_pos room]
            rcases npSerializeStat (t.wstat cf) ((buf.drop n).take (count - n - 1)) t.dotu with
              ⟨i, mem⟩
            by_cases full : i = 0
            · simp only [if_pos full]
              exact ensuresIff_done (by simp) .refl
            · simp only [if_neg full, Nat.succ_ne_zero, if_false, List.take_succ_cons]
              have freeNext : ∀ g ∈ (t.file cf).next, g ∉ s.held := fun g link =>
                free g (more g (List.mem_of_mem_head? (next ▸ link)))
              generalize written : t.records count turns (store buf n mem) (n + i) files = k
              have others (g : FilePtr) (member : g ∈ if k = 0 then [] else files.take (k + 1)) :
                  g ∈ files := by
                split_ifs at member
                · cases member
                · exact List.mem_of_mem_take member
              have loop {s₂ : Thread} (quiet₂ : Quiet [cf] s s₂) :
                  Does (t.readLoop count turns (store buf n mem) (n + i) (t.file cf).next) s₂
                    (∀ g ∈ if k = 0 then [] else files.take (k + 1), g ∉ s.freed) fun _ s' =>
                    Quiet (cf :: files) s s' := by
                have wrote := @ih _ _ _ (n + i) (store buf n mem) rest
                  (quiet₂.stopped.trans goes)
                  (fun g member => by rw [quiet₂.held]; exact free g (more g member))
                rw [written] at wrote
                refine (wrote.congr (quiet₂.all_iff fun g member => ?_)).mono fun _ s' quiet' => ?_
                · rw [List.mem_singleton]
                  rintro rfl
                  exact apart (others g member)
                · exact (quiet₂.mono (by simp)).trans (quiet'.mono more)
              refine (EnsuresIff.bind (does_rfsNext goes freeNext) (q := cf ∉ s.freed ∧
                ∀ g ∈ if k = 0 then [] else files.take (k + 1), g ∉ s.freed)
                  fun _ r s₁ quiet₁ => ?_).congr ?_
              · obtain ⟨rfl, quiet₁⟩ := quiet₁
                have free₁ : cf ∉ s₁.held := by
                  rw [quiet₁.held]
                  exact free cf List.mem_cons_self
                refine EnsuresIff.bind ((quiet_decref (quiet₁.stopped.trans goes) free₁).congr
                  (quiet₁.freed cf (by simp)).not) fun _ _ s₂ quiet₂ => ?_
                exact loop ((quiet₁.mono (by simp)).trans quiet₂)
              · rw [next, List.forall_mem_cons]
                cases files with
                | nil => simp
                | cons first files =>
                    cases k with
                    | zero => simp [and_comm]
                    | succ k => simp [and_left_comm, and_comm]
          · simp only [if_neg room]
            exact ensuresIff_done (by simp) .refl

/-! ## The calls -/

section Calls

variable {fid : Npfilefid}

theorem does_attach (root : FilePtr) (user : Option UserPtr) (idle : s.Idle) :
    Does (t.serve (.attach root user)) s (t.Clean s (.attach root user)) fun _ s' =>
      s'.Disciplined := by
  by_cases perm : t.npfileCheckperm root user 4 = true
  · simp only [serve, npfileAttach, perm, if_true, Clean, uses, Allowed, and_true,
      List.forall_mem_singleton]
    refine (does_incref idle.stopped (idle.free root)).mono fun _ s' counted => ?_
    subst counted
    exact idle.disciplined
  · simp only [serve, npfileAttach, perm]
    exact ensuresIff_done (by simp [Clean, uses, Allowed, perm]) idle.disciplined

theorem does_clone (idle : s.Idle) :
    Does (t.serve (.clone fid)) s (t.Clean s (.clone fid)) fun _ s' => s'.Disciplined := by
  simp only [serve, npfileClone, Clean, uses, Allowed, and_true, List.forall_mem_singleton]
  refine (does_incref idle.stopped (idle.free fid.file)).mono fun _ s' counted => ?_
  subst counted
  exact idle.disciplined

theorem does_walk (wname : List UInt8) (sound : t.Sound fid) (idle : s.Idle) :
    Does (t.serve (.walk fid wname)) s (t.Clean s (.walk fid wname)) fun _ s' =>
      s'.Disciplined := by
  by_cases perm : t.npfileCheckperm fid.file fid.user 1 = true
  · simp only [serve, npfileWalk, perm, if_true, Clean, uses, Allowed, and_true]
    refine (EnsuresIff.bind (does_npfileFind (npStrdup wname) sound idle)
      (q := ∀ f ∈ if npStrdup wname = dotDot ∧ (t.file fid.file).parent.isSome then [fid.file]
        else [], f ∉ s.freed) fun live r s₁ found => ?_).congr (by rw [List.forall_mem_append])
    rcases found with ⟨quiet, up⟩ | ⟨named, stopped, right⟩
    on_goal 2 => exact (does_stopped _ stopped right).congr (by simp [named])
    have goes : s₁.stopped = false := quiet.stopped.trans idle.stopped
    have free : fid.file ∉ s₁.held := by
      rw [quiet.held]
      exact idle.free fid.file
    have decref := quiet_decref goes free
    obtain ⟨nfile, error⟩ := r
    cases nfile with
    | none =>
        refine ensuresIff_done ?_ (quiet.disciplined idle)
        have ends : ¬ (npStrdup wname = dotDot ∧ (t.file fid.file).parent.isSome) := by
          rintro ⟨same, some⟩
          rw [← up same] at some
          cases some
        simp [ends]
    | some nfile =>
        refine EnsuresIff.mono (decref.congr ?_) fun _ s' quiet' => ?_
        · rw [quiet.freed _ sound.apart]
          by_cases same : npStrdup wname = dotDot
          · have parent : (t.file fid.file).parent = some nfile := (up same).symm
            simp [same, parent]
          · have live₁ : fid.file ∉ s.freed := live _ (by simp [searched, same])
            simp [same, live₁]
        · have quiet₁ : Quiet (fid.file :: t.children fid.file) s s₁ :=
            quiet.mono fun g => List.mem_cons_of_mem _
          exact (quiet₁.trans (quiet'.mono (by simp))).disciplined idle
  · simp only [serve, npfileWalk, perm]
    exact ensuresIff_done (by simp [Clean, uses, Allowed, perm]) idle.disciplined

theorem does_open (mode : UInt8) (idle : s.Idle) :
    Does (t.serve (.openFile fid mode)) s (t.Clean s (.openFile fid mode)) fun _ s' =>
      s'.Disciplined := by
  simp only [serve, npfileOpen, Clean, uses, Allowed, and_true, List.forall_mem_singleton]
  have free := idle.free fid.file
  refine EnsuresIff.before (does_lock idle.stopped free) fun live _ s₁ locked => ?_
  subst locked
  have member := Finset.mem_insert_self fid.file s.held
  by_cases refused : ¬ t.npfileCheckperm fid.file fid.user (mode2perm mode) ∨
      mode &&& Oexcl ≠ 0 ∧ (t.file fid.file).excl
  · simp only [if_pos refused]
    refine EnsuresIff.mono (does_unlock idle.stopped member live) fun _ s₂ unlocked => ?_
    obtain rfl : s₂ = s := by simpa [Finset.erase_insert free] using unlocked
    exact idle.disciplined
  · simp only [if_neg refused]
    refine EnsuresIff.behind (does_unlock idle.stopped member live) fun _ s₂ unlocked => ?_
    obtain rfl : s₂ = s := by simpa [Finset.erase_insert free] using unlocked
    split_ifs
    · refine EnsuresIff.mono ((does_section idle.stopped free).congr (iff_true_intro live))
        fun _ s₃ same => ?_
      subst same
      exact idle.disciplined
    · exact ensuresIff_done trivial idle.disciplined

theorem does_stat (idle : s.Idle) :
    Does (t.serve (.stat fid)) s (t.Clean s (.stat fid)) fun _ s' => s'.Disciplined := by
  simp only [serve, npfileStat, Clean, uses, Allowed, and_true, List.forall_mem_singleton]
  refine (does_section idle.stopped (idle.free fid.file)).mono fun _ s' same => ?_
  subst same
  exact idle.disciplined

theorem does_write (offset : UInt64) (count : UInt32) (idle : s.Idle) :
    Does (t.serve (.write fid offset count)) s (t.Clean s (.write fid offset count)) fun _ s' =>
      s'.Disciplined := by
  have free := idle.free fid.file
  have modified : Does (do lock fid.file; unlock fid.file) s (fid.file ∉ s.freed) fun _ s' =>
      s'.Disciplined :=
    (does_section idle.stopped free).mono fun _ s' same => same ▸ idle.disciplined
  simp only [serve, npfileWrite]
  by_cases dir : t.isDir fid.file = true
  · simp only [if_pos dir]
    refine ((does_crash idle.wrong).congr ?_).mono fun _ s' crashed => ⟨crashed.2, ?_⟩
    · simp [Clean, uses, Allowed, dir]
    · simp [crashed.1]
  simp only [if_neg dir]
  by_cases absent : (t.file fid.file).ops.write = true
  · have used : t.Clean s (.write fid offset count) ↔ fid.file ∉ s.freed := by
      simp [Clean, uses, Allowed, dir, absent]
    simp only [absent, not_true_eq_false, if_false]
    generalize (if fid.omode &&& Oappend.toUInt32 ≠ 0 then (t.file fid.file).length
      else offset) = start
    by_cases longer : (t.file fid.file).length < start + count.toUInt64
    · simp only [rfsWrite, if_pos longer, bind_assoc, pure_bind]
      refine (does_section_before (fun live => ?_) idle.stopped free (p := fid.file ∉ s.freed)).congr
        ((iff_of_eq (and_self _)).trans used.symm)
      split_ifs
      · exact ensuresIff_done live idle.disciplined
      · exact modified
    · simp only [rfsWrite, if_neg longer]
      exact modified.congr used.symm
  · simp only [absent]
    exact ensuresIff_done (by simp [Clean, uses, Allowed, absent]) idle.disciplined

theorem does_fiddestroy (sound : t.Sound fid) (idle : s.Idle) :
    Does (t.serve (.fiddestroy fid)) s (t.Clean s (.fiddestroy fid)) fun _ s' =>
      s'.Disciplined := by
  have apart : ∀ d ∈ fid.dirent, fid.file ∉ [d] := by
    intro d first
    rw [List.mem_singleton]
    rintro rfl
    exact sound.apart' (List.mem_of_mem_head? (sound.siblings.start_eq ▸ first))
  have last {s₁ : Thread} {files : List FilePtr} (quiet : Quiet files s s₁)
      (out : fid.file ∉ files) : Does (npfileDecref (some fid.file)) s₁ (fid.file ∉ s.freed)
        fun _ s' => s'.Disciplined := by
    have free : fid.file ∉ s₁.held := by
      rw [quiet.held]
      exact idle.free fid.file
    refine EnsuresIff.mono ((quiet_decref (quiet.stopped.trans idle.stopped) free).congr
      (quiet.freed _ out).not) fun _ s' quiet' => ?_
    have quiet₁ : Quiet (fid.file :: files) s s₁ := quiet.mono fun g => List.mem_cons_of_mem _
    exact (quiet₁.trans (quiet'.mono (by simp))).disciplined idle
  have alone : Does (npfileDecref (some fid.file)) s (fid.file ∉ s.freed) fun _ s' =>
      s'.Disciplined := by
    have still : Quiet [] s s := .refl
    exact last still (by simp)
  simp only [serve, npfileFiddestroy, Clean, uses, Allowed, and_true]
  by_cases opened : fid.omode ≠ 0xFFFFFFFF
  · simp only [if_pos opened]
    cases dirent : fid.dirent with
    | none => exact alone.congr (by simp)
    | some d =>
        refine EnsuresIff.congr (EnsuresIff.bind (quiet_decref idle.stopped (idle.free d))
          fun _ _ s₁ quiet => last quiet (apart d dirent)) ?_
        simp
  · simp only [if_neg opened]
    exact alone.congr (by simp)

theorem does_rfsCreate (dir : FilePtr) (perm : UInt32) (goes : s.stopped = false)
    (free : t.fresh ∉ s.held) :
    Does (t.rfsCreate dir perm) s True fun r s' => Quiet [t.fresh] s s' ∧
      ∀ file ∈ r, file = t.fresh ∧ t.fresh ∉ s'.freed := by
  unfold rfsCreate
  split_ifs
  · exact ensuresIff_done trivial ⟨.refl, by simp⟩
  · let made : Thread := { s with
      refcount := Function.update s.refcount t.fresh 0
      freed := s.freed.erase t.fresh }
    have alive : t.fresh ∉ made.freed := Finset.notMem_erase _ _
    have quiet : Quiet [t.fresh] s made := by
      refine ⟨rfl, rfl, rfl, fun g other => ?_⟩
      have different : g ≠ t.fresh := by simpa using other
      simp [made, different]
    refine EnsuresIff.behind (⟨fun _ => rfl, fun no => absurd trivial no⟩ :
      Does (init t.fresh) s True fun _ s' => s' = made) fun _ s₁ same => ?_
    subst same
    refine EnsuresIff.behind (does_addRef 1) fun _ s₂ counted => ?_
    obtain ⟨-, rfl⟩ := counted
    refine EnsuresIff.behind ((does_incref (by exact goes) (by exact free)).congr
      (iff_true_intro alive)) fun _ s₃ counted => ?_
    subst counted
    refine EnsuresIff.behind ((does_incref (by exact goes) (by exact free)).congr
      (iff_true_intro alive)) fun _ s₄ counted => ?_
    subst counted
    exact ensuresIff_done trivial ⟨⟨quiet.held, quiet.wrong, quiet.stopped, quiet.freed⟩,
      fun file same => ⟨(Option.mem_some.mp same).symm, alive⟩⟩

theorem does_create (name : List UInt8) (perm : UInt32) (mode : UInt8) (sound : t.Sound fid)
    (idle : s.Idle) :
    Does (t.serve (.create fid name perm mode)) s (t.Clean s (.create fid name perm mode))
      fun _ s' => s'.Disciplined := by
  simp only [serve, npfileCreate, Clean, uses, Allowed, and_true]
  refine EnsuresIff.before (does_npfileFind _ sound idle) fun live r s₁ found => ?_
  rcases found with ⟨quiet, -⟩ | ⟨-, stopped, right⟩
  on_goal 2 => exact does_stopped _ stopped right
  obtain ⟨nf, error⟩ := r
  have goes : s₁.stopped = false := quiet.stopped.trans idle.stopped
  have free : fid.file ∉ s₁.held := by
    rw [quiet.held]
    exact idle.free fid.file
  refine ensuresIff_ite (fun _ => ensuresIff_done trivial (quiet.disciplined idle)) fun refused => ?_
  have named : npStrdup name ≠ dotDot := fun same => refused (.inr (.inr (.inr (.inl same))))
  have live₁ : fid.file ∉ s₁.freed :=
    (quiet.freed _ sound.apart).not.mpr (live _ (by simp [searched, named]))
  have held : s₁.held = ∅ := quiet.held.trans idle.held
  refine EnsuresIff.behind ((does_lock goes free).congr (iff_true_intro live₁)) fun _ s₂ locked => ?_
  subst locked
  -- The directory is released at the end.
  have release {s₃ : Thread} (quiet' : Quiet [t.fresh] { s₁ with
      held := insert fid.file s₁.held } s₃) :
      Does (unlock fid.file) s₃ True fun _ s' => s'.Disciplined := by
    have member : fid.file ∈ s₃.held := by
      rw [quiet'.held]
      exact Finset.mem_insert_self _ _
    have live₃ : fid.file ∉ s₃.freed :=
      (quiet'.freed _ (by simpa using sound.fresh.symm)).not.mpr live₁
    refine EnsuresIff.mono (does_unlock (quiet'.stopped.trans goes) member live₃) fun _ s' unlocked => ?_
    subst unlocked
    refine ⟨(quiet'.wrong.trans quiet.wrong).trans idle.wrong, fun _ => ?_⟩
    rw [quiet'.held, Finset.erase_insert free, held]
  refine ensuresIff_ite (fun _ => release .refl) fun _ => ?_
  have other : t.fresh ∉ insert fid.file s₁.held := by simp [held, sound.fresh]
  refine EnsuresIff.behind (does_rfsCreate fid.file _ goes other) fun r s₃ created => ?_
  obtain ⟨quiet', made⟩ := created
  cases r with
  | none => exact release quiet'
  | some file =>
      obtain ⟨rfl, alive⟩ := made file rfl
      have goes₃ : s₃.stopped = false := quiet'.stopped.trans goes
      have other₃ : t.fresh ∉ s₃.held := by rwa [quiet'.held]
      exact (does_section_before (fun _ => release quiet') goes₃ other₃).congr (by simp [alive])

theorem does_wstat (stat : Stat) (idle : s.Idle) :
    Does (t.serve (.wstat fid stat)) s (t.Clean s (.wstat fid stat)) fun _ s' =>
      s'.Disciplined := by
  have free := idle.free fid.file
  have member := Finset.mem_insert_self fid.file s.held
  simp only [serve, npfileWstat]
  cases above : (t.file fid.file).parent with
  | none =>
      have used : t.Clean s (.wstat fid stat) ↔ fid.file ∉ s.freed := by
        simp [Clean, uses, Allowed, above]
      refine (EnsuresIff.before (does_lock idle.stopped free) fun live _ s₁ locked => ?_).congr used.symm
      subst locked
      refine ensuresIff_ite (fun _ => ?_) fun _ => ?_
      · refine EnsuresIff.mono (does_crash (by exact idle.wrong)) fun _ s' crashed => ⟨crashed.2, ?_⟩
        simp [crashed.1]
      · refine EnsuresIff.mono (does_unlock idle.stopped member live) fun _ s' unlocked => ?_
        obtain rfl : s' = s := by simpa [Finset.erase_insert free] using unlocked
        exact idle.disciplined
  | some parent =>
      have parents : (t.file fid.file).parent.toList = [parent] := by simp [above]
      have release : fid.file ∉ s.freed → Does (unlock fid.file)
          { s with held := insert fid.file s.held } True fun _ s' => s'.Disciplined := by
        intro live
        refine EnsuresIff.mono (does_unlock idle.stopped member live) fun _ s' unlocked => ?_
        obtain rfl : s' = s := by simpa [Finset.erase_insert free] using unlocked
        exact idle.disciplined
      by_cases passes : t.wstatPasses fid parent stat = true
      · by_cases named : stat.name ≠ []
        · simp only [if_pos passes, rfsWstat, if_pos named, bind_assoc]
          by_cases same : parent = fid.file
          · have passes' : t.wstatPasses fid fid.file stat = true := same ▸ passes
            have used : t.Clean s (.wstat fid stat) ↔ fid.file ∉ s.freed ∧ False := by
              simp [Clean, Allowed, above, passes', named, same]
            refine (EnsuresIff.bind (does_lock idle.stopped free) fun live _ s₁ locked => ?_).congr
              used.symm
            subst locked same
            exact ensuresIff_trapped (does_relock idle.stopped member)
          · have apart : parent ∉ insert fid.file s.held := by simp [idle.held, same]
            have member' := Finset.mem_insert_self parent (insert fid.file s.held)
            by_cases up : npStrdup stat.name = dotDot
            · have used : t.Clean s (.wstat fid stat) ↔ fid.file ∉ s.freed ∧ parent ∉ s.freed := by
                simp [Clean, uses, Allowed, above, passes, named, same, up]
              refine (EnsuresIff.bind (does_lock idle.stopped free) fun live _ s₁ locked => ?_).congr
                used.symm
              subst locked
              refine EnsuresIff.before (does_lock idle.stopped apart) fun live' _ s₂ locked => ?_
              subst locked
              simp only [npfileFind, if_pos up, pure_bind]
              refine EnsuresIff.behind (does_unlock idle.stopped member' live') fun _ s₃ unlocked => ?_
              subst unlocked
              have given := Finset.erase_insert apart
              simp only [given]
              exact release live
            · have used : t.Clean s (.wstat fid stat) ↔
                  fid.file ∉ s.freed ∧ parent ∉ s.freed ∧ False := by
                simp [Clean, Allowed, above, passes, named, up]
              refine (EnsuresIff.bind (does_lock idle.stopped free) fun live _ s₁ locked => ?_).congr
                used.symm
              subst locked
              refine EnsuresIff.bind (does_lock idle.stopped apart) fun live' _ s₂ locked => ?_
              subst locked
              simp only [npfileFind, if_neg up, bind_assoc]
              exact ensuresIff_trapped (does_relock idle.stopped member')
        · have used : t.Clean s (.wstat fid stat) ↔ fid.file ∉ s.freed := by
            simp [Clean, uses, Allowed, parents, named]
          simp only [if_pos passes, rfsWstat, if_neg named, pure_bind]
          refine (EnsuresIff.before (does_lock idle.stopped free) fun live _ s₁ locked => ?_).congr
            used.symm
          subst locked
          exact release live
      · have used : t.Clean s (.wstat fid stat) ↔ fid.file ∉ s.freed := by
          simp [Clean, uses, Allowed, above, passes]
        simp only [if_neg passes]
        refine (EnsuresIff.before (does_lock idle.stopped free) fun live _ s₁ locked => ?_).congr
          used.symm
        subst locked
        exact release live

/-- The part of `npfile_read` that writes the records, and the end of it. -/
theorem does_listing {count : ℕ} (data : List UInt8)
    (path : LinkedChain.Path (fun f => (t.file f).next) start files) (apart : fid.file ∉ files)
    (right : s.wrong = false) (goes : s.stopped = false) (held : s.held = {fid.file})
    (live : fid.file ∉ s.freed) :
    Does (do t.readLoop count count data 0 start; unlock fid.file) s
      (∀ g ∈ t.written count data files, g ∉ s.freed) fun _ s' => s'.Disciplined := by
  have free : ∀ g ∈ files, g ∉ s.held := by
    intro g member
    rw [held, Finset.mem_singleton]
    rintro rfl
    exact apart member
  refine EnsuresIff.before (does_readLoop path goes free) fun _ _ s₁ quiet => ?_
  have member : fid.file ∈ s₁.held := by rw [quiet.held, held]; exact Finset.mem_singleton_self _
  refine EnsuresIff.mono (does_unlock (quiet.stopped.trans goes) member
    ((quiet.freed _ apart).not.mpr live)) fun _ s' unlocked => ?_
  subst unlocked
  refine ⟨quiet.wrong.trans right, fun _ => ?_⟩
  rw [quiet.held, held]
  simp

theorem does_restarted {count : ℕ} (data : List UInt8) (sound : t.Sound fid)
    (right : s.wrong = false) (goes : s.stopped = false) (held : s.held = {fid.file})
    (live : fid.file ∉ s.freed) :
    Does (do
      let cf ← t.rfsFirst fid.file
      t.readLoop count count data 0 cf
      unlock fid.file) s
      (∀ g ∈ (t.file fid.file).dirfirst.toList ++ t.written count data (t.children fid.file),
        g ∉ s.freed) fun _ s' => s'.Disciplined := by
  have start := sound.children.start_eq
  have first := does_rfsFirst goes fun g link =>
    sound.freeChildren held g (List.mem_of_mem_head? (start ▸ link))
  refine (EnsuresIff.bind first (q := ∀ g ∈ t.written count data (t.children fid.file), g ∉ s.freed)
    fun _ r s₁ found => ?_).congr ?_
  · obtain ⟨rfl, quiet⟩ := found
    refine (does_listing data sound.children sound.apart (quiet.wrong.trans right)
      (quiet.stopped.trans goes) (quiet.held.trans held)
      ((quiet.freed _ (by simp)).not.mpr live)).congr (quiet.all_iff (by simp))
  · rw [List.forall_mem_append]
    simp

theorem does_read (offset : UInt64) (count : UInt32) (data : List UInt8) (sound : t.Sound fid)
    (idle : s.Idle) :
    Does (t.serve (.read fid offset count data)) s (t.Clean s (.read fid offset count data))
      fun _ s' => s'.Disciplined := by
  have free := idle.free fid.file
  have member := Finset.mem_insert_self fid.file s.held
  have held : insert fid.file s.held = {fid.file} := by rw [idle.held, insert_empty_eq]
  simp only [serve, npfileRead]
  by_cases dir : t.isDir fid.file = true
  · simp only [if_pos dir]
    by_cases missing : ¬ (t.file fid.file).ops.first ∨ ¬ (t.file fid.file).ops.next
    · have absent : t.lists fid.file = false := by
        simpa [lists, dir, or_iff_not_imp_left] using missing
      have used : t.Clean s (.read fid offset count data) ↔ fid.file ∉ s.freed := by
        simp [Clean, uses, Allowed, dir, absent]
      refine (EnsuresIff.before (does_lock idle.stopped free) fun live _ s₁ locked => ?_).congr used.symm
      subst locked
      simp only [if_pos missing]
      refine EnsuresIff.mono (does_unlock idle.stopped member live) fun _ s' unlocked => ?_
      obtain rfl : s' = s := by simpa [Finset.erase_insert free] using unlocked
      exact idle.disciplined
    have present : t.lists fid.file = true := by simpa [lists, dir, not_or] using missing
    by_cases again : offset = 0
    · cases dirent : fid.dirent with
      | none =>
          have used : t.Clean s (.read fid offset count data) ↔ fid.file ∉ s.freed ∧
              ∀ g ∈ (t.file fid.file).dirfirst.toList ++
                t.written count.toNat data (t.children fid.file), g ∉ s.freed := by
            simp [Clean, uses, Allowed, dir, present, again, read, dirent]
          refine (EnsuresIff.bind (does_lock idle.stopped free) fun live _ s₁ locked => ?_).congr
            used.symm
          subst locked
          simp only [if_neg missing, restart, if_pos again, dirent, npfileDecref, pure_bind]
          exact does_restarted data sound idle.wrong idle.stopped held live
      | some d =>
          have apart : d ≠ fid.file := by
            rintro rfl
            exact sound.apart' (List.mem_of_mem_head? (sound.siblings.start_eq ▸ dirent))
          generalize files : (t.file fid.file).dirfirst.toList ++
            t.written count.toNat data (t.children fid.file) = touched
          have used : t.Clean s (.read fid offset count data) ↔ fid.file ∉ s.freed ∧
              d ∉ s.freed ∧
                ∀ g ∈ touched, g ∉ if s.refcount d = 1 then insert d s.freed else s.freed := by
            have uses : t.uses (.read fid offset count data) = fid.file :: d :: touched := by
              simp [Tree.uses, dir, present, again, read, dirent, ← files]
            have allowed : t.Allowed s (.read fid offset count data) ↔
                (s.refcount d = 1 → d ∉ touched) := by
              simp [Allowed, dir, present, again, read, dirent, ← files]
            rw [Clean, uses, allowed, List.forall_mem_cons, List.forall_mem_cons, and_assoc,
              and_assoc]
            refine and_congr_right fun _ => and_congr_right fun _ => ?_
            split_ifs with last
            · simp only [last, true_imp_iff, Finset.mem_insert, not_or]
              refine ⟨fun both g member => ⟨?_, both.1 g member⟩, fun all => ⟨fun g member =>
                (all g member).2, fun member => (all d member).1 rfl⟩⟩
              rintro rfl
              exact both.2 member
            · simp [last]
          refine (EnsuresIff.bind (does_lock idle.stopped free) fun live _ s₁ locked => ?_).congr
            used.symm
          subst locked
          simp only [if_neg missing, restart, if_pos again, dirent, bind_assoc]
          have other : d ∉ insert fid.file s.held := by simp [idle.held, apart]
          refine EnsuresIff.bind (does_decref idle.stopped other) fun live' _ s₂ counted => ?_
          have live₂ : fid.file ∉ if s.refcount d = 1 then insert d s.freed else s.freed := by
            split_ifs
            · simp [live, apart.symm]
            · exact live
          subst counted files
          exact does_restarted data sound idle.wrong idle.stopped held live₂
    · have used : t.Clean s (.read fid offset count data) ↔ fid.file ∉ s.freed ∧
          ∀ g ∈ t.written count.toNat data (t.siblings fid.dirent), g ∉ s.freed := by
        simp [Clean, uses, Allowed, dir, present, again, read]
      refine (EnsuresIff.bind (does_lock idle.stopped free) fun live _ s₁ locked => ?_).congr used.symm
      subst locked
      simp only [if_neg missing, restart, if_neg again, pure_bind]
      exact does_listing data sound.siblings sound.apart' idle.wrong idle.stopped held live
  simp only [if_neg dir]
  by_cases absent : (t.file fid.file).ops.read = true
  · have used : t.Clean s (.read fid offset count data) ↔ fid.file ∉ s.freed := by
      simp [Clean, uses, Allowed, dir, absent]
    simp only [absent, not_true_eq_false, if_false]
    exact ((does_section idle.stopped free).mono fun _ s' same => same ▸ idle.disciplined).congr
      used.symm
  · simp only [absent]
    exact ensuresIff_done (by simp [Clean, uses, Allowed, dir, absent]) idle.disciplined

/-- The part of `npfile_remove` that has found the parent. -/
theorem does_removeFrom {parent : FilePtr} (sound : t.Sound fid) (idle : s.Idle)
    (above : (t.file fid.file).parent = some parent) (live : fid.file ∉ s.freed) :
    Does (t.removeFrom fid parent) s (parent ∉ s.freed) fun _ s' => s'.Disciplined := by
  have free := idle.free parent
  have member := Finset.mem_insert_self parent s.held
  refine EnsuresIff.before (does_lock idle.stopped free) fun live' _ s₁ locked => ?_
  subst locked
  refine ensuresIff_ite (fun _ => ?_) fun _ => ?_
  · refine EnsuresIff.mono (does_unlock idle.stopped member live') fun _ s' unlocked => ?_
    obtain rfl : s' = s := by simpa [Finset.erase_insert free] using unlocked
    exact idle.disciplined
  by_cases linked : (t.file parent).dirfirst = some fid.file ∨ (t.file fid.file).prev.isSome
  · simp only [rfsRemove, if_pos linked, pure_bind]
    have apart : fid.file ≠ parent := by
      intro same
      rcases linked with first | before
      · rw [← same, sound.children.start_eq] at first
        exact sound.apart (List.mem_of_mem_head? first)
      · rw [sound.root (same ▸ above)] at before
        cases before
    have other : fid.file ∉ insert parent s.held := by simp [idle.held, apart]
    refine EnsuresIff.behind ((quiet_decref (by exact idle.stopped) other).congr (iff_true_intro live))
      fun _ s₂ quiet => ?_
    have member₂ : parent ∈ s₂.held := by rw [quiet.held]; exact member
    have live₂ : parent ∉ s₂.freed := (quiet.freed _ (by simpa using apart.symm)).not.mpr live'
    refine EnsuresIff.mono (does_decrefUnlock (quiet.stopped.trans idle.stopped) member₂ live₂)
      fun _ s' counted => ?_
    subst counted
    refine ⟨quiet.wrong.trans idle.wrong, fun _ => ?_⟩
    rw [quiet.held, Finset.erase_insert free, idle.held]
  · simp only [rfsRemove, if_neg linked]
    exact EnsuresIff.behind (does_crash (by exact idle.wrong)) fun _ s₂ crashed =>
      does_stopped _ crashed.1 crashed.2

theorem does_remove (sound : t.Sound fid) (idle : s.Idle)
    (allowed : ¬ (t.isDir fid.file ∧ ¬ (t.file fid.file).ops.first)) :
    Does (t.serve (.remove fid)) s (t.Clean s (.remove fid)) fun _ s' => s'.Disciplined := by
  have free := idle.free fid.file
  have member := Finset.mem_insert_self fid.file s.held
  have given := Finset.erase_insert free
  have alone (live : fid.file ∉ s.freed) : Does (t.removeChildless fid)
      { s with held := insert fid.file s.held }
      (∀ g ∈ (t.file fid.file).parent, g ∉ s.freed) fun _ s' => s'.Disciplined := by
    refine EnsuresIff.behind (does_unlock idle.stopped member live) fun _ s₂ unlocked => ?_
    obtain rfl : s₂ = s := by simpa [given] using unlocked
    cases above : (t.file fid.file).parent with
    | none =>
        refine EnsuresIff.mono ((does_crash idle.wrong).congr (by simp)) fun _ s' crashed =>
          ⟨crashed.2, ?_⟩
        simp [crashed.1]
    | some parent => exact (does_removeFrom sound idle above live).congr (by simp)
  simp only [serve, npfileRemove, if_neg allowed]
  by_cases dir : t.isDir fid.file = true
  · simp only [if_pos dir]
    cases first : (t.file fid.file).dirfirst with
    | none =>
        have used : t.Clean s (.remove fid) ↔
            fid.file ∉ s.freed ∧ ∀ g ∈ (t.file fid.file).parent, g ∉ s.freed := by
          simp_all [Clean, uses, Allowed]
        refine (EnsuresIff.bind (does_lock idle.stopped free) fun live _ s₁ locked => ?_).congr
          used.symm
        subst locked
        simp only [rfsFirst, first, npfileIncref, pure_bind]
        exact alone live
    | some cf =>
        have apart : cf ≠ fid.file := by
          rintro rfl
          exact sound.apart (List.mem_of_mem_head? (sound.children.start_eq ▸ first))
        have used : t.Clean s (.remove fid) ↔ fid.file ∉ s.freed ∧ cf ∉ s.freed := by
          simp_all [Clean, uses, Allowed]
        refine (EnsuresIff.bind (does_lock idle.stopped free) fun live _ s₁ locked => ?_).congr
          used.symm
        subst locked
        have other : cf ∉ insert fid.file s.held := by simp [idle.held, apart]
        simp only [rfsFirst, first, bind_assoc, pure_bind]
        refine EnsuresIff.before (does_incref idle.stopped other) fun live' _ s₂ counted => ?_
        subst counted
        refine EnsuresIff.behind ((quiet_decref (by exact idle.stopped) other).congr
          (iff_true_intro live')) fun _ s₃ quiet => ?_
        have member₃ : fid.file ∈ s₃.held := by rw [quiet.held]; exact member
        have live₃ : fid.file ∉ s₃.freed :=
          (quiet.freed _ (by simpa using apart.symm)).not.mpr live
        refine EnsuresIff.mono (does_unlock (quiet.stopped.trans idle.stopped) member₃ live₃)
          fun _ s' unlocked => ?_
        subst unlocked
        refine ⟨quiet.wrong.trans idle.wrong, fun _ => ?_⟩
        rw [quiet.held, given, idle.held]
  · simp only [if_neg dir, pure_bind]
    have used : t.Clean s (.remove fid) ↔
        fid.file ∉ s.freed ∧ ∀ g ∈ (t.file fid.file).parent, g ∉ s.freed := by
      simp [Clean, uses, Allowed, dir]
    refine (EnsuresIff.bind (does_lock idle.stopped free) fun live _ s₁ locked => ?_).congr used.symm
    subst locked
    exact alone live

end Calls

/-! ## Every call -/

/-- A call ends as it should exactly if it is clean. -/
theorem locks_iff {call : Call} (sound : ∀ fid ∈ Tree.fid call, t.Sound fid) (idle : s.Idle) :
    (t.after call s).Disciplined ↔ t.Clean s call := by
  have exact {p : Prop} (does : Does (t.serve call) s p fun _ s' => s'.Disciplined) :
      (t.after call s).Disciplined ↔ p := by
    refine ⟨fun disciplined => ?_, does.ends⟩
    by_contra no
    have right := disciplined.1
    rw [after, does.fails no] at right
    cases right
  cases call with
  | attach root user => exact exact (does_attach root user idle)
  | clone f => exact exact (does_clone idle)
  | walk f wname => exact exact (does_walk wname (sound f rfl) idle)
  | openFile f mode => exact exact (does_open mode idle)
  | create f name perm mode => exact exact (does_create name perm mode (sound f rfl) idle)
  | read f offset count data => exact exact (does_read offset count data (sound f rfl) idle)
  | write f offset count => exact exact (does_write offset count idle)
  | clunk => exact exact (ensuresIff_done (by simp [Clean, uses, Allowed]) idle.disciplined)
  | remove f =>
      by_cases allowed : ¬ (t.isDir f.file ∧ ¬ (t.file f.file).ops.first)
      · exact exact (does_remove (sound f rfl) idle allowed)
      · have kept : Does (t.serve (.remove f)) s (f.file ∉ s.freed) fun _ s' =>
            s' = { s with held := insert f.file s.held } := by
          simp only [serve, npfileRemove, if_pos (not_not.mp allowed)]
          exact EnsuresIff.before (does_lock idle.stopped (idle.free f.file)) fun _ _ s' locked =>
            ensuresIff_done trivial locked
        refine ⟨fun disciplined => ?_, fun clean => absurd clean.2 allowed⟩
        by_cases live : f.file ∉ s.freed
        · have held := disciplined.2
          rw [after, kept.ends live] at held
          exact absurd (held idle.stopped) (Finset.insert_ne_empty _ _)
        · have right := disciplined.1
          rw [after, kept.fails live] at right
          cases right
  | stat f => exact exact (does_stat idle)
  | wstat f stat => exact exact (does_wstat stat idle)
  | fiddestroy f => exact exact (does_fiddestroy (sound f rfl) idle)

/-! ## A new name -/

/-- A root with one file. -/
def twoFiles : Tree where
  file f :=
    { mode := if f = 0 then Dmdir ||| 0o777 else 0o666
      uid := 0
      gid := 0
      name := if f = 0 then cstr "" else cstr "a"
      length := 0
      excl := false
      parent := some 0
      next := none
      prev := none
      dirfirst := if f = 0 then some 1 else none
      ops := ⟨true, true, true, true, true, true, true⟩ }
  fresh := 2
  turns := 1
  wstat _ := default
  ismember _ _ := false
  dotu := true
  truncates := true
  replies := true

/-- A fid of the file, which is not open. -/
def deep : Npfilefid := ⟨1, 0xFFFFFFFF, none, some 0⟩

/-- A thread that is to serve a call; each file has two references. -/
def ready : Thread := ⟨fun _ => 2, ∅, ∅, false, false⟩

/-- A request for the name `b`. -/
def renamed : Stat := ⟨[0x62], 0xFFFFFFFFFFFFFFFF, 0xFFFFFFFF, 0xFFFFFFFF⟩

theorem sound_deep : twoFiles.Sound deep where
  children := .nil
  siblings := .nil
  apart := by decide
  apart' := by decide
  short := by decide
  fresh := by decide
  root := by decide

theorem idle_ready : ready.Idle := ⟨rfl, rfl, rfl⟩

/-- The thread locks the parent, and then `npfile_find` locks it again. -/
theorem not_locks_all : ¬ ∀ (t : Tree) (s : Thread) (call : Call),
    (∀ fid ∈ Tree.fid call, t.Sound fid) → s.Idle → (t.after call s).Disciplined := by
  intro all
  have sound : ∀ fid ∈ Tree.fid (.wstat deep renamed), twoFiles.Sound fid := by
    intro fid member
    obtain rfl : deep = fid := by simpa [Tree.fid] using member
    exact sound_deep
  have right := (all twoFiles ready (.wstat deep renamed) sound idle_ready).1
  have wrong : (twoFiles.after (.wstat deep renamed) ready).wrong = true := by decide +kernel
  rw [wrong] at right
  cases right

theorem locks_remove : (twoFiles.after (.remove deep) ready).refcount 1 = 1 ∧
    (twoFiles.after (.remove deep) ready).Disciplined := by
  have sound : ∀ fid ∈ Tree.fid (.remove deep), twoFiles.Sound fid := by
    intro fid member
    obtain rfl : deep = fid := by simpa [Tree.fid] using member
    exact sound_deep
  have clean : twoFiles.Clean ready (.remove deep) := by
    refine ⟨by simp [ready], ?_⟩
    change ¬ (twoFiles.isDir deep.file ∧ ¬ (twoFiles.file deep.file).ops.first)
    decide
  exact ⟨by decide +kernel, (locks_iff sound idle_ready).mpr clean⟩

end Tree

end Npfs.FileLocks
