import Mathlib.Data.List.TakeWhile
import Npfs.Confinement
import Npfs.Extent
import Npfs.FailedRequest
import Npfs.RoundTripDotl
import Npfs.UfsRun

/-!
# Symbolic links of the mapped id model

`mapped_symlink` writes the target of a link into a regular file, and `mapped_readlink` reads it
back.  The files of the host have contents here, and the host decides how much of a transfer a call
makes.
-/

namespace Npfs

namespace Ufs

open LittleEndian Program

/-- `EMFILE`. -/
def EMFILE : Errno := 24

/-- A host whose files have contents. -/
structure Disk where
  host : Host
  /-- The bits of `S_IFMT` of each file. -/
  type : ℕ → UInt32
  content : ℕ → List UInt8
  /-- The file that a descriptor is open for, and the offset of the next transfer. -/
  fds : UInt64 → Option (ℕ × ℕ)

namespace Disk

variable (w : Disk)

/-- A call to the host of which the contents do not depend. -/
def pass (call : SysCall) : call.Reply × Disk :=
  ((w.host.exec call).1, { w with host := (w.host.exec call).2 })

/-- `lstat`. -/
def lstat (path : CStr) : Except Errno Stat × Disk :=
  let type := ((w.host.names path).map w.type).getD 0
  ((w.pass (.lstat path)).1.map fun st => { st with mode := type ||| st.mode &&& 0o7777 },
    (w.pass (.lstat path)).2)

/-- `open`.  A file that it makes is a regular one without a byte. -/
def openFile (path : CStr) (flags mode : UInt32) : Except Errno UInt64 × Disk :=
  if (w.fds w.host.next.1.returned.number).isSome then
    (.error EMFILE, { w with host := w.host.next.2 })
  else
    let (opened, host) := w.host.exec (.open path flags mode)
    match opened, host.names path with
    | .error error, _ => (.error error, { w with host })
    | .ok _, none => (.error ENOENT, { w with host })
    | .ok fd, some file =>
      let made := (w.host.names path).isNone
      (.ok fd, { host
                 type := if made then Function.update w.type file S_IFREG else w.type
                 content := if made ∨ flags &&& O_TRUNC ≠ 0 then
                   Function.update w.content file [] else w.content
                 fds := Function.update w.fds fd (some (file, 0)) })

/-- A transfer at the offset of a descriptor. -/
def transfer (fd : UInt64) (move : Fate → (file offset : ℕ) → Returned × ℕ × List UInt8) :
    Except Errno Returned × Disk :=
  let (fate, host) := w.host.next
  match w.fds fd, fate.error with
  | none, error => (.error (error.getD EBADF), { w with host })
  | some _, some error => (.error error, { w with host })
  | some (file, offset), none =>
    let (returned, moved, content) := move fate file offset
    (.ok returned, { w with
      host
      content := Function.update w.content file content
      fds := Function.update w.fds fd (some (file, offset + moved)) })

/-- `write`, of as many bytes as the host decides. -/
def write (fd : UInt64) (bytes : List UInt8) : Except Errno Returned × Disk :=
  w.transfer fd fun fate file offset =>
    let new := bytes.take fate.returned.number.toNat
    ({ (default : Returned) with number := .ofNat new.length }, new.length,
      Extent.write 0 (w.content file) offset new)

/-- `read`, of as many bytes as the host decides, and at least one in front of the end. -/
def read (fd : UInt64) (count : ℕ) : Except Errno Returned × Disk :=
  w.transfer fd fun fate file offset =>
    let bytes := (Extent.read (w.content file) offset count).take (max 1 fate.returned.number.toNat)
    ({ (default : Returned) with number := .ofNat bytes.length, bytes }, bytes.length,
      w.content file)

/-- `close`, which gives the descriptor back even if it reports an error. -/
def close (fd : UInt64) : Except Errno Returned × Disk :=
  if (w.fds fd).isSome then
    (Host.answer w.host.next.1 default,
      { w with host := w.host.next.2, fds := Function.update w.fds fd none })
  else
    (.error EBADF, { w with host := w.host.next.2 })

/-- Make a system call. -/
def exec : (call : SysCall) → call.Reply × Disk
  | .lstat path => w.lstat path
  | .open path flags mode => w.openFile path flags mode
  | .data (.write fd bytes) => w.write fd bytes
  | .data (.read fd count) => w.read fd count
  | .data (.close fd) => w.close fd
  | call => w.pass call

/-- What the operations of `libnpfs` need of their environment.  The callbacks are not run here. -/
def env : Env Fid Disk where
  answer callback _ w := ⟨callback.silence, none, false, none, w⟩
  malloc w := (w.host.next.1.heap, { w with host := w.host.next.2 })
  flush _ w := (w.host.next.1.error.isNone, { w with host := w.host.next.2 })
  reset _ w := w

/-- The state of a connection, and the host. -/
abbrev Linking := Session Fid Disk

/-- Perform an operation of `libufs`. -/
def execOp (u : Ufssrv) : (op : Op) → Linking → op.Reply × Linking
  | .sys call, s => ((s.world.exec call).1, { s with world := (s.world.exec call).2 })
  | .aux fid, s => s.load fid (·.aux) none
  | .setAux fid aux, s => ((), s.modify fid fun f => { f with aux := some aux })
  | .np op, s => Npfs.exec env op s
  | .ufs, s => (u, s)

/-! ## What it is for -/

/-- The host fails no call, and moves at least a byte with each transfer. -/
def Obliging : Prop :=
  ∀ k, (w.host.fates k).error = none ∧ 0 < (w.host.fates k).returned.number.toNat

/-- The host has a descriptor that is not in use. -/
def Roomy : Prop := ∀ k, w.fds (w.host.fates k).returned.number = none

/-- Nothing has happened to the files. -/
structure Same (w' : Disk) : Prop where
  names : w'.host.names = w.host.names
  files : w'.host.files = w.host.files
  type : w'.type = w.type
  content : w'.content = w.content

/-- A client finds the target in the reply. -/
def Shows (rc : Npfcall) (target : List UInt8) : Prop :=
  ∀ old tag, ∃ message, npDeserialize old (retag tag rc).pkt true = some message ∧
    message.type = MsgType.rreadlink.code ∧ StrAt (retag tag rc).pkt message.symtgt target

/-- The reply of a handler: an error, or what it is to be. -/
structure Answered (s s' : Linking) (reply : Option Npfcall) (right : Npfcall → Prop)
    (sure : Prop) : Prop where
  refused : reply = none → s'.error.isSome = true
  given : ∀ rc ∈ reply, right rc ∧ s'.error = s.error
  sure : sure → reply.isSome = true

/-- What `Tsymlink` makes of a target, `Treadlink` of the new link returns: each of them is answered
with an error or as it should, and answered as it should if no call fails. -/
def LinksBack (symtgt : List UInt8) : Prop :=
  ∀ (u : Ufssrv) (s : Linking) (dfid : FidPtr) (g : Npfid Fid) (f : Fid) (user : UserPtr)
    (name : List UInt8) (gid : UInt32),
    s.fids.get dfid = some g → g.aux = some f → f.mapped = true → g.user = some user →
    let path := ufsJoin f.path.bytes name
    let made := (npfsSymlink dfid name symtgt gid).run (execOp u) s
    Answered s made.2 made.1 (fun rc => rc.type = MsgType.rsymlink.code)
        (s.world.Obliging ∧ s.world.Roomy ∧ s.world.host.names path = none) ∧
      (made.1.isSome = true → ∀ (s₂ : Linking) (fid : FidPtr) (g' : Npfid Fid) (f' : Fid),
        made.2.world.Same s₂.world → s₂.fids.get fid = some g' → g'.aux = some f' →
        f'.mapped = true → f'.path = path →
        let read := (npfsReadlink fid).run (execOp u) s₂
        Answered s₂ read.2 read.1 (fun rc => Shows rc symtgt) (s₂.world.Obliging ∧ s₂.world.Roomy))

/-! ## The calls -/

section Calls

variable {w w' w'' : Disk} {path name : CStr} {file offset n : ℕ} {xattrs : Xattrs}
  {content bytes : List UInt8} {fd : UInt64} {α β : Type}

/-- The host has decided about some more calls. -/
def Later (w w' : Disk) : Prop := ∃ n, ∀ k, w'.host.fates k = w.host.fates (n + k)

theorem Later.refl : w.Later w := ⟨0, fun k => by rw [Nat.zero_add]⟩

theorem Later.one (next : ∀ k, w'.host.fates k = w.host.fates (k + 1)) : w.Later w' :=
  ⟨1, fun k => by rw [next, Nat.add_comm]⟩

theorem Later.trans (first : w.Later w') (second : w'.Later w'') : w.Later w'' := by
  obtain ⟨n, first⟩ := first
  obtain ⟨m, second⟩ := second
  refine ⟨n + m, fun k => ?_⟩
  rw [second, first, Nat.add_assoc]

theorem Later.obliging (later : w.Later w') (obliging : w.Obliging) : w'.Obliging := by
  obtain ⟨n, later⟩ := later
  intro k
  rw [later]
  exact obliging (n + k)

theorem Later.roomy (later : w.Later w') (fds : w'.fds = w.fds) (roomy : w.Roomy) : w'.Roomy := by
  obtain ⟨n, later⟩ := later
  intro k
  rw [later, fds]
  exact roomy (n + k)

theorem Obliging.answer {value : α} (obliging : w.Obliging) :
    Host.answer w.host.next.1 value = .ok value := by
  rw [Host.answer, show w.host.next.1.error = none from (obliging 0).1]

/-- A path names a regular file with these attributes and bytes. -/
structure Node (w : Disk) (path : CStr) (file : ℕ) (xattrs : Xattrs) (content : List UInt8) :
    Prop where
  names : w.host.names path = some file
  attributes : w.host.files.get file = some xattrs
  type : w.type file = S_IFREG
  content : w.content file = content

theorem Node.found (node : w.Node path file xattrs content) :
    w.host.next.2.file path = some xattrs := by
  simp [Host.file, Host.next, node.names, node.attributes]

theorem Same.node (same : w.Same w') (node : w.Node path file xattrs content) :
    w'.Node path file xattrs content where
  names := same.names ▸ node.names
  attributes := same.files ▸ node.attributes
  type := same.type ▸ node.type
  content := same.content ▸ node.content

/-- What a call or a piece of code answers: the host goes on, a success is as it is to be, and it is
a success when it has to be one. -/
structure Gives (w : Disk) (right : α → Disk → Prop) (sure : Prop) (r : Except Errno α)
    (w' : Disk) : Prop where
  later : w.Later w'
  right : ∀ v, r = .ok v → right v w'
  sure : sure → ∃ v, r = .ok v

variable {right : α → Disk → Prop} {right' : β → Disk → Prop} {sure sure' : Prop} {error : Errno}
  {v : α}

/-- A failure is passed on when more calls are made. -/
theorem Gives.passed (given : Gives w right sure (.error error) w') (further : w'.Later w'')
    (necessary : sure' → sure) : Gives w right' sure' (.error error) w'' where
  later := given.later.trans further
  right v is := by cases is
  sure so := by
    obtain ⟨v, is⟩ := given.sure (necessary so)
    cases is

/-- A failure is passed on. -/
theorem Gives.failed (given : Gives w right sure (.error error) w') (necessary : sure' → sure) :
    Gives w right' sure' (.error error) w' := given.passed .refl necessary

/-- Behind a success the code goes on. -/
theorem Gives.behind {r : Except Errno β} (given : Gives w right sure (.ok v) w')
    (onward : Gives w' right' w'.Obliging r w'') : Gives w right' w.Obliging r w'' where
  later := given.later.trans onward.later
  right := onward.right
  sure obliging := onward.sure (given.later.obliging obliging)

theorem Gives.goes_on {r : Except Errno β} (given : Gives w right sure (.ok v) w')
    (onward : Gives w' right' sure' r w'') (necessary : sure → sure') :
    Gives w right' sure r w'' where
  later := given.later.trans onward.later
  right := onward.right
  sure so := onward.sure (necessary so)

theorem Gives.mono {weaker : α → Disk → Prop} {r : Except Errno α} (given : Gives w right sure r w')
    (weaken : ∀ v, right v w' → weaker v w') (necessary : sure' → sure) :
    Gives w weaker sure' r w' where
  later := given.later
  right v is := weaken v (given.right v is)
  sure so := given.sure (necessary so)

theorem gives_ok (later : w.Later w') (holds : right v w') : Gives w right sure (.ok v) w' where
  later := later
  right v' is := by
    obtain rfl := Except.ok.inj is
    exact holds
  sure _ := ⟨v, rfl⟩

/-- The host is only asked. -/
structure Asked (w w' : Disk) : Prop where
  same : w.Same w'
  fds : w'.fds = w.fds

theorem Asked.trans (first : w.Asked w') (second : w'.Asked w'') : w.Asked w'' where
  same := ⟨second.same.names.trans first.same.names, second.same.files.trans first.same.files,
    second.same.type.trans first.same.type, second.same.content.trans first.same.content⟩
  fds := second.fds.trans first.fds

theorem asked_next : w.Asked { w with host := w.host.next.2 } := ⟨⟨rfl, rfl, rfl, rfl⟩, rfl⟩

theorem later_next : w.Later { w with host := w.host.next.2 } := .one fun _ => rfl

/-- The bits of `S_IFMT` of what `lstat` says. -/
theorem isType_placed (mode : UInt32) :
    isType S_IFLNK (S_IFREG ||| mode &&& 0o7777) = false := by
  have apart : (S_IFREG ||| mode &&& 0o7777) &&& S_IFMT = S_IFREG := by
    apply UInt32.toBitVec_inj.mp
    simp only [UInt32.toBitVec_and, UInt32.toBitVec_or, BitVec.and_or_distrib_right,
      BitVec.and_assoc]
    simp [S_IFREG, S_IFMT]
  rw [isType, apart]
  decide

theorem pass_lstat (node : w.Node path file xattrs content) :
    (w.pass (.lstat path)).1 = Host.answer w.host.next.1 w.host.next.1.stat := by
  show (if (w.host.next.2.file path).isNone then _ else _) = _
  rw [node.found]
  rfl

/-- `lstat` of a regular file. -/
theorem gives_lstat (node : w.Node path file xattrs content) :
    Gives w (fun st w' => w.Asked w' ∧ isType S_IFLNK st.mode = false) w.Obliging
      (w.lstat path).1 (w.lstat path).2 := by
  refine ⟨later_next, fun st is => ⟨asked_next, ?_⟩, fun obliging => ?_⟩
  · obtain ⟨st', -, rfl⟩ : ∃ st', (w.pass (.lstat path)).1 = .ok st' ∧
        { st' with mode := ((w.host.names path).map w.type).getD 0 ||| st'.mode &&& 0o7777 } =
          st := by
      cases found : (w.pass (.lstat path)).1 with
      | error error =>
          rw [lstat, found] at is
          cases is
      | ok st' =>
          rw [lstat, found] at is
          exact ⟨st', rfl, Except.ok.inj is⟩
    rw [node.names, Option.map_some, node.type]
    exact isType_placed st'.mode
  · rw [lstat, pass_lstat node, obliging.answer]
    exact ⟨_, rfl⟩

theorem pass_lgetxattr : (w.pass (.lgetxattr path name n)).1 =
    w.host.next.2.getXattr w.host.next.1 path name n := rfl

/-- `lgetxattr` of an attribute that the file has, with a buffer of its size. -/
theorem gives_lgetxattr (node : w.Node path file xattrs content) {value : List UInt8}
    (found : xattrs.lookup name = some value) (size : value.length = n) (some' : 0 < n)
    (small : n ≤ XATTR_MAX) :
    (w.pass (.lgetxattr path name n)).1 = .ok (n, value) ∨
      ∃ error ∉ [ENODATA, EOPNOTSUPP, EPERM], ¬ w.Obliging ∧
        (w.pass (.lgetxattr path name n)).1 = .error error := by
  rw [pass_lgetxattr, Host.getXattr, node.found]
  simp only [found]
  cases decided : w.host.next.1.error.filter (· ∉ [ENODATA, EOPNOTSUPP, EPERM]) with
  | none =>
      left
      simp only [Host.fetch, size]
      rw [if_neg (not_lt.mpr small), if_neg some'.ne', if_neg (lt_irrefl n)]
  | some error =>
      right
      obtain ⟨set, allowed⟩ := Option.filter_eq_some_iff.mp decided
      refine ⟨error, by simpa using allowed, fun obliging => ?_, rfl⟩
      cases (obliging 0).1.symm.trans set

/-- `lgetxattr` of an attribute that the file does not have. -/
theorem gives_lgetxattr_none (node : w.Node path file xattrs content)
    (absent : xattrs.lookup name = none) : ∃ error,
      (w.pass (.lgetxattr path name n)).1 = .error error ∧ (w.Obliging → error = ENODATA) := by
  refine ⟨w.host.next.1.error.getD ENODATA, ?_, fun obliging => ?_⟩
  · rw [pass_lgetxattr, Host.getXattr, node.found]
    simp only [absent]
  · rw [show w.host.next.1.error = none from (obliging 0).1]
    rfl

theorem later_pass (call : SysCall) : w.Later (w.pass call).2 :=
  .one fun k => congrFun (exec_fates w.host call) k

/-- `lsetxattr` of a value that may be new. -/
theorem gives_lsetxattr (node : w.Node path file xattrs content) (value : List UInt8) :
    Gives w (fun _ w' => w'.Node path file (xattrs.insert name value) content) w.Obliging
      (w.pass (.lsetxattr path name value 0)).1 (w.pass (.lsetxattr path name value 0)).2 := by
  refine ⟨later_pass _, ?_, ?_⟩
  all_goals
    have is : w.host.exec (.lsetxattr path name value 0) =
        w.host.next.2.setXattr w.host.next.1 path name value 0 := rfl
    rw [pass, is, Host.setXattr, node.found]
  · intro v stored
    cases decided : w.host.next.1.error with
    | some error =>
        simp only [decided] at stored
        cases stored
    | none =>
        have modified : w.host.next.2.modify path (AList.insert name value) =
            { w.host.next.2 with files := w.host.files.modify file (AList.insert name value) } := by
          rw [Host.modify, show w.host.next.2.names path = some file from node.names]
          rfl
        simp only [Host.XATTR_CREATE, Host.XATTR_REPLACE, UInt32.zero_and, ne_eq,
          not_true_eq_false, false_and, if_false, modified]
        refine ⟨node.names, ?_, node.type, node.content⟩
        simp [node.attributes]
  · intro obliging
    rw [show w.host.next.1.error = none from (obliging 0).1]
    exact ⟨(), rfl⟩

/-- The attributes that a new file has from the system. -/
def Plain (xattrs : Xattrs) : Prop := ∀ name ∈ xattrs, ¬ (cstr "user.").bytes <+: name.bytes

/-- The descriptor is open for the file. -/
def Opened (w : Disk) (fd : UInt64) (file offset : ℕ) : Prop := w.fds fd = some (file, offset)

section Open

variable {flags mode : UInt32} {host : Host}

theorem openFile_busy (busy : (w.fds w.host.next.1.returned.number).isSome = true) :
    w.openFile path flags mode = (.error EMFILE, { w with host := w.host.next.2 }) := if_pos busy

theorem openFile_failed (free : ¬ (w.fds w.host.next.1.returned.number).isSome = true)
    (refused : w.host.exec (.open path flags mode) = (.error error, host)) :
    w.openFile path flags mode = (.error error, { w with host }) := by
  rw [openFile, if_neg free, refused]

theorem openFile_ok (free : ¬ (w.fds w.host.next.1.returned.number).isSome = true)
    (opened : w.host.exec (.open path flags mode) = (.ok fd, host))
    (names : host.names path = some file) :
    w.openFile path flags mode =
      (.ok fd, { host
                 type := if (w.host.names path).isNone then Function.update w.type file S_IFREG
                   else w.type
                 content := if (w.host.names path).isNone ∨ flags &&& O_TRUNC ≠ 0 then
                   Function.update w.content file [] else w.content
                 fds := Function.update w.fds fd (some (file, 0)) }) := by
  rw [openFile, if_neg free, opened]
  simp only [names]

theorem later_openFile : w.Later (w.openFile path flags mode).2 := by
  have fates (k : ℕ) := congrFun (exec_fates w.host (.open path flags mode)) k
  by_cases busy : (w.fds w.host.next.1.returned.number).isSome = true
  · rw [openFile_busy busy]
    exact later_next
  · rcases is : w.host.exec (.open path flags mode) with ⟨error | fd, host⟩
    · rw [is] at fates
      rw [openFile_failed busy is]
      exact .one fates
    · rw [is] at fates
      cases named : host.names path with
      | none =>
          rw [openFile, if_neg busy, is]
          simp only [named]
          exact .one fates
      | some file =>
          rw [openFile_ok busy is named]
          exact .one fates

/-- The host makes a file. -/
theorem make_new (unused : w.host.names path = none) (allowed : w.host.next.1.error = none) :
    w.host.next.2.make w.host.next.1 path = (.ok (), { w.host.next.2 with
      files := w.host.files.push w.host.next.1.labels
      names := Function.update w.host.next.1.names path (some w.host.files.next) }) := by
  rw [Host.make, show w.host.next.2.names path = none from unused, allowed]
  rfl

theorem make_refused (refused : ¬ (w.host.names path = none ∧ w.host.next.1.error = none)) :
    ∃ error, w.host.next.2.make w.host.next.1 path = (.error error, w.host.next.2) := by
  cases taken : w.host.names path with
  | some other =>
      refine ⟨w.host.next.1.error.getD EEXIST, ?_⟩
      rw [Host.make, show w.host.next.2.names path = some other from taken]
  | none =>
      obtain ⟨error, decided⟩ : ∃ error, w.host.next.1.error = some error :=
        Option.ne_none_iff_exists'.mp fun none' => refused ⟨taken, none'⟩
      refine ⟨error, ?_⟩
      rw [Host.make, show w.host.next.2.names path = none from taken, decided]

theorem exec_open_new : w.host.exec (.open path (O_CREAT ||| O_EXCL ||| O_WRONLY) mode) =
    ((w.host.next.2.make w.host.next.1 path).1.map fun _ => w.host.next.1.returned.number,
      (w.host.next.2.make w.host.next.1 path).2) := rfl

/-- `open` of a file that it makes. -/
theorem gives_open_new :
    Gives w (fun fd w' => ∃ file labels, w'.Node path file labels [] ∧ Plain labels ∧
        w'.Opened fd file 0) (w.Obliging ∧ w.Roomy ∧ w.host.names path = none)
      (w.openFile path (O_CREAT ||| O_EXCL ||| O_WRONLY) mode).1
      (w.openFile path (O_CREAT ||| O_EXCL ||| O_WRONLY) mode).2 := by
  have makes := @exec_open_new w path mode
  by_cases busy : (w.fds w.host.next.1.returned.number).isSome = true
  · rw [openFile_busy busy]
    refine ⟨later_next, (fun fd opened => by cases opened), ?_⟩
    rintro ⟨-, roomy, -⟩
    rw [show w.fds w.host.next.1.returned.number = none from roomy 0] at busy
    cases busy
  · by_cases fine : w.host.names path = none ∧ w.host.next.1.error = none
    · obtain ⟨unused, allowed⟩ := fine
      rw [make_new unused allowed] at makes
      have named : Function.update w.host.next.1.names path (some w.host.files.next) path =
          some w.host.files.next := Function.update_self _ _ _
      have ok := openFile_ok busy makes named
      rw [unused] at ok
      have later := @later_openFile w path (O_CREAT ||| O_EXCL ||| O_WRONLY) mode
      rw [ok] at later ⊢
      refine gives_ok later ⟨w.host.files.next, w.host.next.1.labels, ⟨named, ?_, ?_, ?_⟩,
        w.host.next.1.unlabelled, Function.update_self _ _ _⟩
      · exact Cells.get_push_next
      · exact Function.update_self _ _ _
      · exact Function.update_self _ _ _
    · obtain ⟨error, refused⟩ := make_refused fine
      rw [refused] at makes
      rw [openFile_failed busy makes]
      refine ⟨later_next, (fun fd opened => by cases opened), ?_⟩
      rintro ⟨obliging, -, unused⟩
      exact absurd ⟨unused, (obliging 0).1⟩ fine

/-- `open` of a file to read it. -/
theorem gives_open (node : w.Node path file xattrs content) :
    Gives w (fun fd w' => w'.Node path file xattrs content ∧ w'.Opened fd file 0)
      (w.Obliging ∧ w.Roomy) (w.openFile path O_NOFOLLOW 0).1 (w.openFile path O_NOFOLLOW 0).2 := by
  have opens : w.host.exec (.open path O_NOFOLLOW 0) =
      (Host.answer w.host.next.1 w.host.next.1.returned.number, w.host.next.2) := by
    show w.host.next.2.openFile w.host.next.1 path O_NOFOLLOW = _
    have plain : ¬ (O_NOFOLLOW &&& O_CREAT ≠ 0) := by decide
    rw [Host.openFile, if_neg fun creates => plain creates.1,
      show w.host.next.2.names path = some file from node.names]
    rfl
  by_cases busy : (w.fds w.host.next.1.returned.number).isSome = true
  · rw [openFile_busy busy]
    refine ⟨later_next, (fun fd opened => by cases opened), ?_⟩
    rintro ⟨-, roomy⟩
    rw [show w.fds w.host.next.1.returned.number = none from roomy 0] at busy
    cases busy
  · cases decided : w.host.next.1.error with
    | some error =>
        rw [Host.answer, decided] at opens
        rw [openFile_failed busy opens]
        refine ⟨later_next, (fun fd opened => by cases opened), ?_⟩
        rintro ⟨obliging, -⟩
        cases (obliging 0).1.symm.trans decided
    | none =>
        rw [Host.answer, decided] at opens
        have ok := openFile_ok busy opens node.names
        have later := @later_openFile w path O_NOFOLLOW 0
        rw [ok] at later ⊢
        refine gives_ok later ⟨⟨node.names, node.attributes, ?_, ?_⟩, Function.update_self _ _ _⟩
        · simp [node.names, node.type]
        · have kept : ¬ ((w.host.names path).isNone = true ∨ O_NOFOLLOW &&& O_TRUNC ≠ 0) := by
            have flags : ¬ (O_NOFOLLOW &&& O_TRUNC ≠ 0) := by decide
            rw [node.names]
            exact not_or.mpr ⟨Bool.false_ne_true, flags⟩
          exact (congrFun (if_neg kept) file).trans node.content

end Open

section Transfer

variable {move : Fate → (file offset : ℕ) → Returned × ℕ × List UInt8} {returned : Returned}
  {moved : ℕ} {after : List UInt8}

/-- A transfer of a descriptor that is open. -/
theorem gives_transfer (node : w.Node path file xattrs content) (opened : w.Opened fd file offset)
    (moves : move w.host.next.1 file offset = (returned, moved, after)) :
    Gives w (fun v w' => v = returned ∧ w'.Node path file xattrs after ∧
        w'.Opened fd file (offset + moved)) w.Obliging
      (w.transfer fd move).1 (w.transfer fd move).2 := by
  cases decided : w.host.next.1.error with
  | some error =>
      have is : w.transfer fd move = (.error error, { w with host := w.host.next.2 }) := by
        rw [transfer, show w.fds fd = some (file, offset) from opened]
        simp only [decided]
      rw [is]
      refine ⟨later_next, (fun v ok => by cases ok), fun obliging => ?_⟩
      cases (obliging 0).1.symm.trans decided
  | none =>
      have is : w.transfer fd move = (.ok returned, { w with
          host := w.host.next.2
          content := Function.update w.content file after
          fds := Function.update w.fds fd (some (file, offset + moved)) }) := by
        rw [transfer, show w.fds fd = some (file, offset) from opened]
        simp only [decided, moves]
      rw [is]
      exact gives_ok (.one fun _ => rfl) ⟨rfl, ⟨node.names, node.attributes, node.type,
        Function.update_self _ _ _⟩, Function.update_self _ _ _⟩

/-- `write` at the end of a file. -/
theorem gives_write (node : w.Node path file xattrs content)
    (opened : w.Opened fd file content.length) :
    Gives w (fun v w' => ∃ k, v.number.toNat = (bytes.take k).length ∧
        w'.Node path file xattrs (content ++ bytes.take k) ∧
        w'.Opened fd file (content ++ bytes.take k).length ∧ (w.Obliging → 0 < k)) w.Obliging
      (w.write fd bytes).1 (w.write fd bytes).2 := by
  have last : Extent.write 0 (w.content file) content.length
      (bytes.take w.host.next.1.returned.number.toNat) =
        content ++ bytes.take w.host.next.1.returned.number.toNat := by
    rw [node.content]
    by_cases none' : bytes.take w.host.next.1.returned.number.toNat = []
    · rw [none', Extent.write_nil, List.append_nil]
    · rw [Extent.write_of_end none' (Nat.le_add_right _ _), Extent.resize_of_le le_rfl,
        List.take_length]
  refine (gives_transfer node opened rfl).mono ?_ id
  rintro v ⟨rfl, node', opened'⟩
  refine ⟨w.host.next.1.returned.number.toNat, ?_, last ▸ node', ?_, fun obliging => (obliging 0).2⟩
  · have below : (bytes.take w.host.next.1.returned.number.toNat).length < 2 ^ 64 :=
      (List.length_take_le _ _).trans_lt (UInt64.toNat_lt _)
    exact UInt64.toNat_ofNat_of_lt below
  · rw [List.length_append]
    exact opened'

/-- `read`, of at least a byte in front of the end. -/
theorem gives_read {count : ℕ} (node : w.Node path file xattrs content)
    (opened : w.Opened fd file offset) :
    Gives w (fun v w' => (∃ k, 0 < k ∧ v.bytes = (Extent.read content offset count).take k) ∧
        w'.Node path file xattrs content ∧ w'.Opened fd file (offset + v.bytes.length)) w.Obliging
      (w.read fd count).1 (w.read fd count).2 := by
  refine (gives_transfer node opened rfl).mono ?_ id
  rintro v ⟨rfl, node', opened'⟩
  rw [node.content] at node' opened'
  refine ⟨⟨max 1 w.host.next.1.returned.number.toNat, by omega, ?_⟩, node', ?_⟩
  · rw [← node.content]
  · rw [node.content]
    exact opened'

/-- `close`. -/
theorem gives_close (node : w.Node path file xattrs content) (opened : w.Opened fd file offset) :
    Gives w (fun _ w' => w'.Node path file xattrs content) w.Obliging
      (w.close fd).1 (w.close fd).2 := by
  have is : w.close fd = (Host.answer w.host.next.1 default,
      { w with host := w.host.next.2, fds := Function.update w.fds fd none }) := by
    rw [close, show w.fds fd = some (file, offset) from opened]
    rfl
  rw [is]
  refine ⟨.one fun _ => rfl, fun _ _ => ⟨node.names, node.attributes, node.type, node.content⟩,
    fun obliging => ?_⟩
  exact ⟨_, obliging.answer⟩

end Transfer

end Calls

/-! ## The code -/

section Code

variable {u : Ufssrv} {s : Linking} {path name : CStr} {file offset n : ℕ} {xattrs : Xattrs}
  {content rest : List UInt8} {fd : UInt64} {α β : Type}

/-- The code runs to its end, and what happens to the connection happens on its host. -/
def Leads (u : Ufssrv) (s : Linking) (code : Code α) (post : α → Disk → Prop) : Prop :=
  ∃ r w, code.run (execOp u) s = (r, { s with world := w }) ∧ post r w

theorem leads_done {post : α → Disk → Prop} {r : α} (holds : post r s.world) :
    Leads u s (.done r) post := ⟨r, s.world, rfl, holds⟩

theorem leads_sys {call : SysCall} {post : call.Reply → Disk → Prop}
    (holds : post (s.world.exec call).1 (s.world.exec call).2) : Leads u s (sys call) post :=
  ⟨_, _, rfl, holds⟩

theorem leads_data {call : DataCall} {post : Except Errno Returned → Disk → Prop}
    (holds : post (s.world.exec (.data call)).1 (s.world.exec (.data call)).2) :
    Leads u s (data call) post := ⟨_, _, rfl, holds⟩

theorem Leads.bind {middle : α → Disk → Prop} {post : β → Disk → Prop} {code : Code α}
    {next : α → Code β} (first : Leads u s code middle)
    (onward : ∀ r w, middle r w → Leads u { s with world := w } (next r) post) :
    Leads u s (code >>= next) post := by
  obtain ⟨r, w, ran, holds⟩ := first
  obtain ⟨r', w', ran', holds'⟩ := onward r w holds
  refine ⟨r', w', ?_, holds'⟩
  rw [run_bind, ran]
  exact ran'

theorem Leads.mono {post weaker : α → Disk → Prop} {code : Code α} (leads : Leads u s code post)
    (weaken : ∀ r w, post r w → weaker r w) : Leads u s code weaker := by
  obtain ⟨r, w, ran, holds⟩ := leads
  exact ⟨r, w, ran, weaken r w holds⟩

/-- `write` until the target is written. -/
theorem leads_writeTarget {turns : ℕ} (node : s.world.Node path file xattrs content)
    (opened : s.world.Opened fd file content.length) (enough : rest.length ≤ turns) :
    Leads u s (writeTarget fd turns rest) (Gives s.world (fun _ w =>
      w.Node path file xattrs (content ++ rest) ∧ w.Opened fd file (content ++ rest).length)
        s.world.Obliging) := by
  induction turns generalizing s rest content with
  | zero =>
      obtain rfl := List.eq_nil_of_length_eq_zero (Nat.le_zero.mp enough)
      rw [writeTarget, List.append_nil]
      exact leads_done (gives_ok .refl ⟨node, opened⟩)
  | succ turns ih =>
      rw [writeTarget]
      split_ifs with finished
      · rw [finished, List.append_nil]
        exact leads_done (gives_ok .refl ⟨node, opened⟩)
      · refine (leads_data (gives_write node opened)).bind fun r w given => ?_
        cases r with
        | error errno => exact leads_done (given.failed id)
        | ok v =>
            obtain ⟨k, number, node', opened', positive⟩ := given.right v rfl
            dsimp only
            split_ifs with stuck
            · -- A host that writes nothing is not obliging.
              refine leads_done ⟨given.later, (fun v is => by cases is), fun obliging => ?_⟩
              have none' : (rest.take k).length = 0 := by
                rw [← number, stuck]
                rfl
              rw [List.length_take] at none'
              have some' := List.length_pos_of_ne_nil finished
              have := positive obliging
              omega
            · have some' : v.number.toNat ≠ 0 := fun zero => stuck (UInt64.toNat_inj.mp zero)
              have length := List.length_take (i := k) (l := rest)
              have behind : rest.drop v.number.toNat = rest.drop k := by
                rw [number, length]
                rcases Nat.le_total k rest.length with below | above
                · rw [Nat.min_eq_left below]
                · rw [Nat.min_eq_right above, List.drop_length, List.drop_of_length_le above]
              have split : content ++ rest = content ++ rest.take k ++ rest.drop k := by
                rw [List.append_assoc, List.take_append_drop]
              rw [behind, split]
              refine (ih node' opened' ?_).mono fun r' w' given' => ?_
              · rw [← behind, List.length_drop]
                omega
              · exact given.behind given'

/-- `read` until the end of the file, or until the buffer is full. -/
theorem leads_readTarget {turns max : ℕ} {buf : List UInt8}
    (node : s.world.Node path file xattrs content) (opened : s.world.Opened fd file buf.length)
    (front : buf = content.take buf.length) (below : buf.length ≤ max)
    (enough : max ≤ turns + buf.length) :
    Leads u s (readTarget fd max turns buf) (Gives s.world (fun target w =>
      target = content.take max ∧ w.Node path file xattrs content ∧
        ∃ offset, w.Opened fd file offset) s.world.Obliging) := by
  induction turns generalizing s buf with
  | zero =>
      have full : max = buf.length := by omega
      rw [readTarget]
      exact leads_done (gives_ok .refl ⟨full ▸ front, node, _, opened⟩)
  | succ turns ih =>
      rw [readTarget]
      split_ifs with room
      · refine (leads_data (gives_read node opened)).bind fun r w given => ?_
        cases r with
        | error errno => exact leads_done (given.failed id)
        | ok v =>
            obtain ⟨⟨k, positive, bytes⟩, node', opened'⟩ := given.right v rfl
            dsimp only
            have within : v.bytes.length ≤ max - buf.length := by
              rw [bytes, List.length_take, Extent.length_read]
              omega
            have whole : v.bytes.take (max - buf.length) = v.bytes := List.take_of_length_le within
            rw [whole]
            have length : buf.length ≤ content.length := by
              have := congrArg List.length front
              rw [List.length_take] at this
              omega
            split_ifs with finished
            · -- Nothing is read, so nothing is left.
              have none' : v.bytes.length = 0 := congrArg List.length finished
              rw [bytes, List.length_take, Extent.length_read] at none'
              have end' : content.length ≤ buf.length := by omega
              refine leads_done (gives_ok given.later ⟨?_, node', _, opened'⟩)
              rw [front, List.take_of_length_le (by omega), List.take_of_length_le (by omega)]
            · have further : buf ++ v.bytes = content.take (buf ++ v.bytes).length := by
                have next : v.bytes <+: content.drop buf.length :=
                  bytes ▸ (List.take_prefix _ _).trans (List.take_prefix _ _)
                have all : buf ++ content.drop buf.length = content := by
                  nth_rewrite 1 [front]
                  exact List.take_append_drop _ _
                have begins := (List.prefix_append_right_inj buf).mpr next
                rw [all] at begins
                exact List.prefix_iff_eq_take.mp begins
              have some' := List.length_pos_of_ne_nil finished
              refine (ih node' ?_ further ?_ ?_).mono fun r' w' given' => ?_
              · rw [List.length_append]
                exact opened'
              · rw [List.length_append]
                omega
              · rw [List.length_append]
                omega
              · exact given.behind given'
      · have full : max = buf.length := by omega
        exact leads_done (gives_ok .refl ⟨full ▸ front, node, _, opened⟩)

/-- `mapped_get` of an attribute that has its size, if the file has it. -/
theorem leads_mappedGet (node : s.world.Node path file xattrs content)
    (sized : ∀ value ∈ xattrs.lookup name, value.length = n) (some' : 0 < n) (small : n ≤ 8) :
    Leads u s (mappedGet path name n) (Gives s.world (fun v w =>
      v = (xattrs.lookup name).map (fun value => word64 fun i => value.getD i 0) ∧
        s.world.Asked w) s.world.Obliging) := by
  have asked : s.world.Asked (s.world.exec (.lgetxattr path name n)).2 := asked_next
  have later : s.world.Later (s.world.exec (.lgetxattr path name n)).2 := later_next
  have called : Leads u s (sys (.lgetxattr path name n)) fun r w =>
      r = (s.world.pass (.lgetxattr path name n)).1 ∧
        w = (s.world.exec (.lgetxattr path name n)).2 := leads_sys ⟨rfl, rfl⟩
  refine called.bind ?_
  rintro r w ⟨is, rfl⟩
  cases found : xattrs.lookup name with
  | none =>
      obtain ⟨error, failed, obliged⟩ := @gives_lgetxattr_none _ _ _ _ n _ _ node found
      rw [failed] at is
      subst is
      dsimp only
      split_ifs with unknown
      · exact leads_done (gives_ok later ⟨rfl, asked⟩)
      · refine leads_done ⟨later, (fun v ok => by cases ok), fun obliging => ?_⟩
        exact absurd (.inl (obliged obliging)) unknown
  | some value =>
      have large : n ≤ XATTR_MAX := small.trans (by decide)
      rcases gives_lgetxattr node found (sized value found) some' large with ok | failed
      · rw [ok] at is
        subst is
        dsimp only
        rw [if_neg (not_not.mpr rfl)]
        exact leads_done (gives_ok later ⟨rfl, asked⟩)
      · obtain ⟨error, known, disobliging, failed⟩ := failed
        rw [failed] at is
        subst is
        dsimp only
        rw [if_neg (by simpa using known)]
        exact leads_done ⟨later, (fun v ok => by cases ok), fun obliging =>
          absurd obliging disobliging⟩

/-- The attributes of a symbolic link. -/
structure Marked (xattrs : Xattrs) : Prop where
  uid : ∀ value ∈ xattrs.lookup VIRTFS_UID, value.length = 4
  gid : ∀ value ∈ xattrs.lookup VIRTFS_GID, value.length = 4
  mode : xattrs.lookup VIRTFS_MODE = some (bytes32 (S_IFLNK ||| 0o777))
  rdev : xattrs.lookup VIRTFS_RDEV = none

/-- `mapped_stat` of a symbolic link. -/
theorem leads_mappedStat (node : s.world.Node path file xattrs content) (marked : Marked xattrs)
    (st : Stat) : Leads u s (mappedStat path st) fun r w =>
      Gives s.world (fun _ w => r.2.mode = S_IFLNK ||| 0o777 ∧ s.world.Asked w) s.world.Obliging
        r.1 w := by
  have modeSize : ∀ value ∈ xattrs.lookup VIRTFS_MODE, value.length = 4 := by
    intro value found
    rw [marked.mode] at found
    obtain rfl := Option.some.inj found
    exact bytes32_length _
  have rdevSize : ∀ value ∈ xattrs.lookup VIRTFS_RDEV, value.length = 8 := by
    intro value found
    rw [marked.rdev] at found
    cases found
  rw [mappedStat]
  refine (leads_mappedGet node marked.uid (by decide) (by decide)).bind fun r w given => ?_
  cases r with
  | error err => exact leads_done (given.failed id)
  | ok v =>
      obtain ⟨-, asked⟩ := given.right v rfl
      refine (leads_mappedGet (asked.same.node node) marked.gid (by decide)
        (by decide)).bind fun r w given' => ?_
      replace given := given.behind given'
      cases r with
      | error err => exact leads_done (given.failed id)
      | ok v =>
          replace asked := asked.trans (given'.right v rfl).2
          refine (leads_mappedGet (asked.same.node node) modeSize (by decide)
            (by decide)).bind fun r w given' => ?_
          replace given := given.behind given'
          cases r with
          | error err => exact leads_done (given.failed id)
          | ok mode =>
              obtain ⟨is, asked'⟩ := given'.right mode rfl
              replace asked := asked.trans asked'
              refine (leads_mappedGet (asked.same.node node) rdevSize (by decide)
                (by decide)).bind fun r w given' => ?_
              replace given := given.behind given'
              cases r with
              | error err => exact leads_done (given.failed id)
              | ok rdev =>
                  refine leads_done (gives_ok given.later ⟨?_, asked.trans (given'.right rdev rfl).2⟩)
                  rw [marked.mode, Option.map_some] at is
                  dsimp only
                  rw [is, Option.map_some, word64_bytes32]
                  rfl

/-- `ufs_lstat` of a symbolic link. -/
theorem leads_ufsLstat (node : s.world.Node path file xattrs content) (marked : Marked xattrs) :
    Leads u s (ufsLstat path true) (Gives s.world (fun _ w => s.world.Asked w)
      s.world.Obliging) := by
  have called : Leads u s (sys (.lstat path)) (Gives s.world (fun st w =>
      s.world.Asked w ∧ isType S_IFLNK st.mode = false) s.world.Obliging) :=
    leads_sys (gives_lstat node)
  rw [ufsLstat]
  refine called.bind fun r w given => ?_
  cases r with
  | error errno => exact leads_done (given.failed id)
  | ok st =>
      obtain ⟨asked, -⟩ := given.right st rfl
      refine (leads_mappedStat (asked.same.node node) marked st).bind fun r w given' => ?_
      refine leads_done ⟨given.later.trans given'.later, fun v is => ?_, fun obliging => ?_⟩
      · cases err : r.1 with
        | error err' =>
            rw [err] at is
            cases is
        | ok v => exact asked.trans (given'.right v err).2
      · obtain ⟨v, is⟩ := given'.sure (given.later.obliging obliging)
        rw [is]
        exact ⟨_, rfl⟩

theorem leads_mappedPut (node : s.world.Node path file xattrs content) (val : UInt64) :
    Leads u s (mappedPut path name n val) (Gives s.world (fun _ w =>
      w.Node path file (xattrs.insert name ((bytes64 val).take n)) content) s.world.Obliging) :=
  leads_sys (gives_lsetxattr node _)

theorem marked_insert (plain : Plain xattrs) (uid gid : UInt32) :
    Marked (((xattrs.insert VIRTFS_UID ((bytes64 uid.toUInt64).take 4)).insert VIRTFS_GID
      ((bytes64 gid.toUInt64).take 4)).insert VIRTFS_MODE
        ((bytes64 (S_IFLNK ||| 0o777).toUInt64).take 4)) := by
  have apart : VIRTFS_UID ≠ VIRTFS_GID ∧ VIRTFS_UID ≠ VIRTFS_MODE ∧ VIRTFS_GID ≠ VIRTFS_MODE ∧
      VIRTFS_RDEV ≠ VIRTFS_UID ∧ VIRTFS_RDEV ≠ VIRTFS_GID ∧ VIRTFS_RDEV ≠ VIRTFS_MODE := by
    decide +kernel
  obtain ⟨uidGid, uidMode, gidMode, rdevUid, rdevGid, rdevMode⟩ := apart
  refine ⟨?_, ?_, ?_, ?_⟩
  · intro value found
    rw [AList.lookup_insert_ne uidMode, AList.lookup_insert_ne uidGid, AList.lookup_insert] at found
    obtain rfl := Option.some.inj found
    rw [take_bytes64, bytes32_length]
  · intro value found
    rw [AList.lookup_insert_ne gidMode, AList.lookup_insert] at found
    obtain rfl := Option.some.inj found
    rw [take_bytes64, bytes32_length]
  · rw [AList.lookup_insert, take_bytes64]
  · rw [AList.lookup_insert_ne rdevMode, AList.lookup_insert_ne rdevGid,
      AList.lookup_insert_ne rdevUid]
    refine AList.lookup_eq_none.mpr fun member => plain VIRTFS_RDEV member ?_
    decide +kernel

/-- `mapped_create` of a symbolic link. -/
theorem leads_mappedCreate (node : s.world.Node path file xattrs content) (plain : Plain xattrs)
    (uid gid : UInt32) :
    Leads u s (mappedCreate path uid gid (S_IFLNK ||| 0o777) none) (Gives s.world (fun _ w =>
      ∃ xattrs, w.Node path file xattrs content ∧ Marked xattrs) s.world.Obliging) := by
  rw [mappedCreate]
  refine (leads_mappedPut node _).bind fun r w given => ?_
  cases r with
  | error err => exact leads_done (given.failed id)
  | ok v =>
      refine (leads_mappedPut (given.right v rfl) _).bind fun r w given' => ?_
      replace given := given.behind given'
      cases r with
      | error err => exact leads_done (given.failed id)
      | ok v =>
          refine (leads_mappedPut (given.right v rfl) _).bind fun r w given' => ?_
          replace given := given.behind given'
          cases r with
          | error err => exact leads_done (given.failed id)
          | ok v =>
              exact leads_done (gives_ok given.later ⟨_, given.right v rfl, marked_insert plain _ _⟩)

/-- A path names a symbolic link of the mapped id model. -/
def Linked (w : Disk) (path : CStr) (target : List UInt8) : Prop :=
  ∃ file xattrs, w.Node path file xattrs target ∧ Marked xattrs

theorem Same.linked {w w' : Disk} (same : w.Same w') (linked : w.Linked path content) :
    w'.Linked path content := by
  obtain ⟨file, xattrs, node, marked⟩ := linked
  exact ⟨file, xattrs, same.node node, marked⟩

theorem later_close {w : Disk} : w.Later (w.close fd).2 := by
  unfold close
  split_ifs
  · exact .one fun _ => rfl
  · exact later_next

section Finish

variable {right : Unit → Disk → Prop} {right' : α → Disk → Prop} {sure sure' : Prop} {err : Errno}
  {w : Disk}

/-- A file that is not finished is removed. -/
theorem leads_unlink (given : Gives s.world right' sure (.error err) w)
    (necessary : sure' → sure) :
    Leads u { s with world := w } (sys (.unlink path) >>= fun _ => .done (.error err))
      (Gives s.world right sure') := by
  have unlinks : Leads u { s with world := w } (sys (.unlink path)) fun _ w' => w.Later w' :=
    leads_sys (later_pass _)
  exact unlinks.bind fun _ w' later => leads_done (given.passed later necessary)

/-- The end of `mapped_symlink` with a target that is not written. -/
theorem leads_finishNode_failed {attributes : Code (Except Errno Unit)}
    (given : Gives s.world right' sure (.error err) w) (necessary : sure' → sure) :
    Leads u { s with world := w } (finishNode path fd (.error err) attributes)
      (Gives s.world right sure') := by
  have closes : Leads u { s with world := w } (data (.close fd)) fun _ w' => w.Later w' :=
    leads_data later_close
  rw [finishNode]
  refine closes.bind fun r w' later => ?_
  have failed : Gives s.world right sure' (.error err) w' := given.passed later necessary
  exact leads_unlink failed id

/-- The end of `mapped_symlink` with a target that is written. -/
theorem leads_finishNode (node : s.world.Node path file xattrs content)
    (opened : s.world.Opened fd file offset) (plain : Plain xattrs) (uid gid : UInt32) :
    Leads u s (finishNode path fd (.ok ()) (mappedCreate path uid gid (S_IFLNK ||| 0o777) none))
      (Gives s.world (fun _ w => w.Linked path content) s.world.Obliging) := by
  have closes : Leads u s (data (.close fd)) (Gives s.world (fun _ w =>
      w.Node path file xattrs content) s.world.Obliging) := leads_data (gives_close node opened)
  rw [finishNode]
  refine closes.bind fun r w given => ?_
  cases r with
  | error errno => exact leads_unlink given id
  | ok v =>
      refine (leads_mappedCreate (given.right v rfl) plain uid gid).bind fun r w given' => ?_
      replace given := given.behind given'
      cases r with
      | error errno => exact leads_unlink given id
      | ok v =>
          obtain ⟨xattrs, node, marked⟩ := given.right v rfl
          exact leads_done (gives_ok given.later ⟨file, xattrs, node, marked⟩)

end Finish

/-- `mapped_symlink`. -/
theorem leads_mappedSymlink (target : List UInt8) (uid gid : UInt32) :
    Leads u s (mappedSymlink target path uid gid) (Gives s.world (fun _ w => w.Linked path target)
      (s.world.Obliging ∧ s.world.Roomy ∧ s.world.host.names path = none)) := by
  have opens : Leads u s (sys (.open path (O_CREAT ||| O_EXCL ||| O_WRONLY) MAPPED_FILE_MODE)) _ :=
    leads_sys gives_open_new
  rw [mappedSymlink]
  refine opens.bind fun r w given => ?_
  cases r with
  | error errno => exact leads_done (given.failed id)
  | ok fd =>
      obtain ⟨file, labels, node, plain, opened⟩ := given.right fd rfl
      refine (leads_writeTarget node opened le_rfl).bind fun r w given' => ?_
      have obliging (so : s.world.Obliging ∧ s.world.Roomy ∧ s.world.host.names path = none) :=
        given.later.obliging so.1
      cases r with
      | error errno => exact leads_finishNode_failed (given.goes_on given' obliging) id
      | ok v =>
          obtain ⟨node, opened⟩ := given'.right v rfl
          refine (leads_finishNode node opened plain uid gid).mono fun r w given'' => ?_
          exact given.goes_on (given'.behind given'') obliging

/-- `mapped_readlink`. -/
theorem leads_mappedReadlink {max : ℕ} (node : s.world.Node path file xattrs content) :
    Leads u s (mappedReadlink path max) (Gives s.world (fun target _ => target = content.take max)
      (s.world.Obliging ∧ s.world.Roomy)) := by
  have opens : Leads u s (sys (.open path O_NOFOLLOW 0)) _ := leads_sys (gives_open node)
  rw [mappedReadlink]
  refine opens.bind fun r w given => ?_
  cases r with
  | error errno => exact leads_done (given.failed id)
  | ok fd =>
      obtain ⟨node, opened⟩ := given.right fd rfl
      have closes (w : Disk) : Leads u { s with world := w } (data (.close fd)) fun _ w' =>
          w.Later w' := leads_data later_close
      have reads : Leads u { s with world := w } (readTarget fd max max []) _ :=
        leads_readTarget node opened List.take_zero.symm (Nat.zero_le _) le_rfl
      refine reads.bind fun r w' given' => ?_
      refine (closes w').bind fun _ w'' later => leads_done ?_
      refine ⟨given.later.trans (given'.later.trans later), fun v is => (given'.right v is).1,
        fun so => given'.sure (given.later.obliging so.1)⟩

end Code

/-! ## The replies -/

section Replies

variable {u : Ufssrv} {s₀ s : Linking} {path : CStr} {file : ℕ} {xattrs : Xattrs}
  {content : List UInt8} {fid : FidPtr} {f : Fid} {g : Npfid Fid} {α : Type}
  {right : Npfcall → Disk → Prop} {sure : Prop}

/-- The code ends with a reply. -/
def Handles (u : Ufssrv) (s₀ s : Linking) (code : Code (Option Npfcall))
    (right : Npfcall → Disk → Prop) (sure : Prop) : Prop :=
  Answered s₀ (code.run (execOp u) s).2 (code.run (execOp u) s).1
    (fun rc => right rc (code.run (execOp u) s).2.world) sure

theorem Leads.handles {post : α → Disk → Prop} {code : Code α} {next : α → Code (Option Npfcall)}
    (leads : Leads u s code post)
    (onward : ∀ r w, post r w → Handles u s₀ { s with world := w } (next r) right sure) :
    Handles u s₀ s (code >>= next) right sure := by
  obtain ⟨r, w, ran, holds⟩ := leads
  have handles := onward r w holds
  unfold Handles at handles ⊢
  rw [run_bind, ran]
  exact handles

theorem handles_createRerror {err : Errno} (unsure : ¬ sure) :
    Handles u s₀ s (createRerror err) right sure where
  refused _ := rfl
  given rc is := by cases is
  sure so := absurd so unsure

/-- What a call answers is checked. -/
theorem handles_check {value : Except Errno α} {rest : α → Code (Option Npfcall)}
    (succeeds : sure → ∃ v, value = .ok v)
    (onward : ∀ v, value = .ok v → Handles u s₀ s (rest v) right sure) :
    Handles u s₀ s (check value rest) right sure := by
  cases value with
  | error err =>
      refine handles_createRerror fun so => ?_
      obtain ⟨v, is⟩ := succeeds so
      cases is
  | ok v => exact onward v rfl

theorem handles_create {constructor : Malloc → Option Npfcall} (kept : s.error = s₀.error)
    (makes : ∀ heap, ∃ rc, constructor heap = some rc ∧
      right rc { s.world with host := s.world.host.next.2 }) :
    Handles u s₀ s (create constructor) right sure := by
  obtain ⟨rc, made, holds⟩ := makes (s.world.host.next.1.heap)
  have ran : (create constructor).run (execOp u) s =
      (some rc, { s with world := { s.world with host := s.world.host.next.2 } }) := by
    rw [← made]
    rfl
  unfold Handles
  rw [ran]
  refine ⟨fun none' => (by cases none'), fun rc' is => ?_, fun _ => rfl⟩
  obtain rfl := Option.some.inj is
  exact ⟨holds, kept⟩

theorem handles_withAux {rest : Fid → Code (Option Npfcall)} (live : s.fids.get fid = some g)
    (aux : g.aux = some f) (handles : Handles u s₀ s (rest f) right sure) :
    Handles u s₀ s (withAux fid rest) right sure := by
  have loaded : s.load fid (·.aux) none = (some f, s) := by
    rw [Session.load, live]
    exact congrArg (·, s) aux
  unfold Handles withAux at *
  rw [run_step]
  simp only [execOp, loaded]
  exact handles

theorem leads_userUid {user : UserPtr} (live : s.fids.get fid = some g)
    (owned : g.user = some user) : Leads u s (userUid fid) fun _ w => w = s.world := by
  have loaded : s.load fid (·.user) none = (some user, s) := by
    rw [Session.load, live]
    exact congrArg (·, s) owned
  refine ⟨u.uid user, s.world, ?_, rfl⟩
  simp only [userUid, ufs, np, step_bind, done_bind, run_step, execOp, Npfs.exec, loaded]
  rfl

theorem rsymlink_made (qid : Npqid) (heap : Malloc) :
    ∃ rc, npCreateRsymlink qid heap = some rc ∧ rc.type = MsgType.rsymlink.code := by
  apply created_type <;> simp [bufPutQid, packed, PutOp.bytes, fcQid]

/-- A client reads the target that the reply is made of. -/
theorem rreadlink_made {target : CStr} (short : target.strlen < 2 ^ 16) (heap : Malloc) :
    ∃ rc, npCreateRreadlink target heap = some rc ∧ Shows rc target.bytes := by
  have reads : RoundTrip (npCreateRreadlink target) true .rreadlink fun pkt fc =>
      StrAt pkt fc.symtgt target.bytes := @roundTrip_rreadlink id true target short
  obtain ⟨rc, made, -⟩ := reads heap default none
  refine ⟨rc, made, fun old tag => ?_⟩
  obtain ⟨rc', made', message, read, type, -, -, carried⟩ := reads heap old tag
  obtain rfl := Option.some.inj (made.symm.trans made')
  exact ⟨message, read, type, carried⟩

/-- `npfs_symlink`. -/
theorem handles_npfsSymlink {name symtgt : List UInt8} {gid : UInt32} {user : UserPtr}
    (live : s.fids.get fid = some g) (aux : g.aux = some f) (mapped : f.mapped = true)
    (owned : g.user = some user) :
    Handles u s s (npfsSymlink fid name symtgt gid)
      (fun rc w => rc.type = MsgType.rsymlink.code ∧ w.Linked (ufsJoin f.path.bytes name) symtgt)
      (s.world.Obliging ∧ s.world.Roomy ∧
        s.world.host.names (ufsJoin f.path.bytes name) = none) := by
  refine handles_withAux live aux ?_
  dsimp only [byModel]
  rw [if_pos mapped]
  have makes : Leads u s (do mappedSymlink symtgt (ufsJoin f.path.bytes name) (← userUid fid) gid)
      (Gives s.world (fun _ w => w.Linked (ufsJoin f.path.bytes name) symtgt)
        (s.world.Obliging ∧ s.world.Roomy ∧
          s.world.host.names (ufsJoin f.path.bytes name) = none)) := by
    refine (leads_userUid live owned).bind ?_
    rintro uid _ rfl
    exact leads_mappedSymlink symtgt uid gid
  refine makes.handles fun r w given => ?_
  refine handles_check given.sure fun v is => ?_
  obtain ⟨file, xattrs, node, marked⟩ := given.right v is
  rw [mapped]
  have looks : Leads u { s with world := w } (ufsLstat (ufsJoin f.path.bytes name) true) _ :=
    leads_ufsLstat node marked
  refine looks.handles fun r w' given' => ?_
  refine handles_check (fun so => given'.sure (given.later.obliging so.1)) fun st found => ?_
  refine handles_create rfl fun heap => ?_
  obtain ⟨rc, made, type⟩ := rsymlink_made (ustat2qid st) heap
  have asked := (given'.right st found).trans asked_next
  exact ⟨rc, made, type, asked.same.linked ⟨file, xattrs, node, marked⟩⟩

theorem handles_setAux {f : Fid} {rest : Unit → Code (Option Npfcall)}
    (handles : Handles u s₀ (s.modify fid fun g => { g with aux := some f }) (rest ()) right sure) :
    Handles u s₀ s (setAux fid f >>= rest) right sure := handles

/-- `npfs_readlink` of a symbolic link of the mapped id model. -/
theorem handles_npfsReadlink {target : List UInt8} (live : s.fids.get fid = some g)
    (aux : g.aux = some f) (mapped : f.mapped = true) (linked : s.world.Linked f.path target) :
    Handles u s s (npfsReadlink fid)
      (fun rc _ => Shows rc (npStrdup (target.take TARGET_MAX)).bytes)
      (s.world.Obliging ∧ s.world.Roomy) := by
  obtain ⟨file, xattrs, node, marked⟩ := linked
  have short (target : List UInt8) : (npStrdup (target.take TARGET_MAX)).strlen < 2 ^ 16 := by
    refine (List.takeWhile_prefix _).length_le.trans_lt ?_
    exact (List.length_take_le _ _).trans_lt (by decide)
  refine handles_withAux live aux ?_
  rw [if_pos mapped, withStat, fidstat]
  have looks : Leads u s (sys (.lstat f.path)) _ := leads_sys (gives_lstat node)
  rw [bind_assoc]
  refine looks.handles fun r w given => ?_
  cases r with
  | error errno =>
      refine handles_createRerror fun so => ?_
      obtain ⟨v, is⟩ := given.sure so.1
      cases is
  | ok st =>
      obtain ⟨asked, regular⟩ := given.right st rfl
      dsimp only
      rw [if_pos mapped, bind_assoc]
      refine (leads_mappedStat (asked.same.node node) marked st).handles fun r w' given' => ?_
      refine handles_setAux ?_
      refine handles_check (fun so => given'.sure (given.later.obliging so.1)) fun v is => ?_
      obtain ⟨mode, asked'⟩ := given'.right v is
      have links : isType S_IFLNK r.2.mode = true := by
        rw [mode]
        decide
      dsimp only
      rw [if_neg (ne_true_of_eq_false regular), if_pos links]
      have both := asked.trans asked'
      generalize stored : Session.modify { s with world := w' } fid _ = t
      have world : t.world = w' := by rw [← stored]; rfl
      have error : t.error = s.error := by rw [← stored]; rfl
      have node' : t.world.Node f.path file xattrs target := world ▸ both.same.node node
      refine (leads_mappedReadlink node').handles fun target' w'' read => ?_
      refine handles_check (fun so => ?_) fun v is => ?_
      · have later := given.later.trans given'.later
        rw [world] at read
        exact read.sure ⟨later.obliging so.1, later.roomy both.fds so.2⟩
      · obtain rfl := read.right v is
        exact handles_create error fun heap => rreadlink_made (short target) heap

theorem Shows.unique {rc : Npfcall} {target target' : List UInt8} (first : Shows rc target)
    (second : Shows rc target') : target = target' := by
  obtain ⟨message, read, -, length, start, at', -, bytes⟩ := first default none
  obtain ⟨message', read', -, length', start', at'', -, bytes'⟩ := second default none
  obtain rfl : message = message' := Option.some.inj (read.symm.trans read')
  have same : start = start' := Int.ofNat_inj.mp (Option.some.inj (at'.symm.trans at''))
  rw [← bytes, ← bytes', same, ← length, ← length']

theorem npStrdup_of_plain {target : List UInt8} (plain : 0 ∉ target) :
    (npStrdup target).bytes = target := by
  refine List.takeWhile_eq_self_iff.mpr fun byte member => ?_
  exact decide_eq_true fun zero => plain (zero ▸ member)

/-! ## A host on which all goes well -/

/-- A call that succeeds, and moves as much as it is asked to. -/
def fateObliging : Fate :=
  { Fate.empty with returned := { (default : Returned) with number := 0xFFFFFFFFFFFFFFFF } }

/-- A host without a file. -/
def diskEmpty : Disk := ⟨⟨Cells.empty, fun _ => none, fun _ => fateObliging⟩, fun _ => 0,
  fun _ => [], fun _ => none⟩

/-- A fid of the mapped id model. -/
def fidAt (path : CStr) : Npfid Fid :=
  { (Npfid.new 1 : Npfid Fid) with user := some 0, aux := some { npfsFidalloc path with mapped := true } }

/-- A connection with one fid. -/
def linking (path : CStr) (w : Disk) : Linking where
  srv := { msize := 8192, dotu := true, dotl := true, auth := none, fiddestroy := true }
  conn := { msize := 8192, dotu := true, dotl := true }
  fids := Cells.empty.push (fidAt path)
  pool := fun fid => if fid = 1 then some 0 else none
  users := fun _ => 1
  error := none
  reqFid := none
  world := w
  fault := false

theorem moves_fateObliging : 0 < fateObliging.returned.number.toNat := by decide

theorem obliging_diskEmpty : diskEmpty.Obliging := fun _ => ⟨rfl, moves_fateObliging⟩

theorem roomy_diskEmpty : diskEmpty.Roomy := fun _ => rfl

/-- A longer target is cut. -/
theorem not_linksBack {symtgt : List UInt8} (long : TARGET_MAX < symtgt.length) :
    ¬ LinksBack symtgt := by
  intro back
  have live : (linking (cstr "/") diskEmpty).fids.get 0 = some (fidAt (cstr "/")) := rfl
  obtain ⟨⟨-, -, sure⟩, reads⟩ := back .unknowing (linking (cstr "/") diskEmpty) 0 _ _ 0
    (cstr "a").bytes 0 live rfl rfl rfl
  have made := sure ⟨obliging_diskEmpty, roomy_diskEmpty, rfl⟩
  obtain ⟨-, given, -⟩ := @handles_npfsSymlink .unknowing (linking (cstr "/") diskEmpty) 0 _ _
    (cstr "a").bytes symtgt 0 0 live rfl rfl rfl
  generalize (npfsSymlink 0 (cstr "a").bytes symtgt 0).run (execOp .unknowing)
    (linking (cstr "/") diskEmpty) = after at made reads given
  obtain ⟨rc, is⟩ := Option.isSome_iff_exists.mp made
  have linked := (given rc is).1.2
  -- The host goes on as it was at the start, with the files that there are now.
  obtain ⟨w, same, obliging, roomy⟩ : ∃ w, after.2.world.Same w ∧ w.Obliging ∧ w.Roomy :=
    ⟨{ after.2.world with
        host := { after.2.world.host with fates := fun _ => fateObliging }
        fds := fun _ => none }, ⟨rfl, rfl, rfl, rfl⟩, fun _ => ⟨rfl, moves_fateObliging⟩, fun _ => rfl⟩
  have live' : (linking (cstr "/a") w).fids.get 0 = some (fidAt (cstr "/a")) := rfl
  have path : (cstr "/a") = ufsJoin (cstr "/").bytes (cstr "a").bytes := by decide
  have read := reads made (linking (cstr "/a") w) 0 _ _ same live' rfl rfl path
  have linked' : w.Linked (cstr "/a") symtgt := path ▸ same.linked linked
  obtain ⟨-, cut, -⟩ := @handles_npfsReadlink .unknowing (linking (cstr "/a") w) 0 _ _ symtgt live'
    rfl rfl linked'
  obtain ⟨rc', is'⟩ := Option.isSome_iff_exists.mp (read.sure ⟨obliging, roomy⟩)
  have shown := (read.given rc' is').1.unique (cut rc' is').1
  have most : symtgt.length ≤ TARGET_MAX := by
    rw [shown]
    exact (List.takeWhile_prefix _).length_le.trans (List.length_take_le _ _)
  exact absurd most (not_le.mpr long)

/-- What `mapped_symlink` and `mapped_readlink` make of a target: exactly the targets that the buffer
of `npfs_readlink` has room for come back. -/
theorem linksBack_iff {symtgt : List UInt8} (plain : 0 ∉ symtgt) :
    LinksBack symtgt ↔ symtgt.length ≤ TARGET_MAX := by
  constructor
  · intro back
    by_contra long
    exact not_linksBack (not_le.mp long) back
  · intro short u s dfid g f user name gid live aux mapped owned
    obtain ⟨refused, given, sure⟩ := @handles_npfsSymlink u s dfid f g name symtgt gid user live aux
      mapped owned
    refine ⟨⟨refused, fun rc is => ⟨(given rc is).1.1, (given rc is).2⟩, sure⟩, ?_⟩
    intro made s₂ fid g' f' same live' aux' mapped' path
    obtain ⟨rc, is⟩ := Option.isSome_iff_exists.mp made
    have linked := same.linked (given rc is).1.2
    rw [← path] at linked
    have handles := @handles_npfsReadlink u s₂ fid f' g' symtgt live' aux' mapped' linked
    rw [List.take_of_length_le short, npStrdup_of_plain plain] at handles
    exact handles

/-- A target of two bytes. -/
theorem linksBack_two : LinksBack (cstr "..").bytes := (linksBack_iff (by decide)).mpr (by decide)

/-- A target of 4096 bytes, which a client may send, comes back without its last one. -/
theorem not_linksBack_all : ¬ ∀ symtgt : List UInt8, 0 ∉ symtgt → 1 ≤ symtgt.length →
    symtgt.length ≤ 65535 → LinksBack symtgt := by
  intro all
  have length : (List.replicate 4096 (0x61 : UInt8)).length = 4096 := List.length_replicate
  refine not_linksBack ?_ (all (List.replicate 4096 0x61) ?_ ?_ ?_)
  · rw [length]
    decide
  · intro member
    exact absurd (List.eq_of_mem_replicate member) (by decide)
  · omega
  · omega

end Replies

end Disk

end Ufs

end Npfs
