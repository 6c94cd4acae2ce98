import Mathlib.Data.List.AList
import Npfs.Cells
import Npfs.Fid

/-!
# The host of a file server

The system calls that a file server makes, and what they do to the files of its host. A file is what
its paths share: it keeps its extended attributes whatever its names are. The host decides call by
call whether a call fails, what it reports, and what the paths name once a directory has changed.
-/

namespace Npfs

/-- A value of `errno`. -/
abbrev Errno := UInt32

/-- `ENOENT`. -/
def ENOENT : Errno := 2

/-- `EBADF`. -/
def EBADF : Errno := 9

/-- `EACCES`. -/
def EACCES : Errno := 13

/-- `EEXIST`. -/
def EEXIST : Errno := 17

/-- `EISDIR`. -/
def EISDIR : Errno := 21

/-- `EINVAL`. -/
def EINVAL : Errno := 22

/-- `ERANGE`. -/
def ERANGE : Errno := 34

/-- `E2BIG`. -/
def E2BIG : Errno := 7

/-- The largest attribute value or list of attributes that the host hands out. -/
def XATTR_MAX : Nat := 65536

/-- `ENODATA`. -/
def ENODATA : Errno := 61

/-- `EOPNOTSUPP` and `ENOTSUP`. -/
def EOPNOTSUPP : Errno := 95

/-- `O_WRONLY`. -/
def O_WRONLY : UInt32 := 0o1

/-- `O_RDWR`. -/
def O_RDWR : UInt32 := 0o2

/-- `O_CREAT`. -/
def O_CREAT : UInt32 := 0o100

/-- `O_EXCL`. -/
def O_EXCL : UInt32 := 0o200

/-- `O_TRUNC`. -/
def O_TRUNC : UInt32 := 0o1000

/-- `O_APPEND`. -/
def O_APPEND : UInt32 := 0o2000

/-- `O_NOFOLLOW`. -/
def O_NOFOLLOW : UInt32 := 0o400000

/-- `O_PATH`. -/
def O_PATH : UInt32 := 0o10000000

/-- What is read of a `struct stat`. -/
structure Stat where
  mode : UInt32
  uid : UInt32
  gid : UInt32
  nlink : UInt64
  rdev : UInt64
  size : UInt64
  blksize : UInt64
  blocks : UInt64
  ino : UInt64
  atimeSec : UInt64
  atimeNsec : UInt64
  mtimeSec : UInt64
  mtimeNsec : UInt64
  ctimeSec : UInt64
  ctimeNsec : UInt64
  deriving DecidableEq, Inhabited

/-- What is read of a `struct dirent`. -/
structure Dirent where
  ino : UInt64
  off : UInt64
  type : UInt8
  name : CStr
  deriving DecidableEq

/-- What is read of a `struct flock`. -/
structure Flock where
  type : UInt8
  start : UInt64
  len : UInt64
  pid : UInt32
  deriving DecidableEq, Inhabited

/-! ## System calls -/

/-- A call that neither names a file nor touches an attribute. -/
inductive DataCall where
  | opendir (path : CStr)
  | fdopendir (fd : UInt64)
  | close (fd : UInt64)
  | closedir (dir : UInt64)
  | pread (fd : UInt64) (count : Nat) (offset : UInt64)
  | pwrite (fd : UInt64) (data : List UInt8) (offset : UInt64)
  | read (fd : UInt64) (count : Nat)
  | write (fd : UInt64) (data : List UInt8)
  | rewinddir (dir : UInt64)
  | telldir (dir : UInt64)
  | seekdir (dir offset : UInt64)
  | readdir (dir : UInt64)
  | readlink (path : CStr) (count : Nat)
  | truncate (path : CStr) (size : UInt64)
  | utimes (path : CStr) (atimeSec atimeUsec mtimeSec mtimeUsec : UInt64)
  | utime (path : CStr) (actime modtime : UInt64)
  | chmod (path : CStr) (mode : UInt32)
  | chown (path : CStr) (uid gid : UInt32)
  | lchown (path : CStr) (uid gid : UInt32)
  | statfs (path : CStr)
  | fsync (fd : UInt64)
  | dirfd (dir : UInt64)
  | lock (fd : UInt64) (op : UInt32) (lock : Flock)
  | gettimeofday
  | geteuid
  /-- The calls of `np_change_user`. -/
  | changeUser (uid : UInt32)

/-- A system call. -/
inductive SysCall where
  | lstat (path : CStr)
  | lgetxattr (path name : CStr) (size : Nat)
  | lsetxattr (path name : CStr) (value : List UInt8) (flags : UInt32)
  | lremovexattr (path name : CStr)
  | llistxattr (path : CStr) (size : Nat)
  | open (path : CStr) (flags mode : UInt32)
  | mkdir (path : CStr) (mode : UInt32)
  | symlink (target path : CStr)
  | mknod (path : CStr) (mode : UInt32) (dev : UInt64)
  | rename (old new : CStr)
  | link (old new : CStr)
  | unlink (path : CStr)
  | rmdir (path : CStr)
  | remove (path : CStr)
  | unlinkat (fd : UInt64) (name : CStr) (removedir : Bool)
  | malloc (size : Nat)
  | data (call : DataCall)

/-- What a call without an answer of its own returns: a number, bytes or a structure. -/
structure Returned where
  number : UInt64
  /-- The second number of `gettimeofday`. -/
  usec : UInt64
  bytes : List UInt8
  dirent : Option Dirent
  statfs : Npstatfs
  flock : Flock
  deriving Inhabited

/-- What a system call returns.  The two calls that read attributes return a count and what they
have put into the buffer. -/
abbrev SysCall.Reply : SysCall → Type
  | .lstat _ => Except Errno Stat
  | .lgetxattr .. | .llistxattr .. => Except Errno (Nat × List UInt8)
  | .open .. => Except Errno UInt64
  | .malloc _ => Option (List UInt8)
  | .data _ => Except Errno Returned
  | _ => Except Errno Unit

/-! ## Files -/

/-- The extended attributes of a file. -/
abbrev Xattrs := AList fun _ : CStr => List UInt8

/-- What `llistxattr` reports: the names with their terminators. -/
def Xattrs.list (xattrs : Xattrs) : List UInt8 :=
  xattrs.keys.flatMap fun name => name.bytes ++ [0]

/-- What the host decides about one call. -/
structure Fate where
  error : Option Errno
  returned : Returned
  stat : Stat
  /-- What the paths name if the call changes that. -/
  names : CStr → Option Nat
  /-- The attributes that a new file has from the system. -/
  labels : Xattrs
  /-- The `user` attributes are left to the users. -/
  unlabelled : ∀ name ∈ labels, ¬ (cstr "user.").bytes <+: name.bytes
  /-- The memory of a packet that is allocated. -/
  heap : Malloc

/-- The files of a host, and what it has decided about the calls to come. -/
structure Host where
  files : Cells Xattrs
  names : CStr → Option Nat
  fates : Nat → Fate

namespace Host

/-- The file that a path names, without following a symbolic link at its end. -/
def file (host : Host) (path : CStr) : Option Xattrs := host.names path >>= host.files.get

/-- An attribute of a file. -/
def xattr (host : Host) (file : Nat) (name : CStr) : Option (List UInt8) :=
  host.files.get file >>= AList.lookup name

/-- Change the attributes of the file that a path names. -/
def modify (host : Host) (path : CStr) (change : Xattrs → Xattrs) : Host :=
  match host.names path with
  | none => host
  | some file => { host with files := host.files.modify file change }

/-- The call succeeds unless the host decides otherwise. -/
def answer {α : Type} (fate : Fate) (value : α) : Except Errno α :=
  match fate.error with
  | none => .ok value
  | some error => .error error

/-- A new file gets a path. -/
def make (host : Host) (fate : Fate) (path : CStr) : Except Errno Unit × Host :=
  match host.names path, fate.error with
  | some _, error => (.error (error.getD EEXIST), host)
  | none, some error => (.error error, host)
  | none, none =>
    (.ok (), { host with
      files := host.files.push fate.labels
      names := Function.update fate.names path (some host.files.next) })

/-- The paths may name other files after a call that succeeds. -/
def arrange (host : Host) (fate : Fate) : Except Errno Unit × Host :=
  match fate.error with
  | some error => (.error error, host)
  | none => (.ok (), { host with names := fate.names })

/-- `open`, which makes a file only without `O_PATH`. -/
def openFile (host : Host) (fate : Fate) (path : CStr) (flags : UInt32) :
    Except Errno UInt64 × Host :=
  if flags &&& O_CREAT ≠ 0 ∧ flags &&& O_PATH = 0 ∧
      (flags &&& O_EXCL ≠ 0 ∨ (host.names path).isNone) then
    let (made, host) := host.make fate path
    (made.map fun _ => fate.returned.number, host)
  else if (host.names path).isNone then
    (.error (fate.error.getD ENOENT), host)
  else
    (answer fate fate.returned.number, host)

/-- The bytes of an attribute or of a list of attributes, for a buffer of a given size; a buffer
without bytes asks for the count. -/
def fetch (size : Nat) (bytes : List UInt8) : Except Errno (Nat × List UInt8) :=
  if bytes.length > XATTR_MAX then .error E2BIG
  else if size = 0 then .ok (bytes.length, [])
  else if bytes.length > size then .error ERANGE
  else .ok (bytes.length, bytes)

/-- `lgetxattr`.  Of an attribute that the file has it does not say that there is none. -/
def getXattr (host : Host) (fate : Fate) (path name : CStr) (size : Nat) :
    Except Errno (Nat × List UInt8) :=
  match host.file path with
  | none => .error (fate.error.getD ENOENT)
  | some xattrs =>
    match xattrs.lookup name with
    | none => .error (fate.error.getD ENODATA)
    | some value =>
      match fate.error.filter (· ∉ [ENODATA, EOPNOTSUPP, EPERM]) with
      | some error => .error error
      | none => fetch size value

/-- `XATTR_CREATE`. -/
def XATTR_CREATE : UInt32 := 1

/-- `XATTR_REPLACE`. -/
def XATTR_REPLACE : UInt32 := 2

/-- `lsetxattr`. -/
def setXattr (host : Host) (fate : Fate) (path name : CStr) (value : List UInt8)
    (flags : UInt32) : Except Errno Unit × Host :=
  match host.file path, fate.error with
  | none, error => (.error (error.getD ENOENT), host)
  | some _, some error => (.error error, host)
  | some xattrs, none =>
    if flags &&& XATTR_CREATE ≠ 0 ∧ name ∈ xattrs then
      (.error EEXIST, host)
    else if flags &&& XATTR_REPLACE ≠ 0 ∧ name ∉ xattrs then
      (.error ENODATA, host)
    else
      (.ok (), host.modify path (AList.insert name value))

/-- `lremovexattr`. -/
def removeXattr (host : Host) (fate : Fate) (path name : CStr) : Except Errno Unit × Host :=
  match host.file path, fate.error with
  | none, error => (.error (error.getD ENOENT), host)
  | some _, some error => (.error error, host)
  | some xattrs, none =>
    if name ∈ xattrs then
      (.ok (), host.modify path (AList.erase name))
    else
      (.error ENODATA, host)

/-- The call that is made now, and the ones to come. -/
def next (host : Host) : Fate × Host :=
  (host.fates 0, { host with fates := fun k => host.fates (k + 1) })

/-- The size of the largest object. -/
def PTRDIFF_MAX : Nat := 2 ^ 63 - 1

/-- Make a system call. -/
def exec (call : SysCall) (host : Host) : call.Reply × Host :=
  let (fate, host) := host.next
  match call with
  | .lstat path =>
    (if (host.file path).isNone then .error (fate.error.getD ENOENT)
      else answer fate fate.stat, host)
  | .lgetxattr path name size => (host.getXattr fate path name size, host)
  | .lsetxattr path name value flags => host.setXattr fate path name value flags
  | .lremovexattr path name => host.removeXattr fate path name
  | .llistxattr path size =>
    (match host.file path, fate.error with
      | none, error => .error (error.getD ENOENT)
      | some _, some error => .error error
      | some xattrs, none => fetch size xattrs.list, host)
  | .open path flags _ => host.openFile fate path flags
  | .mkdir path _ => host.make fate path
  | .symlink _ path => host.make fate path
  | .mknod path _ _ => host.make fate path
  | .rename _ _ => host.arrange fate
  | .link _ _ => host.arrange fate
  | .unlink _ => host.arrange fate
  | .rmdir _ => host.arrange fate
  | .remove _ => host.arrange fate
  | .unlinkat _ _ _ => host.arrange fate
  | .malloc size =>
    (if fate.error.isSome ∨ PTRDIFF_MAX < size then none
      else some ((List.range size).map fun k => fate.returned.bytes.getD k 0), host)
  | .data _ => (answer fate fate.returned, host)

end Host

end Npfs
