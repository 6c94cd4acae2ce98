import Npfs.Handlers
import Npfs.Ramfs
import Npfs.Ufs

/-!
# Wstat in memory

`ramfs_wstat` of `fs/ramfs.c` and `rfs_wstat` of `fs/ramfs2.c` with the name, the locks and the
ways out. `truncate_file` and `file_truncate` have one body; `perm`, `data` and `datasize` of a file
of ramfs are `mode` and `aux` here.
-/

namespace Npfs.MemoryWstat

/-- What of an `Npstat` the functions read. -/
structure Stat where
  name : List UInt8
  length : UInt64
  mode : UInt32
  mtime : UInt32

/-- The directory that a file is in. -/
structure Dir where
  mode : UInt32
  uid : ℕ
  /-- The names of its files. -/
  names : List CStr

/-- A file and the directory that it is in. -/
structure Node extends Npfile where
  name : CStr
  uid : ℕ
  parent : Dir
  /-- `file->parent` is the file, as in the root. -/
  root : Bool

/-- The answers of the allocator in one call. -/
structure Memory where
  /-- `malloc` in `np_strdup`. -/
  copies : Bool
  /-- The change of the size. -/
  grant : Grant
  /-- The change on the way out. -/
  again : Grant
  /-- `malloc` in `np_create_rwstat`. -/
  replies : Bool

/-- What the function has returned: whether that is a success, and `np_haserror`. -/
structure Answer where
  ret : Bool
  error : Bool

/-! ## Locks -/

/-- A mutex of a file. -/
inductive Lock where
  | file
  | parent
  deriving DecidableEq

/-- `&file->parent->lock`. -/
def Node.parentLock (file : Node) : Lock := if file.root then .file else .parent

/-- `pthread_mutex_lock`, in a thread that has the locks `held`. -/
def lock (mutex : Lock) (held : List Lock) : Except Fault (List Lock) :=
  if mutex ∈ held then .error .blocked else .ok (mutex :: held)

/-- `pthread_mutex_unlock`. -/
def unlock (mutex : Lock) (held : List Lock) : Except Fault (List Lock) :=
  if mutex ∈ held then .ok (held.erase mutex) else .error .wild

/-- `lock` if the flag is set. -/
def lockIf (flag : Bool) (mutex : Lock) (held : List Lock) : Except Fault (List Lock) :=
  if flag then lock mutex held else .ok held

/-- `unlock` if the flag is set. -/
def unlockIf (flag : Bool) (mutex : Lock) (held : List Lock) : Except Fault (List Lock) :=
  if flag then unlock mutex held else .ok held

/-! ## The functions -/

/-- `np_strdup`, which stores through what `malloc` returns. -/
def npStrdup (name : List UInt8) (copies : Bool) : Except Fault CStr :=
  if copies then .ok (Npfs.npStrdup name) else .error .wild

/-- `find_file` and `npfile_find` in the parent: whether the name is there. -/
def findFile (held : List Lock) (file : Node) (name : CStr) : Except Fault Bool :=
  if name = cstr ".." then
    return true
  else do
    let held ← lock file.parentLock held
    let _ ← unlock file.parentLock held
    return decide (name ∈ file.parent.names)

/-- `check_perm` of ramfs: its value, and whether it sets an error. -/
def checkPerm (mode : UInt32) (uid : ℕ) (user : Option ℕ) (perm : UInt32) : Bool × Bool :=
  match user with
  | none => (false, false)
  | some user =>
    if perm = 0 then
      (true, false)
    else
      let n := mode &&& 7
      let n := if uid = user then
          n ||| ((mode >>> 6) &&& (7 : UInt32)) ||| ((mode >>> 3) &&& (7 : UInt32))
        else n
      if n &&& perm = 0 then (false, true) else (true, false)

/-- `memset` of what a longer file has more. -/
def clear (f : File) (length new : UInt64) : Except Fault File :=
  if length < new then f.zero length.toNat (new - length).toNat else .ok f

/-- The locals of the functions. -/
structure Frame where
  file : Node
  oldname : Option CStr
  oldlength : UInt64
  oldperm : UInt32
  oldmtime : UInt32
  /-- `np_haserror`. -/
  error : Bool
  /-- It goes to `out`. -/
  out : Bool

namespace Frame

/-- At the start of the functions. -/
def start (file : Node) : Frame :=
  { file, oldname := none, oldlength := ~~~0, oldperm := ~~~0, oldmtime := ~~~0
    error := false, out := false }

/-- `np_werror` and `goto out`. -/
def fail (l : Frame) : Frame := { l with error := true, out := true }

/-- The new name. -/
def rename (l : Frame) (held : List Lock) (name : List UInt8) (copies : Bool) :
    Except Fault Frame := do
  let sname ← npStrdup name copies
  let nf ← findFile held l.file sname
  if nf then
    return l.fail
  else
    return { l with oldname := some l.file.name, file := { l.file with name := sname } }

/-- The length is at most the size of the block, and the bytes before it are set. -/
def stretch (l : Frame) (f : File) (size : UInt64) : Except Fault Frame := do
  let length := if size > f.datasize then f.datasize else size
  let f ← clear f l.file.length length
  return { l with file := { l.file with length, aux := f } }

/-- The new length. -/
def resize (blksize : UInt64) (l : Frame) (size : UInt64) (grant : Grant) :
    Except Fault Frame := do
  let l := { l with oldlength := l.file.length }
  let (failed, f) ← fileTruncate blksize l.file.aux size grant
  if failed ≠ 0 then
    return { l with file := { l.file with aux := f } }.fail
  else
    l.stretch f size

/-- The new mode. -/
def chmod (l : Frame) (mode : UInt32) : Frame :=
  { l with oldperm := l.file.mode, file := { l.file with mode } }

/-- The new time. -/
def touch (l : Frame) (mtime : UInt32) : Frame :=
  { l with oldmtime := l.file.mtime, file := { l.file with mtime } }

/-- What is set goes back to what it was. -/
def restore (blksize : UInt64) (l : Frame) (again : Grant) : Except Fault Node := do
  let file := { l.file with
    name := l.oldname.getD l.file.name
    mode := if l.oldperm ≠ ~~~0 then l.oldperm else l.file.mode
    mtime := if l.oldmtime ≠ ~~~0 then l.oldmtime else l.file.mtime }
  if l.oldlength ≠ ~~~0 then
    let (_, f) ← fileTruncate blksize file.aux l.oldlength again
    return { file with length := l.oldlength, aux := f }
  else
    return file

/-- The way out of `ramfs_wstat` without an error. -/
def settle (blksize : UInt64) (l : Frame) (length : UInt64) (again : Grant) :
    Except Fault Node := do
  if length ≠ ~~~0 then
    let (_, f) ← fileTruncate blksize l.file.aux l.file.length again
    let f ← f.zero l.file.length.toNat (f.datasize - l.file.length).toNat
    return { l.file with aux := f }
  else
    return l.file

/-- The way out of `ramfs_wstat`. -/
def leave (blksize : UInt64) (l : Frame) (length : UInt64) (again : Grant) : Except Fault Node :=
  if l.error then l.restore blksize again else l.settle blksize length again

end Frame

section Ramfs

variable (user : Option ℕ)

/-- The name in `ramfs_wstat`. -/
def ramfsRename (l : Frame) (held : List Lock) (name : List UInt8) (copies : Bool) :
    Except Fault Frame :=
  if name ≠ [] then
    let (mode, uid) := if l.file.root then (l.file.mode, l.file.uid)
      else (l.file.parent.mode, l.file.parent.uid)
    let (allowed, error) := checkPerm mode uid user 2
    if allowed then
      l.rename held name copies
    else
      .ok { l with error, out := true }
  else
    .ok l

/-- The length in `ramfs_wstat`. -/
def ramfsResize (blksize : UInt64) (l : Frame) (length : UInt64) (grant : Grant) :
    Except Fault Frame :=
  if ¬ l.out ∧ length ≠ ~~~0 then
    let (allowed, error) := checkPerm l.file.mode l.file.uid user 2
    if ¬ allowed ∨ l.file.mode &&& Dmdir ≠ 0 then
      .ok { l with error, out := true }
    else
      l.resize blksize length grant
  else
    .ok l

/-- The mode in `ramfs_wstat`. -/
def ramfsChmod (l : Frame) (mode : UInt32) : Frame :=
  if ¬ l.out ∧ mode ≠ ~~~0 then
    if some l.file.uid ≠ user then l.fail else l.chmod mode
  else l

/-- The time in `ramfs_wstat`. -/
def ramfsTouch (l : Frame) (mtime : UInt32) : Frame :=
  if ¬ l.out ∧ mtime ≠ ~~~0 then
    if some l.file.uid ≠ user then l.fail else l.touch mtime
  else l

/-- `np_create_rwstat`, which sets an error if there is no memory. -/
def ramfsReply (l : Frame) (replies : Bool) : Frame × Bool :=
  if l.out then (l, false) else if replies then (l, true) else (l.fail, false)

/-- `out` of `ramfs_wstat`. -/
def ramfsOut (blksize : UInt64) (l : Frame) (ret : Bool) (stat : Stat) (memory : Memory)
    (held : List Lock) (lockfile lockparent : Bool) : Except Fault (Answer × Node) := do
  let file ← l.leave blksize stat.length memory.again
  let held ← unlockIf lockfile .file held
  let _ ← unlockIf lockparent l.file.parentLock held
  return (⟨ret, l.error⟩, file)

/-- The permission bits of a file that is neither a file nor a directory. -/
def special : UInt32 := Ufs.Dmnamedpipe ||| Ufs.Dmsymlink ||| Ufs.Dmlink ||| Ufs.Dmdevice

/-- `ramfs_wstat`.  `lockfile` and `lockparent` are the values of these variables before they are
set. -/
def ramfsWstat (blksize : UInt64) (file : Node) (dotu : Bool) (stat : Stat) (memory : Memory)
    (lockfile lockparent : Bool) : Except Fault (Answer × Node) :=
  if file.mode &&& special ≠ 0 ∧ dotu then
    ramfsOut blksize (Frame.start file).fail false stat memory [] lockfile lockparent
  else do
    let held ← lock .file []
    let lockparent := decide (stat.name ≠ [])
    let held ← lockIf lockparent file.parentLock held
    let l ← ramfsRename user (.start file) held stat.name memory.copies
    let l ← ramfsResize user blksize l stat.length memory.grant
    let l := ramfsTouch user (ramfsChmod user l stat.mode) stat.mtime
    let (l, ret) := ramfsReply l memory.replies
    ramfsOut blksize l ret stat memory held true lockparent

end Ramfs

/-- The name in `rfs_wstat`. -/
def rfsRename (l : Frame) (held : List Lock) (name : List UInt8) (copies : Bool) :
    Except Fault Frame :=
  if name ≠ [] then l.rename held name copies else .ok l

/-- The length in `rfs_wstat`. -/
def rfsResize (blksize : UInt64) (l : Frame) (length : UInt64) (grant : Grant) :
    Except Fault Frame :=
  if ¬ l.out ∧ length ≠ ~~~0 then l.resize blksize length grant else .ok l

/-- The mode in `rfs_wstat`. -/
def rfsChmod (l : Frame) (mode : UInt32) : Frame :=
  if ¬ l.out ∧ mode ≠ ~~~0 then l.chmod mode else l

/-- The time in `rfs_wstat`. -/
def rfsTouch (l : Frame) (mtime : UInt32) : Frame :=
  if ¬ l.out ∧ mtime ≠ ~~~0 then l.touch mtime else l

/-- The ways out of `rfs_wstat`: 1 or 0. -/
def rfsOut (blksize : UInt64) (l : Frame) (memory : Memory) (held : List Lock)
    (lockparent : Bool) : Except Fault (Answer × Node) := do
  let file ← if l.out then l.restore blksize memory.again else .ok l.file
  let _ ← unlockIf lockparent l.file.parentLock held
  return (⟨¬ l.out, l.error⟩, file)

/-- `rfs_wstat`, in a thread that has the lock of the file. -/
def rfsWstat (blksize : UInt64) (file : Node) (stat : Stat) (memory : Memory) :
    Except Fault (Answer × Node) := do
  let lockparent := decide (stat.name ≠ [])
  let held ← lockIf lockparent file.parentLock [.file]
  let l ← rfsRename (.start file) held stat.name memory.copies
  let l ← rfsResize blksize l stat.length memory.grant
  let l := rfsTouch (rfsChmod l stat.mode) stat.mtime
  rfsOut blksize l memory held lockparent

/-! ## All or nothing -/

/-- The file has these contents. -/
structure Contains (file : Node) (contents : List UInt8) : Prop where
  length : file.length.toNat = contents.length
  backs : file.aux.Backs contents

/-- The file has this name, these contents, this mode and this time. -/
structure Shows (file : Node) (name : CStr) (contents : List UInt8) (mode mtime : UInt32) :
    Prop where
  name : file.name = name
  contents : Contains file contents
  mode : file.mode = mode
  mtime : file.mtime = mtime

/-- The file has all the attributes that are asked for, and the others of before. -/
def Granted (before : Node) (contents : List UInt8) (stat : Stat) (after : Node) : Prop :=
  Shows after (if stat.name = [] then before.name else Npfs.npStrdup stat.name)
    (if stat.length = ~~~0 then contents else Extent.resize 0 contents stat.length.toNat)
    (if stat.mode = ~~~0 then before.mode else stat.mode)
    (if stat.mtime = ~~~0 then before.mtime else stat.mtime)

/-- A success with all that is asked for, or an error with all as before. -/
def AllOrNothing (before : Node) (contents : List UInt8) (stat : Stat) :
    Except Fault (Answer × Node) → Prop
  | .ok (answer, after) =>
    answer.ret = true ∧ answer.error = false ∧ Granted before contents stat after ∨
    answer.ret = false ∧ answer.error = true ∧
      Shows after before.name contents before.mode before.mtime
  | .error _ => False

/-! ## When it is so -/

section Conditions

variable (blksize : UInt64)

/-- The bytes that a block for `size` bytes has. -/
def room (size : UInt64) : ℕ := if size = 0 then 0 else asked blksize size

/-- A block that has the first `n` bytes of the contents has them all when it is changed to their
length. -/
def Restores (contents : List UInt8) (length : UInt64) (n : ℕ) (again : Grant) : Prop :=
  length = 0 ∨ blksize ≠ 0 ∧ match again with
    | some fill =>
      if asked blksize length < 2 ^ 31 then
        contents.length ≤ asked blksize length ∧
          ∀ i < contents.length, n ≤ i → fill i = contents.getD i 0
      else contents.length ≤ n
    | none => asked blksize length ≠ 0 ∧ contents.length ≤ n

/-- The new size is refused and the old one comes back, or the block has the new size and `changed`
holds. -/
def Fits (file : Node) (contents : List UInt8) (size : UInt64) (memory : Memory)
    (changed : Prop) : Prop :=
  size = 0 ∧ changed ∨ size ≠ 0 ∧ blksize ≠ 0 ∧
    (Refuses blksize file.aux.data size memory.grant ∧
        Restores blksize contents file.length file.aux.datasize.toNat memory.again ∨
      ¬ Refuses blksize file.aux.data size memory.grant ∧
        (asked blksize size ≠ 0 ∨ file.aux.data = .null) ∧ changed)

/-- The user may set what is asked for of the mode and the time. -/
def Owns (file : Node) (user : Option ℕ) (stat : Stat) : Prop :=
  stat.mode = ~~~0 ∧ stat.mtime = ~~~0 ∨ some file.uid = user

instance (file : Node) (user : Option ℕ) (stat : Stat) : Decidable (Owns file user stat) :=
  inferInstanceAs (Decidable (_ ∨ _))

/-- The mode and the time that are set are not the ones that say that nothing was set. -/
def Noted (file : Node) (stat : Stat) : Prop :=
  (stat.mode = ~~~0 ∨ file.mode ≠ ~~~0) ∧ (stat.mtime = ~~~0 ∨ file.mtime ≠ ~~~0)

/-- When `ramfs_wstat` is all or nothing. -/
def RamfsFits (file : Node) (contents : List UInt8) (user : Option ℕ) (dotu : Bool) (stat : Stat)
    (memory : Memory) (lockfile lockparent : Bool) : Prop :=
  if file.mode &&& special ≠ 0 ∧ dotu then
    lockfile = false ∧ lockparent = false
  else if stat.name ≠ [] then
    file.root = false ∧ user ≠ none ∧
      ((checkPerm file.parent.mode file.parent.uid user 2).1 = false ∨
        memory.copies = true ∧ Npfs.npStrdup stat.name = cstr "..")
  else if stat.length ≠ ~~~0 then
    user ≠ none ∧ ((checkPerm file.mode file.uid user 2).1 = true →
      file.mode &&& Dmdir = 0 ∧ Fits blksize file contents stat.length memory
        (if Owns file user stat ∧ memory.replies then
          stat.length.toNat ≤ room blksize stat.length
        else
          (Owns file user stat → Noted file stat) ∧
            Restores blksize contents file.length (room blksize stat.length) memory.again))
  else
    Owns file user stat → memory.replies = true ∨ Noted file stat

/-- When `rfs_wstat` is all or nothing. -/
def RfsFits (file : Node) (contents : List UInt8) (stat : Stat) (memory : Memory) : Prop :=
  if stat.name ≠ [] then
    file.root = false ∧ memory.copies = true ∧ Npfs.npStrdup stat.name = cstr ".."
  else
    stat.length ≠ ~~~0 → Fits blksize file contents stat.length memory
      (stat.length.toNat ≤ room blksize stat.length)

end Conditions

/-! ## The size of a block -/

/-- The bytes of a block. -/
def bytesOf : Heap → List UInt8
  | .block bytes => bytes
  | _ => []

section Sizes

variable {blksize : UInt64} {f : File} {contents : List UInt8}

/-- What a change of the size comes to. -/
inductive Truncates (blksize : UInt64) (f : File) (size : UInt64) (grant : Grant) :
    Except Fault (Int × File) → Prop where
  | cleared (none : size = 0) : Truncates blksize f size grant (.ok (0, ⟨.null, 0⟩))
  | divided (some : size ≠ 0) (zero : blksize = 0) :
      Truncates blksize f size grant (.error .wild)
  | refused (some : size ≠ 0) (given : blksize ≠ 0) (refuses : Refuses blksize f.data size grant) :
      Truncates blksize f size grant (.ok (-1, f))
  | freed (some : size ≠ 0) (given : blksize ≠ 0) (grants : ¬ Refuses blksize f.data size grant)
      (nothing : asked blksize size = 0) (pointed : f.data ≠ .null) :
      Truncates blksize f size grant (.ok (-1, { f with data := .freed }))
  | granted (some : size ≠ 0) (given : blksize ≠ 0) (grants : ¬ Refuses blksize f.data size grant)
      (something : asked blksize size ≠ 0 ∨ f.data = .null) (fill : Nat → UInt8)
      (granted : grant = .some fill) :
      Truncates blksize f size grant
        (.ok (0, ⟨.block (regrow (bytesOf f.data) (asked blksize size) fill),
          .ofNat (asked blksize size)⟩))

theorem fileTruncate_truncates (backs : f.Backs contents) (size : UInt64) (grant : Grant) :
    Truncates blksize f size grant (fileTruncate blksize f size grant) := by
  have data := backs.data
  rw [fileTruncate]
  rcases eq_or_ne size 0 with rfl | some
  · rw [if_pos rfl]
    split at data
    · rename_i pointed
      rw [pointed]
      exact .cleared rfl
    · rename_i pointed
      rw [pointed]
      exact .cleared rfl
    · exact data.elim
  rw [if_neg some]
  rcases eq_or_ne blksize 0 with zero | given
  · rw [if_pos zero]
    exact .divided some zero
  rw [if_neg given]
  obtain ⟨n, number⟩ : ∃ n, ((size / blksize + if size % blksize ≠ 0 then 1 else 0) *
    blksize).toUInt32 = n := ⟨_, rfl⟩
  have asks : n.toNat = asked blksize size := number ▸ toNat_asked
  rw [number]
  by_cases refuses : Refuses blksize f.data size grant
  · dsimp only
    rw [realloc_refuses backs (asks ▸ refuses)]
    exact .refused some given refuses
  obtain ⟨small, answered⟩ : asked blksize size < 2 ^ 31 ∧
      (grant = none → ¬ asked blksize size ≠ 0 ∧ ¬ f.data = .null) := by
    simpa only [Refuses, not_or, not_and, not_le] using refuses
  have computed : sizeT (cint n) = asked blksize size :=
    (sizeT_cint_of_lt (asks ▸ small)).trans asks
  have possible : asked blksize size ≤ ptrdiffMax := by
    rw [ptrdiffMax]
    omega
  simp only [computed]
  split at data
  · rename_i pointed
    obtain ⟨fill, rfl⟩ := Option.ne_none_iff_exists'.mp fun none => (answered none).2 pointed
    have taken := Truncates.granted some given refuses (.inr pointed) fill rfl
    rw [pointed] at taken ⊢
    rw [realloc, if_pos possible]
    exact taken
  · rename_i bytes pointed
    by_cases nothing : asked blksize size = 0
    · have there : f.data ≠ .null := by
        rw [pointed]
        intro impossible
        cases impossible
      have lost := Truncates.freed some given refuses nothing there
      rw [pointed, nothing]
      exact lost
    · obtain ⟨fill, rfl⟩ := Option.ne_none_iff_exists'.mp fun none => (answered none).1 nothing
      have taken := Truncates.granted some given refuses (.inl nothing) fill rfl
      rw [pointed] at taken ⊢
      rw [realloc, if_neg nothing]
      simp only [if_pos possible]
      exact taken
  · exact data.elim

end Sizes

section Restored

variable {blksize : UInt64} {f : File} {contents : List UInt8}

/-- A block that is changed to `m` bytes holds the contents if it had them, or got them. -/
theorem prefix_regrow_iff {bytes : List UInt8} (placed : contents.take bytes.length <+: bytes)
    (m : ℕ) (fill : Nat → UInt8) :
    contents <+: regrow bytes m fill ↔
      contents.length ≤ m ∧
        ∀ i < contents.length, bytes.length ≤ i → fill i = contents.getD i 0 := by
  have byte : ∀ i < contents.length, i < bytes.length → bytes[i]? = contents[i]? := by
    intro i inside kept
    have same := List.prefix_iff_getElem?.mp placed i (by rw [List.length_take]; omega)
    rw [same, List.getElem_take]
    exact (List.getElem?_eq_getElem inside).symm
  have at_ : ∀ i < m, (regrow bytes m fill)[i]? = some (bytes.getD i (fill i)) := by
    intro i inside
    rw [regrow, List.getElem?_map, List.getElem?_range inside, Option.map_some]
  constructor
  · intro held
    have short := held.length_le
    rw [length_regrow] at short
    refine ⟨short, fun i inside beyond => ?_⟩
    have same := List.prefix_iff_getElem?.mp held i inside
    rw [at_ i (by omega), List.getD_eq_getElem?_getD, List.getElem?_eq_none beyond] at same
    rw [List.getD_eq_getElem?_getD, List.getElem?_eq_getElem inside]
    exact Option.some.inj same
  · rintro ⟨short, filled⟩
    rw [List.prefix_iff_getElem?]
    intro i inside
    rw [at_ i (by omega), List.getD_eq_getElem?_getD]
    rcases lt_or_ge i bytes.length with kept | beyond
    · rw [byte i inside kept, List.getElem?_eq_getElem inside]
      rfl
    · have right := filled i inside beyond
      rw [List.getD_eq_getElem?_getD, List.getElem?_eq_getElem inside] at right
      rw [List.getElem?_eq_none beyond]
      exact congrArg some right

/-- What is needed for the contents to be there after the way out. -/
theorem restores_iff {n : ℕ} (backs : f.Backs (contents.take n)) (size : f.datasize.toNat = n)
    {length : UInt64} (old : length.toNat = contents.length) (again : Grant) :
    (∃ answer f', fileTruncate blksize f length again = .ok (answer, f') ∧ f'.Backs contents) ↔
      Restores blksize contents length n again := by
  have kept : f.Backs contents ↔ contents.length ≤ n :=
    ⟨fun held => size ▸ held.length_le, fun short => List.take_of_length_le short ▸ backs⟩
  have none : length = 0 ↔ contents = [] := by
    rw [← List.length_eq_zero_iff, ← old, ← UInt64.toNat_inj]
    rfl
  have truncated : Truncates blksize f length again (fileTruncate blksize f length again) :=
    fileTruncate_truncates backs length again
  generalize fileTruncate blksize f length again = result at truncated ⊢
  cases truncated with
  | cleared zero =>
    refine ⟨fun _ => .inl zero, fun _ => ⟨0, _, rfl, ?_⟩⟩
    rw [none.mp zero]
    exact ⟨⟨rfl, rfl⟩, by decide⟩
  | divided some zero =>
    constructor
    · rintro ⟨answer, f', impossible, -⟩
      cases impossible
    · exact fun holds => absurd zero (holds.resolve_left some).1
  | refused some given refuses =>
    have same : (∃ answer f', (.ok (-1, f) : Except Fault (Int × File)) = .ok (answer, f') ∧
        f'.Backs contents) ↔ contents.length ≤ n := by
      rw [← kept]
      constructor
      · rintro ⟨_, _, returned, held⟩
        cases returned
        exact held
      · exact fun held => ⟨_, _, rfl, held⟩
    rw [same]
    constructor
    · intro short
      refine .inr ⟨given, ?_⟩
      rcases refuses with large | ⟨rfl, something⟩
      · cases again with
        | none => exact ⟨by omega, short⟩
        | some fill => exact (if_neg large.not_gt).mpr short
      · refine ⟨something.resolve_right fun pointed => some (none.mpr ?_), short⟩
        have data := (kept.mpr short).data
        rw [pointed] at data
        exact data.1
    · intro holds
      have holds := (holds.resolve_left some).2
      rcases refuses with large | ⟨rfl, something⟩
      · cases again with
        | none => exact holds.2
        | some fill => exact (if_neg large.not_gt).mp holds
      · exact holds.2
  | freed some given grants nothing pointed =>
    constructor
    · rintro ⟨answer, f', returned, held⟩
      cases returned
      exact held.data.elim
    · intro holds
      have holds := (holds.resolve_left some).2
      have bytes := mt none.mpr some
      cases again with
      | none => exact absurd nothing holds.1
      | some fill =>
        simp only [nothing] at holds
        have short := ((if_pos (Nat.two_pow_pos 31)).mp holds).1
        exact absurd (List.eq_nil_of_length_eq_zero (Nat.le_zero.mp short)) bytes
  | granted some given grants something fill granted =>
    subst granted
    have small : asked blksize length < 2 ^ 31 := not_le.mp (not_or.mp grants).1
    have length_bytes : (bytesOf f.data).length = n := by
      have data := backs.data
      split at data
      · rename_i pointed
        rw [pointed, ← size, data.2]
        rfl
      · rename_i pointed
        rw [pointed]
        exact data.2.trans size
      · exact data.elim
    have placed : contents.take (bytesOf f.data).length <+: bytesOf f.data := by
      rw [length_bytes]
      have data := backs.data
      split at data
      · rename_i pointed
        rw [data.1]
        exact List.nil_prefix
      · rename_i pointed
        rw [pointed]
        exact data.1
      · exact data.elim
    have same : (UInt64.ofNat (asked blksize length)).toNat = asked blksize length :=
      UInt64.toNat_ofNat_of_lt' (by simp only [UInt64.size]; omega)
    have regrown := prefix_regrow_iff placed (asked blksize length) fill
    rw [length_bytes] at regrown
    constructor
    · rintro ⟨answer, f', returned, held⟩
      cases returned
      refine .inr ⟨given, (if_pos small).mpr (regrown.mp held.data.1)⟩
    · intro holds
      have holds := (if_pos small).mp (holds.resolve_left some).2
      refine ⟨0, _, rfl, ⟨regrown.mpr holds, ?_⟩, ?_⟩
      · rw [length_regrow, same]
      · rw [same]
        exact small

end Restored

/-! ## The steps -/

section Steps

variable {blksize : UInt64} {f : File} {l : Frame} {contents : List UInt8}

/-- The bytes before the new length are set. -/
theorem grown {n : ℕ} (kept : f.Backs (contents.take n)) (whole : f.datasize.toNat = n)
    {length new : UInt64} (old : length.toNat = contents.length) (short : new.toNat ≤ n) :
    ∃ f', clear f length new = .ok f' ∧ f'.datasize = f.datasize ∧
      f'.Backs (contents.take n) ∧ f'.Backs (Extent.resize 0 contents new.toNat) := by
  by_cases longer : length < new
  · have longer' := UInt64.lt_iff_toNat_lt.mp longer
    have all : contents.take n = contents := List.take_of_length_le (by omega)
    rw [all] at kept ⊢
    obtain ⟨f', filled, backs, datasize⟩ := kept.fill old (by omega : new.toNat ≤ f.datasize.toNat)
    refine ⟨f', filled, datasize, ?_, backs⟩
    have front := backs.take contents.length
    rwa [Extent.resize_of_ge (by omega), List.take_left'] at front
    rfl
  · have shorter := mt UInt64.lt_iff_toNat_lt.mpr longer
    refine ⟨f, if_neg longer, rfl, kept, ?_⟩
    have cut : Extent.resize 0 contents new.toNat = contents.take new.toNat :=
      Extent.resize_of_le (by omega)
    have front := kept.take new.toNat
    rwa [List.take_take, min_eq_left short, ← cut] at front

/-- The old length is noted, and the file has a new one. -/
def sized (l : Frame) (length : UInt64) (f : File) : Frame :=
  { l with oldlength := l.file.length, file := { l.file with length, aux := f } }

/-- What the new length comes to, for a file with these contents. -/
inductive Resized (blksize : UInt64) (l : Frame) (contents : List UInt8) (size : UInt64)
    (grant : Grant) : Except Fault Frame → Prop where
  | divided (some : size ≠ 0) (zero : blksize = 0) :
      Resized blksize l contents size grant (.error .wild)
  | refused (some : size ≠ 0) (given : blksize ≠ 0)
      (refuses : Refuses blksize l.file.aux.data size grant) :
      Resized blksize l contents size grant (.ok (sized l l.file.length l.file.aux).fail)
  | freed (some : size ≠ 0) (given : blksize ≠ 0)
      (grants : ¬ Refuses blksize l.file.aux.data size grant)
      (nothing : asked blksize size = 0) (pointed : l.file.aux.data ≠ .null) :
      Resized blksize l contents size grant
        (.ok (sized l l.file.length { l.file.aux with data := .freed }).fail)
  | changed
      (fits : size = 0 ∨ size ≠ 0 ∧ blksize ≠ 0 ∧ ¬ Refuses blksize l.file.aux.data size grant ∧
        (asked blksize size ≠ 0 ∨ l.file.aux.data = .null))
      (length : UInt64) (f : File) (short : length.toNat = min size.toNat (room blksize size))
      (whole : f.datasize.toNat = room blksize size)
      (kept : f.Backs (contents.take (room blksize size)))
      (backs : f.Backs (Extent.resize 0 contents length.toNat)) :
      Resized blksize l contents size grant (.ok (sized l length f))

theorem stretched (holds : Contains l.file contents) (size : UInt64) {n : ℕ}
    (whole : f.datasize.toNat = n) (kept : f.Backs (contents.take n)) :
    ∃ length f', { l with oldlength := l.file.length }.stretch f size = .ok (sized l length f') ∧
      length.toNat = min size.toNat n ∧ f'.datasize.toNat = n ∧ f'.Backs (contents.take n) ∧
      f'.Backs (Extent.resize 0 contents length.toNat) := by
  have short : (if size > f.datasize then f.datasize else size).toNat = min size.toNat n := by
    rw [apply_ite UInt64.toNat, whole, min_def]
    simp only [gt_iff_lt, UInt64.lt_iff_toNat_lt, whole]
    split_ifs <;> omega
  obtain ⟨f', filled, datasize, front, backs⟩ :=
    grown kept whole holds.length (short.le.trans (min_le_right _ _))
  refine ⟨_, f', ?_, short, datasize ▸ whole, front, backs⟩
  rw [Frame.stretch, filled]
  rfl

theorem resize_resized (holds : Contains l.file contents) (size : UInt64) (grant : Grant) :
    Resized blksize l contents size grant (l.resize blksize size grant) := by
  have truncated : Truncates blksize l.file.aux size grant
      (fileTruncate blksize l.file.aux size grant) :=
    fileTruncate_truncates holds.backs size grant
  rw [Frame.resize]
  generalize fileTruncate blksize l.file.aux size grant = result at truncated ⊢
  cases truncated with
  | cleared none =>
    have none' : room blksize size = 0 := if_pos none
    obtain ⟨length, f', returned, short, whole, kept, backs⟩ :=
      @stretched ⟨.null, 0⟩ l contents holds size
        (room blksize size) none'.symm (none'.symm ▸ ⟨⟨rfl, rfl⟩, by decide⟩)
    have changed := @Resized.changed blksize l contents size grant (.inl none) length f' short whole
      kept backs
    rw [← returned] at changed
    exact changed
  | divided some zero => exact .divided some zero
  | refused some given refuses => exact .refused some given refuses
  | freed some given grants nothing pointed => exact .freed some given grants nothing pointed
  | granted some given grants something fill granted =>
    have small : asked blksize size < 2 ^ 31 := not_le.mp (not_or.mp grants).1
    have same : (UInt64.ofNat (asked blksize size)).toNat = asked blksize size :=
      UInt64.toNat_ofNat_of_lt' (by simp only [UInt64.size]; omega)
    have room_eq : room blksize size = asked blksize size := if_neg some
    have placed : contents <+: bytesOf l.file.aux.data := by
      have data := holds.backs.data
      split at data
      · rw [data.1]
        exact List.nil_prefix
      · rename_i pointed
        rw [pointed]
        exact data.1
      · exact data.elim
    have kept : File.Backs ⟨.block (regrow (bytesOf l.file.aux.data) (asked blksize size) fill),
        .ofNat (asked blksize size)⟩ (contents.take (room blksize size)) := by
      refine ⟨⟨?_, ?_⟩, ?_⟩
      · refine prefix_regrow ((List.take_prefix _ _).trans placed) ?_ fill
        rw [room_eq]
        exact List.length_take_le _ _
      · rw [length_regrow, same]
      · rw [same]
        exact small
    obtain ⟨length, f', returned, short, whole, front, backs⟩ :=
      @stretched _ l contents holds size
        (room blksize size) (same.trans room_eq.symm) kept
    have changed := Resized.changed (.inr ⟨some, given, grants, something⟩) length f' short whole
      front backs
    rw [← returned] at changed
    exact changed

end Steps

/-! ## The ways out -/

section Out

variable {blksize : UInt64} {before : Node} {l : Frame} {contents : List UInt8} {stat : Stat}
  {memory : Memory} {user : Option ℕ}

theorem Contains.length_ne (holds : Contains before contents) : before.length ≠ ~~~0 := by
  intro all
  have short := holds.backs.length_le.trans_lt holds.backs.small
  rw [← holds.length, all] at short
  exact absurd short (by decide)

/-- An answer with the file that `node` leaves. -/
theorem allOrNothing_answer (answer : Answer) (node : Except Fault Node) :
    AllOrNothing before contents stat (do let after ← node; return (answer, after)) ↔
      ∃ after, node = .ok after ∧
        (answer.ret = true ∧ answer.error = false ∧ Granted before contents stat after ∨
          answer.ret = false ∧ answer.error = true ∧
            Shows after before.name contents before.mode before.mtime) := by
  cases node with
  | error fault =>
    constructor
    · exact False.elim
    · rintro ⟨after, impossible, -⟩
      cases impossible
  | ok after =>
    constructor
    · exact fun holds => ⟨after, rfl, holds⟩
    · rintro ⟨_, returned, holds⟩
      cases returned
      exact holds

/-- The way out of `ramfs_wstat`, where the locks are there that it releases. -/
theorem allOrNothing_ramfsOut (ret : Bool) {held : List Lock} {lockfile lockparent : Bool}
    (releases : ∃ rest, (do
      let held ← unlockIf lockfile .file held
      unlockIf lockparent l.file.parentLock held) = .ok rest) :
    AllOrNothing before contents stat
        (ramfsOut blksize l ret stat memory held lockfile lockparent) ↔
      ∃ after, l.leave blksize stat.length memory.again = .ok after ∧
        (ret = true ∧ l.error = false ∧ Granted before contents stat after ∨
          ret = false ∧ l.error = true ∧
            Shows after before.name contents before.mode before.mtime) := by
  rw [← allOrNothing_answer ⟨ret, l.error⟩, ramfsOut]
  obtain ⟨rest, released⟩ := releases
  generalize l.leave blksize stat.length memory.again = node
  cases node with
  | error fault => rfl
  | ok after =>
    simp only [bind, Except.bind] at released ⊢
    cases first : unlockIf lockfile .file held with
    | error fault =>
      rw [first] at released
      cases released
    | ok held' =>
      rw [first] at released
      simp only at released ⊢
      rw [released]

/-- The mode and the time are what they were. -/
def Back (before : Node) (l : Frame) : Prop :=
  (if l.oldperm ≠ ~~~0 then l.oldperm else l.file.mode) = before.mode ∧
    (if l.oldmtime ≠ ~~~0 then l.oldmtime else l.file.mtime) = before.mtime

/-- The way out after an error, when the length was not changed. -/
theorem restore_same_iff (name : l.oldname.getD l.file.name = before.name)
    (old : l.oldlength = ~~~0) (length : l.file.length = before.length)
    (aux : l.file.aux = before.aux) (holds : Contains before contents) (again : Grant) :
    (∃ after, l.restore blksize again = .ok after ∧
      Shows after before.name contents before.mode before.mtime) ↔ Back before l := by
  have returned : l.restore blksize again = .ok { l.file with
      name := l.oldname.getD l.file.name
      mode := if l.oldperm ≠ ~~~0 then l.oldperm else l.file.mode
      mtime := if l.oldmtime ≠ ~~~0 then l.oldmtime else l.file.mtime } := by
    rw [Frame.restore, if_neg (not_not.mpr old)]
    rfl
  rw [returned]
  constructor
  · rintro ⟨after, same, shows⟩
    cases same
    exact ⟨shows.mode, shows.mtime⟩
  · rintro ⟨mode, mtime⟩
    refine ⟨_, rfl, name, ⟨?_, ?_⟩, mode, mtime⟩
    · exact length ▸ holds.length
    · exact aux ▸ holds.backs

/-- The way out after an error, when the block has the first `n` bytes of the contents. -/
theorem restore_iff {n : ℕ} (name : l.oldname.getD l.file.name = before.name)
    (old : l.oldlength = before.length) (holds : Contains before contents)
    (kept : l.file.aux.Backs (contents.take n)) (whole : l.file.aux.datasize.toNat = n)
    (again : Grant) :
    (∃ after, l.restore blksize again = .ok after ∧
      Shows after before.name contents before.mode before.mtime) ↔
      Back before l ∧ Restores blksize contents before.length n again := by
  have restores := @restores_iff blksize l.file.aux contents n kept whole before.length holds.length
    again
  rw [← restores, Frame.restore, if_pos (old ▸ holds.length_ne), old]
  generalize fileTruncate blksize l.file.aux before.length again = result
  cases result with
  | error fault =>
    constructor
    · rintro ⟨after, impossible, -⟩
      cases impossible
    · rintro ⟨-, answer, f', impossible, -⟩
      cases impossible
  | ok result =>
    obtain ⟨answer, f'⟩ := result
    constructor
    · rintro ⟨after, same, shows⟩
      cases same
      exact ⟨⟨shows.mode, shows.mtime⟩, answer, f', rfl, shows.contents.backs⟩
    · rintro ⟨back, _, _, returned, backs⟩
      cases returned
      exact ⟨_, rfl, name, ⟨holds.length, backs⟩, back.1, back.2⟩

/-- A block that is freed does not come back. -/
theorem restore_freed (pointed : l.file.aux.data = .freed) (old : l.oldlength ≠ ~~~0)
    (again : Grant) : ∃ fault, l.restore blksize again = .error fault := by
  have freed : ∃ fault, fileTruncate blksize l.file.aux l.oldlength again = .error fault := by
    rw [fileTruncate, pointed]
    by_cases none : l.oldlength = 0
    · rw [if_pos none]
      exact ⟨_, rfl⟩
    by_cases zero : blksize = 0
    · rw [if_neg none, if_pos zero]
      exact ⟨_, rfl⟩
    · rw [if_neg none, if_neg zero]
      exact ⟨_, rfl⟩
  obtain ⟨fault, truncated⟩ := freed
  rw [Frame.restore, if_pos old]
  simp only [truncated]
  exact ⟨fault, rfl⟩

/-- A length is as asked for if the block has room for it. -/
theorem granted_iff {after : Node} (sized : stat.length ≠ ~~~0)
    (name : after.name = if stat.name = [] then before.name else Npfs.npStrdup stat.name)
    (mode : after.mode = if stat.mode = ~~~0 then before.mode else stat.mode)
    (mtime : after.mtime = if stat.mtime = ~~~0 then before.mtime else stat.mtime) {n : ℕ}
    (short : after.length.toNat = min stat.length.toNat n)
    (backs : after.aux.Backs (Extent.resize 0 contents after.length.toNat)) :
    Granted before contents stat after ↔ stat.length.toNat ≤ n := by
  constructor
  · intro granted
    have length := granted.contents.length
    rw [if_neg sized, Extent.length_resize] at length
    omega
  · intro fits
    have whole : after.length.toNat = stat.length.toNat := by omega
    refine ⟨name, ?_, mode, mtime⟩
    rw [if_neg sized, ← whole]
    exact ⟨Extent.length_resize.symm, backs⟩

/-- The way out without an error: the length is as asked for if the block has room for it. -/
theorem settle_iff (sized : stat.length ≠ ~~~0)
    (name : l.file.name = if stat.name = [] then before.name else Npfs.npStrdup stat.name)
    (mode : l.file.mode = if stat.mode = ~~~0 then before.mode else stat.mode)
    (mtime : l.file.mtime = if stat.mtime = ~~~0 then before.mtime else stat.mtime)
    (short : l.file.length.toNat = min stat.length.toNat (room blksize stat.length))
    (whole : l.file.aux.datasize.toNat = room blksize stat.length)
    (backs : l.file.aux.Backs (Extent.resize 0 contents l.file.length.toNat))
    (given : stat.length = 0 ∨ blksize ≠ 0) (again : Grant) :
    (∃ after, l.settle blksize stat.length again = .ok after ∧
      Granted before contents stat after) ↔ stat.length.toNat ≤ room blksize stat.length := by
  rw [Frame.settle, if_pos sized]
  constructor
  · rintro ⟨after, returned, granted⟩
    have length : after.length = l.file.length := by
      generalize fileTruncate blksize l.file.aux l.file.length again = truncated at returned
      cases truncated with
      | error fault => cases returned
      | ok truncated =>
        obtain ⟨answer, f⟩ := truncated
        simp only [bind, Except.bind] at returned
        generalize f.zero l.file.length.toNat (f.datasize - l.file.length).toNat = zeroed
          at returned
        cases zeroed with
        | error fault => cases returned
        | ok f' =>
          cases returned
          rfl
    have asked := granted.contents.length
    rw [if_neg sized, Extent.length_resize, length] at asked
    omega
  · intro fits
    have same : l.file.length = stat.length := UInt64.toNat_inj.mp (by omega)
    have limit := backs.small
    -- The size is computed from the same length again.
    have restores : Restores blksize (Extent.resize 0 contents l.file.length.toNat) l.file.length
        (room blksize stat.length) again := by
      rw [same]
      rcases eq_or_ne stat.length 0 with none | some
      · exact .inl none
      have room_eq : room blksize stat.length = asked blksize stat.length := if_neg some
      have positive : stat.length.toNat ≠ 0 := fun zero => some (UInt64.toNat_inj.mp zero)
      refine .inr ⟨given.resolve_left some, ?_⟩
      cases again with
      | none =>
        rw [Extent.length_resize]
        exact ⟨by omega, fits⟩
      | some fill =>
        simp only [Extent.length_resize]
        rw [if_pos (by omega)]
        exact ⟨by omega, fun i inside beyond => by omega⟩
    have front : l.file.aux.Backs
        ((Extent.resize 0 contents l.file.length.toNat).take (room blksize stat.length)) :=
      backs.take _
    obtain ⟨answer, f, truncated, held⟩ :=
      (restores_iff front whole Extent.length_resize.symm again).mpr restores
    have within : l.file.length.toNat ≤ f.datasize.toNat := by
      have length := held.length_le
      rwa [Extent.length_resize] at length
    have rest : (f.datasize - l.file.length).toNat = f.datasize.toNat - l.file.length.toNat :=
      UInt64.toNat_sub_of_le _ _ (UInt64.le_iff_toNat_le.mpr within)
    obtain ⟨f', zeroed, stored, -⟩ := @File.Backs.store _ _ held l.file.length.toNat
      Extent.length_resize.symm (List.replicate (f.datasize - l.file.length).toNat 0)
      (by rw [List.length_replicate]; omega)
    rw [List.length_replicate] at zeroed
    have kept := stored.take l.file.length.toNat
    rw [List.take_left' Extent.length_resize] at kept
    refine ⟨{ l.file with aux := f' }, ?_, (@granted_iff before contents stat
      { l.file with aux := f' } sized name mode mtime _ short kept).mpr fits⟩
    simp only [truncated, bind, Except.bind, File.zero, zeroed]
    rfl

/-- The mode and the time that are asked for are set. -/
def set (l : Frame) (stat : Stat) : Frame :=
  { l with
    file := { l.file with
      mode := if stat.mode = ~~~0 then l.file.mode else stat.mode
      mtime := if stat.mtime = ~~~0 then l.file.mtime else stat.mtime }
    oldperm := if stat.mode = ~~~0 then l.oldperm else l.file.mode
    oldmtime := if stat.mtime = ~~~0 then l.oldmtime else l.file.mtime }

theorem ramfsTouch_ramfsChmod (on : l.out = false) :
    ramfsTouch user (ramfsChmod user l stat.mode) stat.mtime =
      if Owns l.file user stat then set l stat else l.fail := by
  have owns : Owns l.file user stat ↔
      stat.mode = -1 ∧ stat.mtime = -1 ∨ some l.file.uid = user := Iff.rfl
  by_cases owner : some l.file.uid = user
  · rw [if_pos (.inr owner)]
    by_cases mode : stat.mode = -1
    · by_cases mtime : stat.mtime = -1
      · simp [ramfsTouch, ramfsChmod, set, mode, mtime]
      · simp [ramfsTouch, ramfsChmod, set, mode, mtime, on, owner, Frame.touch]
    · by_cases mtime : stat.mtime = -1
      · simp [ramfsTouch, ramfsChmod, set, mode, mtime, on, owner, Frame.chmod]
      · simp [ramfsTouch, ramfsChmod, set, mode, mtime, on, owner, Frame.chmod, Frame.touch]
  · by_cases mode : stat.mode = -1
    · by_cases mtime : stat.mtime = -1
      · rw [if_pos (.inl ⟨mode, mtime⟩)]
        simp [ramfsTouch, ramfsChmod, set, mode, mtime]
      · rw [if_neg (by rw [owns]; simp [mtime, owner])]
        simp [ramfsTouch, ramfsChmod, mode, mtime, on, owner]
    · rw [if_neg (by rw [owns]; simp [mode, owner])]
      simp [ramfsTouch, ramfsChmod, mode, on, owner, Frame.fail]

/-- What is noted of the mode and the time is what was there. -/
theorem back_set (perm : l.oldperm = ~~~0) (time : l.oldmtime = ~~~0)
    (mode : l.file.mode = before.mode) (mtime : l.file.mtime = before.mtime) :
    Back before (set l stat).fail ↔ Noted before stat := by
  simp only [Back, Noted, Frame.fail, set, perm, time, mode, mtime]
  have field (given old : UInt32) :
      (if (if given = ~~~0 then ~~~0 else old) ≠ ~~~0 then if given = ~~~0 then ~~~0 else old
        else if given = ~~~0 then old else given) = old ↔ given = ~~~0 ∨ old ≠ ~~~0 := by
    by_cases asked : given = -1
    · simp [asked]
    · by_cases marked : old = -1
      · simp [asked, marked]
      · simp [asked, marked]
  exact and_congr (field _ _) (field _ _)

theorem back_fail (perm : l.oldperm = ~~~0) (time : l.oldmtime = ~~~0)
    (mode : l.file.mode = before.mode) (mtime : l.file.mtime = before.mtime) :
    Back before l.fail := by
  simp only [Back, Frame.fail, perm, time, mode, mtime, ne_eq, not_true_eq_false, if_false,
    and_self]

end Out

/-! ## Every request -/

section Requests

variable {blksize : UInt64} {file : Node} {l : Frame} {contents : List UInt8} {stat : Stat}
  {memory : Memory} {user : Option ℕ} {dotu lockfile lockparent : Bool}

/-- `ramfs_wstat` after the length. -/
def ramfsEnd (blksize : UInt64) (user : Option ℕ) (stat : Stat) (memory : Memory)
    (held : List Lock) (lockparent : Bool) (l : Frame) : Except Fault (Answer × Node) :=
  let reply := ramfsReply (ramfsTouch user (ramfsChmod user l stat.mode) stat.mtime) memory.replies
  ramfsOut blksize reply.1 reply.2 stat memory held true lockparent

theorem ramfsWstat_unnamed (plain : ¬ (file.mode &&& special ≠ 0 ∧ dotu = true))
    (unnamed : stat.name = []) :
    ramfsWstat user blksize file dotu stat memory lockfile lockparent = (do
      let l ← ramfsResize user blksize (.start file) stat.length memory.grant
      ramfsEnd blksize user stat memory [.file] false l) := by
  rw [ramfsWstat, if_neg plain, unnamed]
  rfl

theorem ramfsWstat_named (plain : ¬ (file.mode &&& special ≠ 0 ∧ dotu = true))
    (named : stat.name ≠ []) :
    ramfsWstat user blksize file dotu stat memory lockfile lockparent = (do
      let held ← lock file.parentLock [.file]
      let l ← ramfsRename user (.start file) held stat.name memory.copies
      let l ← ramfsResize user blksize l stat.length memory.grant
      ramfsEnd blksize user stat memory held true l) := by
  rw [ramfsWstat, if_neg plain, decide_eq_true named]
  rfl

/-- The end after an error. -/
theorem ramfsEnd_failed {held : List Lock} {parent : Bool} (off : l.out = true)
    (failed : l.error = true)
    (releases : ∃ rest, (do
      let held ← unlockIf true .file held
      unlockIf parent l.file.parentLock held) = .ok rest) :
    AllOrNothing file contents stat (ramfsEnd blksize user stat memory held parent l) ↔
      ∃ after, l.restore blksize memory.again = .ok after ∧
        Shows after file.name contents file.mode file.mtime := by
  have same : ramfsTouch user (ramfsChmod user l stat.mode) stat.mtime = l := by
    simp [ramfsTouch, ramfsChmod, off]
  have reply : ramfsReply l memory.replies = (l, false) := if_pos off
  rw [ramfsEnd, same, reply, allOrNothing_ramfsOut false releases, Frame.leave, if_pos failed]
  simp [failed]

/-- An end without a reply or an error. -/
theorem ramfsEnd_silent {held : List Lock} {parent : Bool} (off : l.out = true)
    (silent : l.error = false)
    (releases : ∃ rest, (do
      let held ← unlockIf true .file held
      unlockIf parent l.file.parentLock held) = .ok rest) :
    ¬ AllOrNothing file contents stat (ramfsEnd blksize user stat memory held parent l) := by
  have same : ramfsTouch user (ramfsChmod user l stat.mode) stat.mtime = l := by
    simp [ramfsTouch, ramfsChmod, off]
  have reply : ramfsReply l memory.replies = (l, false) := if_pos off
  rw [ramfsEnd, same, reply, allOrNothing_ramfsOut false releases]
  simp [silent]

/-- The lock of the file is released. -/
theorem releases_file : ∃ rest, (do
    let held ← unlockIf true .file [.file]
    unlockIf false l.file.parentLock held) = .ok rest :=
  ⟨[], rfl⟩

/-- The locks of the file and of the parent are released. -/
theorem releases_both (apart : l.file.root = false) : ∃ rest, (do
    let held ← unlockIf true .file [.parent, .file]
    unlockIf true l.file.parentLock held) = .ok rest := by
  rw [Node.parentLock, apart]
  exact ⟨[], rfl⟩

/-- The end of a request whose mode and time the user may not set. -/
theorem ramfsEnd_foreign (on : l.out = false) (foreign : ¬ Owns l.file user stat) :
    AllOrNothing file contents stat (ramfsEnd blksize user stat memory [.file] false l) ↔
      ∃ after, l.fail.restore blksize memory.again = .ok after ∧
        Shows after file.name contents file.mode file.mtime := by
  have reply : ramfsReply l.fail memory.replies = (l.fail, false) := if_pos rfl
  rw [ramfsEnd, ramfsTouch_ramfsChmod on, if_neg foreign, reply,
    allOrNothing_ramfsOut false releases_file]
  simp [Frame.leave, Frame.fail]

/-- The end of a request for which there is no reply. -/
theorem ramfsEnd_unanswered (on : l.out = false) (owns : Owns l.file user stat)
    (dry : memory.replies = false) :
    AllOrNothing file contents stat (ramfsEnd blksize user stat memory [.file] false l) ↔
      ∃ after, (set l stat).fail.restore blksize memory.again = .ok after ∧
        Shows after file.name contents file.mode file.mtime := by
  have reply : ramfsReply (set l stat) memory.replies = ((set l stat).fail, false) := by
    simp [ramfsReply, set, on, dry]
  rw [ramfsEnd, ramfsTouch_ramfsChmod on, if_pos owns, reply,
    allOrNothing_ramfsOut false releases_file]
  simp [Frame.leave, Frame.fail]

/-- The end of a request that is granted. -/
theorem ramfsEnd_answered (on : l.out = false) (fine : l.error = false)
    (owns : Owns l.file user stat) (replies : memory.replies = true) :
    AllOrNothing file contents stat (ramfsEnd blksize user stat memory [.file] false l) ↔
      ∃ after, (set l stat).settle blksize stat.length memory.again = .ok after ∧
        Granted file contents stat after := by
  have reply : ramfsReply (set l stat) memory.replies = (set l stat, true) := by
    simp [ramfsReply, set, on, replies]
  have fine' : (set l stat).error = false := fine
  rw [ramfsEnd, ramfsTouch_ramfsChmod on, if_pos owns, reply,
    allOrNothing_ramfsOut true releases_file, Frame.leave, fine', if_neg Bool.false_ne_true]
  simp

/-- A request without a length. -/
theorem ramfsEnd_unsized (holds : Contains file contents) (unnamed : stat.name = [])
    (unsized : stat.length = ~~~0) :
    AllOrNothing file contents stat
        (ramfsEnd blksize user stat memory [.file] false (.start file)) ↔
      (Owns file user stat → memory.replies = true ∨ Noted file stat) := by
  by_cases owns : Owns file user stat
  · cases replies : memory.replies with
    | true =>
      have settled : (set (.start file) stat).settle blksize stat.length memory.again =
          .ok (set (.start file) stat).file := by
        rw [Frame.settle, unsized]
        rfl
      rw [ramfsEnd_answered rfl rfl owns replies, settled]
      refine iff_of_true ⟨_, rfl, ?_⟩ fun _ => .inl rfl
      refine ⟨(if_pos unnamed).symm, ?_, rfl, rfl⟩
      rw [if_pos unsized]
      exact ⟨holds.length, holds.backs⟩
    | false =>
      have restored := @restore_same_iff blksize file (set (.start file) stat).fail contents rfl
        rfl rfl rfl holds memory.again
      have back := @back_set file (.start file) stat rfl rfl rfl rfl
      rw [ramfsEnd_unanswered rfl owns replies, restored, back]
      exact ⟨fun noted _ => .inr noted, fun fits => (fits owns).resolve_left Bool.false_ne_true⟩
  · have restored := @restore_same_iff blksize file (Frame.start file).fail contents rfl rfl rfl rfl
      holds memory.again
    rw [ramfsEnd_foreign rfl owns, restored]
    exact iff_of_true (back_fail rfl rfl rfl rfl) fun owns' => absurd owns' owns

/-- The condition on a length that the block gets. -/
theorem fits_changed
    (fits : stat.length = 0 ∨ stat.length ≠ 0 ∧ blksize ≠ 0 ∧
      ¬ Refuses blksize file.aux.data stat.length memory.grant ∧
        (asked blksize stat.length ≠ 0 ∨ file.aux.data = .null)) (changed : Prop) :
    Fits blksize file contents stat.length memory changed ↔ changed := by
  constructor
  · rintro (⟨-, holds⟩ | ⟨given, -, ⟨refuses, -⟩ | ⟨-, -, holds⟩⟩)
    · exact holds
    · exact absurd refuses (fits.resolve_left given).2.2.1
    · exact holds
  · intro holds
    rcases fits with none | ⟨nonzero, given, grants, something⟩
    · exact .inl ⟨none, holds⟩
    · exact .inr ⟨nonzero, given, .inr ⟨grants, something, holds⟩⟩

/-- The condition on a length that is refused. -/
theorem fits_refused (nonzero : stat.length ≠ 0) (given : blksize ≠ 0)
    (refuses : Refuses blksize file.aux.data stat.length memory.grant) (changed : Prop) :
    Fits blksize file contents stat.length memory changed ↔
      Restores blksize contents file.length file.aux.datasize.toNat memory.again := by
  constructor
  · rintro (⟨none, -⟩ | ⟨-, -, ⟨-, restores⟩ | ⟨grants, -⟩⟩)
    · exact absurd none nonzero
    · exact restores
    · exact absurd refuses grants
  · exact fun restores => .inr ⟨nonzero, given, .inl ⟨refuses, restores⟩⟩

/-- The condition does not hold when the block is freed. -/
theorem not_fits_freed (nonzero : stat.length ≠ 0)
    (grants : ¬ Refuses blksize file.aux.data stat.length memory.grant)
    (nothing : asked blksize stat.length = 0) (pointed : file.aux.data ≠ .null) (changed : Prop) :
    ¬ Fits blksize file contents stat.length memory changed := by
  rintro (⟨none, -⟩ | ⟨-, -, ⟨refuses, -⟩ | ⟨-, something, -⟩⟩)
  · exact nonzero none
  · exact grants refuses
  · exact something.elim (fun some => some nothing) pointed

/-- A request with a length that the user may set. -/
theorem ramfsEnd_sized (holds : Contains file contents) (unnamed : stat.name = [])
    (given : stat.length ≠ ~~~0) :
    AllOrNothing file contents stat (do
        let l ← (Frame.start file).resize blksize stat.length memory.grant
        ramfsEnd blksize user stat memory [.file] false l) ↔
      Fits blksize file contents stat.length memory
        (if Owns file user stat ∧ memory.replies then
          stat.length.toNat ≤ room blksize stat.length
        else
          (Owns file user stat → Noted file stat) ∧
            Restores blksize contents file.length (room blksize stat.length) memory.again) := by
  have resized := @resize_resized blksize (.start file) contents holds stat.length memory.grant
  generalize (Frame.start file).resize blksize stat.length memory.grant = result at resized ⊢
  cases resized with
  | divided nonzero zero =>
    refine iff_of_false id fun fits => ?_
    rcases fits with ⟨none, -⟩ | ⟨-, nonzero', -⟩
    · exact nonzero none
    · exact nonzero' zero
  | refused nonzero divides refuses =>
    rw [@fits_refused blksize file contents stat memory nonzero divides refuses]
    have restored := @restore_iff blksize file
      (sized (.start file) file.length file.aux).fail contents _ rfl rfl holds
      (holds.backs.take file.aux.datasize.toNat) rfl memory.again
    refine (ramfsEnd_failed rfl rfl releases_file).trans (restored.trans ?_)
    exact and_iff_right (back_fail rfl rfl rfl rfl)
  | freed nonzero divides grants nothing pointed =>
    obtain ⟨fault, failed⟩ := @restore_freed blksize
      (sized (.start file) file.length { file.aux with data := .freed }).fail rfl holds.length_ne
      memory.again
    refine (ramfsEnd_failed rfl rfl releases_file).trans
      (iff_of_false ?_ (not_fits_freed nonzero grants nothing pointed _))
    rintro ⟨after, returned, -⟩
    cases failed.symm.trans returned
  | changed fits length f short whole kept backs =>
    rw [@fits_changed blksize file contents stat memory fits]
    by_cases owns : Owns file user stat
    · cases replies : memory.replies with
      | true =>
        have settled := @settle_iff blksize file (set (sized (.start file) length f) stat) contents
          stat given (if_pos unnamed).symm rfl rfl short whole backs
          (fits.imp_right fun fits => fits.2.1) memory.again
        rw [if_pos ⟨owns, rfl⟩]
        exact (ramfsEnd_answered rfl rfl owns replies).trans settled
      | false =>
        have restored := @restore_iff blksize file (set (sized (.start file) length f) stat).fail
          contents _ rfl rfl holds kept whole memory.again
        have back := @back_set file (sized (.start file) length f) stat rfl rfl rfl rfl
        rw [if_neg fun both => Bool.false_ne_true both.2]
        refine (ramfsEnd_unanswered rfl owns replies).trans (restored.trans ?_)
        rw [back]
        exact and_congr_left fun _ => ⟨fun noted _ => noted, fun noted => noted owns⟩
    · have restored := @restore_iff blksize file (sized (.start file) length f).fail
        contents _ rfl rfl holds kept whole memory.again
      rw [if_neg fun both => owns both.1]
      refine (ramfsEnd_foreign rfl owns).trans (restored.trans ?_)
      exact and_congr_left fun _ =>
        iff_of_true (back_fail rfl rfl rfl rfl) fun owns' => absurd owns' owns

/-- A refusal sets an error if there is a user. -/
theorem checkPerm_some (mode : UInt32) (uid user : ℕ) :
    checkPerm mode uid (some user) 2 = (true, false) ∨
      checkPerm mode uid (some user) 2 = (false, true) := by
  have two : ¬ (2 : UInt32) = 0 := by decide
  simp only [checkPerm, if_neg two]
  split_ifs
  · exact .inr rfl
  · exact .inl rfl
  · exact .inr rfl
  · exact .inl rfl

theorem ramfsResize_eq (on : l.out = false) (given : stat.length ≠ ~~~0) {allowed error : Bool}
    (checked : checkPerm l.file.mode l.file.uid user 2 = (allowed, error)) :
    ramfsResize user blksize l stat.length memory.grant =
      if allowed = true ∧ l.file.mode &&& Dmdir = 0 then
        l.resize blksize stat.length memory.grant
      else .ok { l with error, out := true } := by
  have proceeds : ¬ l.out = true ∧ stat.length ≠ ~~~0 := ⟨on ▸ Bool.false_ne_true, given⟩
  rw [ramfsResize, if_pos proceeds]
  simp only [checked]
  by_cases granted : allowed = true ∧ l.file.mode &&& Dmdir = 0
  · rw [if_pos granted, if_neg (by simp [granted])]
  · rw [if_neg granted, if_pos (not_and_or.mp granted)]

theorem ramfsRename_eq (apart : l.file.root = false) (named : stat.name ≠ []) (held : List Lock)
    {allowed error : Bool}
    (checked : checkPerm l.file.parent.mode l.file.parent.uid user 2 = (allowed, error)) :
    ramfsRename user l held stat.name memory.copies =
      if allowed then l.rename held stat.name memory.copies
      else .ok { l with error, out := true } := by
  rw [ramfsRename, if_pos named]
  simp only [apart, Bool.false_eq_true, if_false, checked]

/-- A request without a name. -/
theorem ramfs_unnamed_iff (holds : Contains file contents)
    (plain : ¬ (file.mode &&& special ≠ 0 ∧ dotu = true)) (unnamed : stat.name = []) :
    AllOrNothing file contents stat
        (ramfsWstat user blksize file dotu stat memory lockfile lockparent) ↔
      RamfsFits blksize file contents user dotu stat memory lockfile lockparent := by
  rw [ramfsWstat_unnamed plain unnamed, RamfsFits, if_neg plain, if_neg (not_not.mpr unnamed)]
  by_cases given : stat.length ≠ ~~~0
  · rw [if_pos given]
    cases user with
    | none =>
      rw [@ramfsResize_eq blksize (.start file) stat memory none rfl given false false rfl,
        if_neg fun both => Bool.false_ne_true both.1]
      refine iff_of_false ?_ fun fits => fits.1 rfl
      exact ramfsEnd_silent rfl rfl releases_file
    | some user =>
      rcases checkPerm_some file.mode file.uid user with allowed | denied
      · rw [@ramfsResize_eq blksize (.start file) stat memory (some user) rfl given true false
          allowed]
        by_cases dir : file.mode &&& Dmdir = 0
        · rw [if_pos ⟨rfl, dir⟩]
          refine (ramfsEnd_sized holds unnamed given).trans ?_
          exact ⟨fun fits => ⟨Option.some_ne_none user, fun _ => ⟨dir, fits⟩⟩,
            fun fits => (fits.2 (congrArg Prod.fst allowed)).2⟩
        · rw [if_neg fun both => dir both.2]
          refine iff_of_false ?_ fun fits => dir (fits.2 (congrArg Prod.fst allowed)).1
          exact ramfsEnd_silent rfl rfl releases_file
      · rw [@ramfsResize_eq blksize (.start file) stat memory (some user) rfl given false true
          denied, if_neg fun both => Bool.false_ne_true both.1]
        have restored := @restore_same_iff blksize file (Frame.start file).fail contents rfl rfl
          rfl rfl holds memory.again
        refine ((ramfsEnd_failed rfl rfl releases_file).trans restored).trans ?_
        refine iff_of_true (back_fail rfl rfl rfl rfl)
          ⟨Option.some_ne_none user, fun allowed => ?_⟩
        exact absurd ((congrArg Prod.fst denied).symm.trans allowed) Bool.false_ne_true
  · rw [if_neg given]
    have skipped : ¬ (¬ (Frame.start file).out = true ∧ stat.length ≠ ~~~0) :=
      fun both => given both.2
    rw [ramfsResize, if_neg skipped]
    exact ramfsEnd_unsized holds unnamed (not_not.mp given)

/-- A name goes no further than to the lock of the parent. -/
theorem rename_cases (l : Frame) {held : List Lock} (locked : l.file.parentLock ∈ held)
    (name : List UInt8) (copies : Bool) :
    copies = true ∧ Npfs.npStrdup name = cstr ".." ∧ l.rename held name copies = .ok l.fail ∨
      ¬ (copies = true ∧ Npfs.npStrdup name = cstr "..") ∧
        ∃ fault, l.rename held name copies = .error fault := by
  cases copies with
  | false => exact .inr ⟨fun both => Bool.false_ne_true both.1, .wild, rfl⟩
  | true =>
    by_cases up : Npfs.npStrdup name = cstr ".."
    · refine .inl ⟨rfl, up, ?_⟩
      rw [Frame.rename, MemoryWstat.npStrdup, if_pos rfl]
      simp only [bind, Except.bind, findFile, up, if_true]
      rfl
    · refine .inr ⟨fun both => up both.2, .blocked, ?_⟩
      rw [Frame.rename, MemoryWstat.npStrdup, if_pos rfl]
      simp only [bind, Except.bind, findFile, up, if_false, lock, locked, if_true]

/-- A request with a name. -/
theorem ramfs_named_iff (holds : Contains file contents)
    (plain : ¬ (file.mode &&& special ≠ 0 ∧ dotu = true)) (named : stat.name ≠ []) :
    AllOrNothing file contents stat
        (ramfsWstat user blksize file dotu stat memory lockfile lockparent) ↔
      RamfsFits blksize file contents user dotu stat memory lockfile lockparent := by
  have skipped {l : Frame} (off : l.out = true) :
      ramfsResize user blksize l stat.length memory.grant = .ok l := by
    rw [ramfsResize, if_neg fun both => both.1 off]
  have restored := @restore_same_iff blksize file (Frame.start file).fail contents rfl rfl rfl rfl
    holds memory.again
  have back : Back file (Frame.start file).fail := back_fail rfl rfl rfl rfl
  rw [ramfsWstat_named plain named, RamfsFits, if_neg plain, if_pos named]
  cases root : file.root with
  | true =>
    rw [Node.parentLock, root]
    exact iff_of_false id fun fits => Bool.false_ne_true fits.1.symm
  | false =>
    have locked : (Frame.start file).file.parentLock ∈ [Lock.parent, Lock.file] := by
      rw [Node.parentLock, show (Frame.start file).file.root = false from root]
      exact List.mem_cons_self
    have taken : lock file.parentLock [.file] = .ok [.parent, .file] := by
      rw [Node.parentLock, root]
      rfl
    rw [taken]
    simp only [bind, Except.bind]
    cases user with
    | none =>
      rw [@ramfsRename_eq (.start file) stat memory none root named _ false false rfl,
        if_neg Bool.false_ne_true]
      simp only [@skipped { Frame.start file with error := false, out := true } rfl]
      refine iff_of_false ?_ fun fits => fits.2.1 rfl
      exact ramfsEnd_silent rfl rfl (releases_both root)
    | some user =>
      have failed := (@ramfsEnd_failed blksize file (Frame.start file).fail contents stat memory
        (some user) _ _ rfl rfl (releases_both root)).trans restored
      rcases checkPerm_some file.parent.mode file.parent.uid user with allowed | denied
      · rw [@ramfsRename_eq (.start file) stat memory (some user) root named _ true false allowed,
          if_pos rfl]
        have refused : ¬ (checkPerm file.parent.mode file.parent.uid (some user) 2).1 = false := by
          rw [allowed]
          exact Bool.noConfusion
        rcases rename_cases (.start file) locked stat.name memory.copies with
          ⟨copies, up, renamed⟩ | ⟨other, fault, renamed⟩
        · rw [renamed]
          simp only [@skipped (Frame.start file).fail rfl]
          exact failed.trans
            (iff_of_true back ⟨trivial, Option.some_ne_none user, .inr ⟨copies, up⟩⟩)
        · rw [renamed]
          exact iff_of_false id fun fits => other (fits.2.2.resolve_left refused)
      · rw [@ramfsRename_eq (.start file) stat memory (some user) root named _ false true denied,
          if_neg Bool.false_ne_true]
        simp only [@skipped { Frame.start file with error := true, out := true } rfl]
        exact failed.trans (iff_of_true back
          ⟨trivial, Option.some_ne_none user, .inl (congrArg Prod.fst denied)⟩)

/-- A request on a file that is neither a file nor a directory. -/
theorem ramfs_special_iff (holds : Contains file contents)
    (kind : file.mode &&& special ≠ 0 ∧ dotu = true) :
    AllOrNothing file contents stat
        (ramfsWstat user blksize file dotu stat memory lockfile lockparent) ↔
      RamfsFits blksize file contents user dotu stat memory lockfile lockparent := by
  have restored := @restore_same_iff blksize file (Frame.start file).fail contents rfl rfl rfl rfl
    holds memory.again
  have left (length : UInt64) : (Frame.start file).fail.leave blksize length memory.again =
      (Frame.start file).fail.restore blksize memory.again := if_pos rfl
  obtain ⟨after, returned, shows⟩ := restored.mpr (back_fail rfl rfl rfl rfl)
  rw [ramfsWstat, if_pos kind, RamfsFits, if_pos kind, ramfsOut, left, returned]
  cases lockfile with
  | true => exact iff_of_false id fun unset => Bool.false_ne_true unset.1.symm
  | false =>
    cases lockparent with
    | true =>
      refine iff_of_false ?_ fun unset => Bool.false_ne_true unset.2.symm
      simp only [bind, Except.bind, unlockIf, unlock, List.not_mem_nil, if_true, if_false,
        Bool.false_eq_true]
      exact id
    | false => exact iff_of_true (.inr ⟨rfl, rfl, shows⟩) ⟨rfl, rfl⟩

theorem ramfs_iff (holds : Contains file contents) :
    AllOrNothing file contents stat
        (ramfsWstat user blksize file dotu stat memory lockfile lockparent) ↔
      RamfsFits blksize file contents user dotu stat memory lockfile lockparent := by
  by_cases kind : file.mode &&& special ≠ 0 ∧ dotu = true
  · exact ramfs_special_iff holds kind
  · by_cases named : stat.name ≠ []
    · exact ramfs_named_iff holds kind named
    · exact ramfs_unnamed_iff holds kind (not_not.mp named)

theorem rfsTouch_rfsChmod (on : l.out = false) :
    rfsTouch (rfsChmod l stat.mode) stat.mtime = set l stat := by
  by_cases mode : stat.mode = -1
  · by_cases mtime : stat.mtime = -1
    · simp [rfsTouch, rfsChmod, set, mode, mtime]
    · simp [rfsTouch, rfsChmod, set, mode, mtime, on, Frame.touch]
  · by_cases mtime : stat.mtime = -1
    · simp [rfsTouch, rfsChmod, set, mode, mtime, on, Frame.chmod]
    · simp [rfsTouch, rfsChmod, set, mode, mtime, on, Frame.chmod, Frame.touch]

/-- `rfs_wstat` after the length. -/
def rfsEnd (blksize : UInt64) (stat : Stat) (memory : Memory) (held : List Lock) (parent : Bool)
    (l : Frame) : Except Fault (Answer × Node) :=
  rfsOut blksize (rfsTouch (rfsChmod l stat.mode) stat.mtime) memory held parent

/-- The end of a request that is granted. -/
theorem rfsEnd_granted (on : l.out = false) (fine : l.error = false) :
    rfsEnd blksize stat memory [.file] false l = .ok (⟨true, false⟩, (set l stat).file) := by
  have on' : (set l stat).out = false := on
  have fine' : (set l stat).error = false := fine
  rw [rfsEnd, rfsTouch_rfsChmod on, rfsOut, on', fine', if_neg Bool.false_ne_true]
  rfl

/-- The end after an error. -/
theorem rfsEnd_out {held : List Lock} {parent : Bool} (off : l.out = true)
    (failed : l.error = true)
    (releases : ∃ rest, unlockIf parent l.file.parentLock held = .ok rest) :
    rfsEnd blksize stat memory held parent l = (do
      let after ← l.restore blksize memory.again
      return (⟨false, true⟩, after)) := by
  obtain ⟨rest, released⟩ := releases
  have same : rfsTouch (rfsChmod l stat.mode) stat.mtime = l := by
    simp [rfsTouch, rfsChmod, off]
  rw [rfsEnd, same, rfsOut, off, failed, released, if_pos rfl]
  rfl

theorem rfsEnd_failed {held : List Lock} {parent : Bool} (off : l.out = true)
    (failed : l.error = true)
    (releases : ∃ rest, unlockIf parent l.file.parentLock held = .ok rest) :
    AllOrNothing file contents stat (rfsEnd blksize stat memory held parent l) ↔
      ∃ after, l.restore blksize memory.again = .ok after ∧
        Shows after file.name contents file.mode file.mtime := by
  rw [rfsEnd_out off failed releases, allOrNothing_answer]
  simp

theorem rfsWstat_unnamed (unnamed : stat.name = []) :
    rfsWstat blksize file stat memory = (do
      let l ← rfsResize blksize (.start file) stat.length memory.grant
      rfsEnd blksize stat memory [.file] false l) := by
  rw [rfsWstat, unnamed]
  rfl

theorem rfsWstat_named (named : stat.name ≠ []) :
    rfsWstat blksize file stat memory = (do
      let held ← lock file.parentLock [.file]
      let l ← (Frame.start file).rename held stat.name memory.copies
      let l ← rfsResize blksize l stat.length memory.grant
      rfsEnd blksize stat memory held true l) := by
  simp only [rfsWstat, decide_eq_true named, rfsRename, if_pos named]
  rfl

/-- A request with a length. -/
theorem rfsEnd_sized (holds : Contains file contents) (unnamed : stat.name = [])
    (given : stat.length ≠ ~~~0) :
    AllOrNothing file contents stat (do
        let l ← rfsResize blksize (.start file) stat.length memory.grant
        rfsEnd blksize stat memory [.file] false l) ↔
      Fits blksize file contents stat.length memory
        (stat.length.toNat ≤ room blksize stat.length) := by
  have proceeds : rfsResize blksize (.start file) stat.length memory.grant =
      (Frame.start file).resize blksize stat.length memory.grant :=
    if_pos ⟨Bool.false_ne_true, given⟩
  have released (l : Frame) : ∃ rest, unlockIf false l.file.parentLock [.file] = .ok rest :=
    ⟨[.file], rfl⟩
  have resized := @resize_resized blksize (.start file) contents holds stat.length memory.grant
  rw [proceeds]
  generalize (Frame.start file).resize blksize stat.length memory.grant = result at resized ⊢
  cases resized with
  | divided nonzero zero =>
    refine iff_of_false id fun fits => ?_
    rcases fits with ⟨none, -⟩ | ⟨-, nonzero', -⟩
    · exact nonzero none
    · exact nonzero' zero
  | refused nonzero divides refuses =>
    rw [@fits_refused blksize file contents stat memory nonzero divides refuses]
    have restored := @restore_iff blksize file
      (sized (.start file) file.length file.aux).fail contents _ rfl rfl holds
      (holds.backs.take file.aux.datasize.toNat) rfl memory.again
    refine (@rfsEnd_failed blksize file (sized (.start file) file.length file.aux).fail contents
      stat memory _ _ rfl rfl (released _)).trans (restored.trans ?_)
    exact and_iff_right (back_fail rfl rfl rfl rfl)
  | freed nonzero divides grants nothing pointed =>
    obtain ⟨fault, failed⟩ := @restore_freed blksize
      (sized (.start file) file.length { file.aux with data := .freed }).fail rfl holds.length_ne
      memory.again
    refine (@rfsEnd_failed blksize file
      (sized (.start file) file.length { file.aux with data := .freed }).fail contents stat memory
      _ _ rfl rfl (released _)).trans
        (iff_of_false ?_ (not_fits_freed nonzero grants nothing pointed _))
    rintro ⟨after, returned, -⟩
    cases failed.symm.trans returned
  | changed fits length f short whole kept backs =>
    rw [@fits_changed blksize file contents stat memory fits]
    simp only [bind, Except.bind]
    rw [rfsEnd_granted rfl rfl]
    have granted := @granted_iff file contents stat (set (sized (.start file) length f) stat).file
      given (if_pos unnamed).symm rfl rfl (room blksize stat.length) short backs
    refine Iff.trans ?_ granted
    constructor
    · rintro (⟨-, -, granted⟩ | ⟨impossible, -⟩)
      · exact granted
      · cases impossible
    · exact fun granted => .inl ⟨rfl, rfl, granted⟩

theorem rfs_iff (holds : Contains file contents) :
    AllOrNothing file contents stat (rfsWstat blksize file stat memory) ↔
      RfsFits blksize file contents stat memory := by
  have restored := @restore_same_iff blksize file (Frame.start file).fail contents rfl rfl rfl rfl
    holds memory.again
  have back : Back file (Frame.start file).fail := back_fail rfl rfl rfl rfl
  by_cases named : stat.name ≠ []
  · rw [rfsWstat_named named, RfsFits, if_pos named]
    cases root : file.root with
    | true =>
      rw [Node.parentLock, root]
      exact iff_of_false id fun fits => Bool.false_ne_true fits.1.symm
    | false =>
      have locked : (Frame.start file).file.parentLock ∈ [Lock.parent, Lock.file] := by
        rw [Node.parentLock, show (Frame.start file).file.root = false from root]
        exact List.mem_cons_self
      have taken : lock file.parentLock [.file] = .ok [.parent, .file] := by
        rw [Node.parentLock, root]
        rfl
      have released : ∃ rest, unlockIf true (Frame.start file).fail.file.parentLock
          [.parent, .file] = .ok rest := by
        rw [Node.parentLock, show (Frame.start file).fail.file.root = false from root]
        exact ⟨[.file], rfl⟩
      rw [taken]
      simp only [bind, Except.bind]
      rcases rename_cases (.start file) locked stat.name memory.copies with
        ⟨copies, up, renamed⟩ | ⟨other, fault, renamed⟩
      · have skipped : rfsResize blksize (Frame.start file).fail stat.length memory.grant =
            .ok (Frame.start file).fail := if_neg fun both => both.1 rfl
        rw [renamed]
        simp only [skipped]
        refine ((rfsEnd_failed rfl rfl released).trans restored).trans ?_
        exact iff_of_true back ⟨trivial, copies, up⟩
      · rw [renamed]
        exact iff_of_false id fun fits => other fits.2
  · rw [rfsWstat_unnamed (not_not.mp named), RfsFits, if_neg named]
    have unnamed := not_not.mp named
    by_cases given : stat.length ≠ ~~~0
    · refine (rfsEnd_sized holds unnamed given).trans ?_
      exact ⟨fun fits _ => fits, fun fits => fits given⟩
    · have skipped : rfsResize blksize (.start file) stat.length memory.grant =
          .ok (.start file) := if_neg fun both => given both.2
      rw [skipped]
      simp only [bind, Except.bind]
      rw [rfsEnd_granted rfl rfl]
      refine iff_of_true (.inl ⟨rfl, rfl, (if_pos unnamed).symm, ?_, rfl, rfl⟩) fun given' =>
        absurd given' given
      rw [if_pos (not_not.mp given)]
      exact ⟨holds.length, holds.backs⟩

theorem set_eq (l : Frame) (given : Npstat) (name : List UInt8) :
    (set l ⟨name, given.length, given.mode, given.mtime⟩).file =
      { l.file with toNpfile := l.file.toNpfile.set given } := by
  simp only [set, Npfile.set, ne_eq, ite_not]

theorem stretch_eq (f : File) (size : UInt64) :
    { Frame.start file with oldlength := file.length }.stretch f size = (do
      let f' ← clear f file.length (if size > f.datasize then f.datasize else size)
      return sized (.start file) (if size > f.datasize then f.datasize else size) f') := rfl

theorem restore_sized (f : File) (again : Grant) :
    (sized (.start file) file.length f).fail.restore blksize again =
      if file.length = ~~~0 then .ok { file with aux := f } else do
        let restored ← fileTruncate blksize f file.length again
        return { file with aux := restored.2 } := by
  by_cases none : file.length = ~~~0
  · rw [if_pos none]
    exact if_neg (not_not.mpr none)
  · rw [if_neg none]
    exact if_pos none

/-- Without a name `rfs_wstat` is what it is for the contents of the file. -/
theorem rfsWstat_eq (given : Npstat) (unnamed : given.name.len = 0) :
    rfsWstat blksize file ⟨[], given.length, given.mode, given.mtime⟩ memory = (do
      let r ← Npfs.rfsWstat blksize file.toNpfile given memory.grant memory.again
      return (⟨decide (r.1 ≠ 0), decide (r.1 = 0)⟩, { file with toNpfile := r.2 })) := by
  rw [rfsWstat_unnamed rfl, Npfs.rfsWstat, if_neg (not_not.mpr unnamed)]
  by_cases sizes : given.length ≠ ~~~0
  · have proceeds : rfsResize blksize (.start file) given.length memory.grant =
        (Frame.start file).resize blksize given.length memory.grant :=
      if_pos ⟨Bool.false_ne_true, sizes⟩
    simp only [if_pos sizes, proceeds, Frame.resize]
    change (fileTruncate blksize file.aux given.length memory.grant >>= _) >>= _ = _
    generalize fileTruncate blksize file.aux given.length memory.grant = result
    cases result with
    | error fault => rfl
    | ok result =>
      obtain ⟨failed, f⟩ := result
      simp only [bind, Except.bind]
      by_cases refused : failed ≠ 0
      · have ended := @rfsEnd_out blksize (sized (.start file) file.length f).fail
          ⟨[], given.length, given.mode, given.mtime⟩ memory [.file] false rfl rfl ⟨[.file], rfl⟩
        rw [if_pos refused, if_pos refused]
        refine ended.trans ?_
        rw [restore_sized]
        by_cases none : file.length = ~~~0
        · rw [if_pos none, if_pos none]
          rfl
        · rw [if_neg none, if_neg none]
          generalize fileTruncate blksize f file.length memory.again = restored
          cases restored with
          | error fault => rfl
          | ok restored => rfl
      · rw [if_neg refused, if_neg refused]
        change { Frame.start file with oldlength := file.length }.stretch f given.length >>=
          rfsEnd blksize _ memory [.file] false = _
        rw [stretch_eq]
        generalize (if given.length > f.datasize then f.datasize else given.length) = length
        have ended (f : File) := @rfsEnd_granted blksize (sized (.start file) length f)
          ⟨[], given.length, given.mode, given.mtime⟩ memory rfl rfl
        by_cases longer : file.length < length
        · rw [if_pos longer, clear, if_pos longer]
          change (f.zero _ _ >>= _) >>= _ = _
          generalize f.zero file.length.toNat (length - file.length).toNat = zeroed
          cases zeroed with
          | error fault => rfl
          | ok f' =>
            refine (ended f').trans ?_
            rw [set_eq]
            rfl
        · rw [if_neg longer, clear, if_neg longer]
          refine (ended f).trans ?_
          rw [set_eq]
          rfl
  · have skipped : rfsResize blksize (.start file) given.length memory.grant =
        .ok (.start file) := if_neg fun both => sizes both.2
    rw [if_neg sizes]
    simp only [skipped, bind, Except.bind, pure, Except.pure]
    rw [rfsEnd_granted rfl rfl, set_eq]
    rfl

end Requests

/-- Wstat is all or nothing exactly when the request fits. -/
theorem allOrNothing_iff (blksize : UInt64) {file : Node} {contents : List UInt8}
    (holds : Contains file contents) (user : Option ℕ) (dotu : Bool) (stat : Stat)
    (memory : Memory) (lockfile lockparent : Bool) :
    (AllOrNothing file contents stat
        (ramfsWstat user blksize file dotu stat memory lockfile lockparent) ↔
      RamfsFits blksize file contents user dotu stat memory lockfile lockparent) ∧
    (AllOrNothing file contents stat (rfsWstat blksize file stat memory) ↔
      RfsFits blksize file contents stat memory) :=
  ⟨ramfs_iff holds, rfs_iff holds⟩

/-- A file of three bytes that all may write to, of the user 1. -/
def shared : Node where
  length := 3
  mode := 0o666
  mtime := 7
  aux := ⟨.block [1, 2, 3, 0], 4⟩
  name := cstr "f"
  uid := 1
  parent := ⟨0o777, 1, [cstr "f"]⟩
  root := false

theorem contains_shared : Contains shared [1, 2, 3] where
  length := rfl
  backs := ⟨⟨⟨[0], rfl⟩, rfl⟩, by decide⟩

/-- The owner extends the file and sets its mode. -/
theorem allOrNothing_iff_grow :
    AllOrNothing shared [1, 2, 3] ⟨[], 5, 0o600, ~~~0⟩
        (ramfsWstat (some 1) 4 shared true ⟨[], 5, 0o600, ~~~0⟩ ⟨true, some fun _ => 9, none, true⟩
          false false) ∧
      AllOrNothing shared [1, 2, 3] ⟨[], 5, 0o600, ~~~0⟩
        (rfsWstat 4 shared ⟨[], 5, 0o600, ~~~0⟩ ⟨true, some fun _ => 9, none, true⟩) := by
  have grants : ¬ Refuses 4 shared.aux.data 5 (some fun _ => 9) := by
    rintro (large | ⟨none, -⟩)
    · exact absurd large (by decide)
    · cases none
  have fits (changed : Prop) (holds : changed) :
      Fits 4 shared [1, 2, 3] 5 ⟨true, some fun _ => 9, none, true⟩ changed :=
    .inr ⟨by decide, by decide, .inr ⟨grants, .inl (by decide), holds⟩⟩
  have both := allOrNothing_iff 4 contains_shared (some 1) true ⟨[], 5, 0o600, ~~~0⟩
    ⟨true, some fun _ => 9, none, true⟩ false false
  constructor
  · refine both.1.mpr ?_
    rw [RamfsFits, if_neg (by decide), if_neg (by decide), if_pos (by decide)]
    refine ⟨Option.some_ne_none 1, fun _ => ⟨by decide, fits _ ?_⟩⟩
    rw [if_pos (by decide)]
    decide
  · refine both.2.mpr ?_
    rw [RfsFits, if_neg (by decide)]
    exact fun _ => fits _ (by decide)

/-- Another user cuts the file to nothing and sets its mode: the mode is refused, and the length
comes back without the bytes. -/
theorem not_allOrNothing_all : ¬ ∀ (blksize : UInt64) (file : Node) (contents : List UInt8)
    (user : Option ℕ) (dotu : Bool) (stat : Stat) (memory : Memory) (lockfile lockparent : Bool),
    Contains file contents →
      AllOrNothing file contents stat
          (ramfsWstat user blksize file dotu stat memory lockfile lockparent) ∧
        AllOrNothing file contents stat (rfsWstat blksize file stat memory) := by
  intro all
  have refused := (all 4 shared [1, 2, 3] (some 2) true ⟨[], 0, 0o600, ~~~0⟩
    ⟨true, none, some fun _ => 9, true⟩ false false contains_shared).1
  have computed : ramfsWstat (some 2) 4 shared true ⟨[], 0, 0o600, ~~~0⟩
      ⟨true, none, some fun _ => 9, true⟩ false false =
        .ok (⟨false, true⟩, { shared with aux := ⟨.block [9, 9, 9, 9], 4⟩ }) := rfl
  rw [computed] at refused
  rcases refused with ⟨impossible, -⟩ | ⟨-, -, shows⟩
  · cases impossible
  · exact absurd shows.contents.backs.data.1 (by decide)

end Npfs.MemoryWstat
