import Npfs.FidInvariant
import Npfs.MappedAttrs
import Npfs.XattrWalk

/-!
# Isolation of the mapped id model

A client reaches the attributes of the mapped id model only through the requests that make a file or
set its attributes. They are neither among the names that it can list nor among the values that it
can read.
-/

namespace Npfs

namespace Ufs

open Program

/-! ## What a run leaves alone -/

/-- The attributes of the mapped id model that the files have. -/
def virtfs (host : Host) (file : Nat) (name : CStr) : Option (List UInt8) :=
  if mappedName name.bytes then host.xattr file name else none

section Host

variable {host : Host} {fate : Fate} {path : CStr} {file : Nat} {name : CStr}

theorem virtfs_congr {host' : Host}
    (same : ∀ file name, mappedName name.bytes → host'.xattr file name = host.xattr file name) :
    virtfs host' = virtfs host := by
  funext file name
  unfold virtfs
  split_ifs with named
  · exact same file name named
  · rfl

/-- What a file has from the system is none of the model's. -/
theorem not_mem_labels (fate : Fate) (named : mappedName name.bytes) : name ∉ fate.labels := by
  intro member
  have user : (cstr "user.").bytes <+: VIRTFS_PREFIX := by decide
  exact fate.unlabelled name member (user.trans (mappedName_iff.mp named))

theorem virtfs_make : virtfs (host.make fate path).2 = virtfs host := by
  refine virtfs_congr fun file name named => ?_
  unfold Host.make
  split
  · rfl
  · rfl
  · have unlabelled := AList.lookup_eq_none.mpr (not_mem_labels fate named)
    rcases eq_or_ne file host.files.next with rfl | other
    · simp [Host.xattr, unlabelled]
    · simp [Host.xattr, Cells.get_push, other]

theorem virtfs_arrange : virtfs (host.arrange fate).2 = virtfs host := by
  unfold Host.arrange
  split <;> rfl

theorem virtfs_openFile {flags : UInt32} : virtfs (host.openFile fate path flags).2 = virtfs host := by
  unfold Host.openFile
  split_ifs
  · exact virtfs_make
  · rfl
  · rfl

theorem virtfs_modify {change : Xattrs → Xattrs}
    (spared : ∀ xattrs name, mappedName name.bytes →
      (change xattrs).lookup name = xattrs.lookup name) :
    virtfs (host.modify path change) = virtfs host := by
  refine virtfs_congr fun file name named => ?_
  unfold Host.modify
  split
  · rfl
  · rename_i target _
    rcases eq_or_ne file target with rfl | other
    · cases found : host.files.get file with
      | none => simp [Host.xattr, found]
      | some xattrs => simpa [Host.xattr, found] using spared xattrs name named
    · simp [Host.xattr, Cells.get_modify_ne other]

theorem virtfs_setXattr {value : List UInt8} {flags : UInt32} (foreign : ¬ mappedName name.bytes) :
    virtfs (host.setXattr fate path name value flags).2 = virtfs host := by
  unfold Host.setXattr
  split
  · rfl
  · rfl
  · split_ifs
    · rfl
    · rfl
    · refine virtfs_modify fun xattrs other named => AList.lookup_insert_ne ?_
      rintro rfl
      exact foreign named

theorem virtfs_removeXattr (foreign : ¬ mappedName name.bytes) :
    virtfs (host.removeXattr fate path name).2 = virtfs host := by
  unfold Host.removeXattr
  split
  · rfl
  · rfl
  · split_ifs
    · refine virtfs_modify fun xattrs other named => AList.lookup_erase_ne ?_
      rintro rfl
      exact foreign named
    · rfl

theorem virtfs_exec {call : SysCall} (spared : Op.Spares False (.sys call)) :
    virtfs (host.exec call).2 = virtfs host := by
  cases call with
  | lsetxattr path name value flags => exact virtfs_setXattr (spared.resolve_left id)
  | lremovexattr path name => exact virtfs_removeXattr (spared.resolve_left id)
  | «open» path flags mode => exact virtfs_openFile
  | mkdir path mode => exact virtfs_make
  | symlink target path => exact virtfs_make
  | mknod path mode dev => exact virtfs_make
  | rename old new => exact virtfs_arrange
  | link old new => exact virtfs_arrange
  | unlink path => exact virtfs_arrange
  | rmdir path => exact virtfs_arrange
  | remove path => exact virtfs_arrange
  | unlinkat fd name removedir => exact virtfs_arrange
  | lstat | lgetxattr | llistxattr | malloc | data => rfl

end Host

/-- All fids of a connection are guarded. -/
def State.Guarded (s : State) : Prop :=
  ∀ ptr f, s.fids.get ptr = some f → ∀ aux ∈ f.aux, aux.Guarded

section Session

variable {u : Ufssrv} {s : State} {ptr : FidPtr}

theorem guarded_iff : s.Guarded ↔ Every (fun _ aux => aux.Guarded) s := by
  constructor
  · intro guarded p aux found
    obtain ⟨f, live, member⟩ := Option.bind_eq_some_iff.mp found
    exact guarded p f live aux member
  · intro every p f live aux member
    exact every p aux (Option.bind_eq_some_iff.mpr ⟨f, live, member⟩)

/-- The operations of `libnpfs` on their own change no file. -/
theorem keeps_env (guarded : s.Guarded) (op : Npfs.Op) :
    State.Guarded (Npfs.exec env op s).2 ∧ virtfs (Npfs.exec env op s).2.world = virtfs s.world := by
  refine ⟨guarded_iff.mpr ((guarded_iff.mp guarded).env op), ?_⟩
  rcases @env_world s op with same | same <;> rw [same]
  rfl

/-- What is kept by the operations that spare the attributes of the model. -/
structure State.Keeps (free : Prop) (s s' : State) : Prop where
  guarded : s'.Guarded
  virtfs : ¬ free → virtfs s'.world = virtfs s.world

theorem keeps_execOp (mapped : u.mapped = true) {free : Prop} (guarded : s.Guarded) {op : Op}
    (spared : op.Spares free) : op.Finds (execOp u op s).1 ∧ s.Keeps free (execOp u op s).2 := by
  have every := guarded_iff.mp guarded
  have kept : State.Guarded (execOp u op s).2 := guarded_iff.mpr <| every_execOp every <| by
    rintro p aux rfl
    exact spared
  cases op with
  | sys call =>
      refine ⟨by cases call <;> trivial, kept, fun locked => virtfs_exec ?_⟩
      rwa [eq_false locked] at spared
  | aux fid => exact ⟨every.read fid, kept, fun _ => congrArg _ load_world⟩
  | setAux fid aux => exact ⟨trivial, kept, fun _ => rfl⟩
  | np op => exact ⟨trivial, kept, fun _ => (keeps_env guarded op).2⟩
  | ufs => exact ⟨mapped, kept, fun _ => rfl⟩

/-- A piece of code keeps what each of its operations keeps. -/
theorem Spares.run {α : Type} {free : Prop} {code : Code α} (spares : Spares free code)
    (mapped : u.mapped = true) (guarded : s.Guarded) : s.Keeps free (code.run (execOp u) s).2 := by
  have start : s.Keeps free s := ⟨guarded, fun _ => rfl⟩
  refine (Always.run spares (fun op s' kept spared => ?_) (fun op s' kept spared => ?_) start).2.1
  · exact (keeps_execOp mapped kept.guarded spared).1
  · have step := (keeps_execOp mapped kept.guarded spared).2
    exact ⟨step.guarded, fun locked => (step.virtfs locked).trans (kept.virtfs locked)⟩

/-- An operation writes the attributes of the model only in the callbacks that may. -/
theorem keeps_exec (mapped : u.mapped = true) (guarded : s.Guarded) (op : Npfs.Op) :
    s.Keeps (∃ callback, op = .call callback ∧ sets callback) (exec u op s).2 := by
  have kept := keeps_env guarded op
  cases op with
  | call callback =>
      have kept := (spares_ufsStart callback).run mapped guarded
      exact ⟨kept.guarded, fun locked => kept.virtfs fun free => locked ⟨callback, rfl, free⟩⟩
  | _ => exact ⟨kept.1, fun _ => kept.2⟩

end Session

end Ufs

/-! ## Requests -/

section Requests

open Program Serve Ufs

/-- An operation that is no call of a function that may write the attributes of the model. -/
@[simp] def Op.Quiet : Op → Prop
  | .call callback => sets callback = false
  | _ => True

/-- A piece of a handler does not call a function that may write the attributes of the model. -/
abbrev Quiet {α : Type} (program : Serve α) : Prop :=
  program.Always (fun _ _ => True) Op.Quiet fun _ => True

theorem Quiet.bind {α β : Type} {first : Serve α} {rest : α → Serve β} (quiet : Quiet first)
    (onward : ∀ value, Quiet (rest value)) : Quiet (first >>= rest) :=
  (always_bind _ _).mpr (quiet.mono fun value _ => onward value)

end Requests

namespace Ufs

open Program

/-! ## Runs -/

section Run

variable {u : Ufssrv} {npErrnoToLinux : UInt32 → UInt32} {msize : UInt32} {host : Host} {s : State}

theorem State.Guarded.start : (State.start msize host).Guarded := by
  intro ptr f found
  simp [State.start] at found

theorem State.Guarded.serve (guarded : s.Guarded) (mapped : u.mapped = true) (tc : Npfcall) :
    State.Guarded ((serve npErrnoToLinux tc none).run (exec u) s.receive).2 ∧
      ∀ event ∈ (serve npErrnoToLinux tc none).events (exec u) s.receive,
        State.Guarded event.2 := by
  have received : State.Guarded s.receive := guarded
  have kept : ∀ op s, State.Guarded s → State.Guarded (exec u op s).2 :=
    fun op s guarded => (keeps_exec mapped guarded op).guarded
  exact run_invariant (exec u) kept _ received

theorem State.Reached.guarded (mapped : u.mapped = true)
    (reached : State.Reached u npErrnoToLinux msize host s) : s.Guarded := by
  refine Transition.Reaches.invariant State.Guarded State.Guarded.start ?_ reached
  intro s next tc guarded _ taken
  obtain rfl := Option.some.inj taken
  exact (guarded.serve mapped tc).1

/-- A host with no files. -/
def Host.empty : Host where
  files := Cells.empty
  names _ := none
  fates _ := Fate.empty

end Run

end Ufs

end Npfs
