import Npfs.AttributeList
import Npfs.UfsRun

/-!
# The attributes of the mapped id model

Which functions of `libufs` write the attributes in which the mapped id model keeps what clients
say about a file. The others spare them: none of their operations sets or removes one, and no fid
is left with the name of one.
-/

namespace Npfs

namespace Ufs

open Program

/-- A fid of a server with the mapped id model: an attribute that it is going to set is not one of
the model's. -/
structure Fid.Guarded (f : Fid) : Prop where
  mapped : f.mapped = true
  foreign : ∀ name ∈ f.xattrname, ¬ mappedName name.bytes

/-- What an operation answers when all fids are guarded. -/
def Op.Finds : (op : Op) → op.Reply → Prop
  | .aux _, f => ∀ a ∈ f, a.Guarded
  | .ufs, u => u.mapped = true
  | _, _ => True

/-- The operation sets or removes no attribute of the mapped id model, unless that is `free`, and
leaves the fids guarded. -/
def Op.Spares (free : Prop) : Op → Prop
  | .sys (.lsetxattr _ name _ _) => free ∨ ¬ mappedName name.bytes
  | .sys (.lremovexattr _ name) => free ∨ ¬ mappedName name.bytes
  | .setAux _ f => f.Guarded
  | .np (.call _) => False
  | _ => True

/-- All operations of a piece of code spare the attributes of the mapped id model. -/
abbrev Spares {α : Type} (free : Prop) (code : Code α) : Prop :=
  code.Always Op.Finds (Op.Spares free) fun _ => True

section Spares

variable {α β : Type} {free : Prop} {fid : FidPtr} {f : Fid}

theorem Spares.bind {first : Code α} {rest : α → Code β} (spares : Spares free first)
    (onward : ∀ value, Spares free (rest value)) : Spares free (first >>= rest) :=
  (always_bind _ _).mpr (spares.mono fun value _ => onward value)

theorem spares_step {op : Op} {rest : op.Reply → Code α} (spared : op.Spares free)
    (onward : ∀ reply, Spares free (rest reply)) : Spares free (.step op rest) :=
  ⟨spared, fun reply _ => onward reply⟩

theorem spares_data (call : DataCall) : Spares free (data call) :=
  spares_step trivial fun _ => trivial

theorem spares_sys (call : SysCall) (spared : Op.Spares free (.sys call)) :
    Spares free (sys call) := spares_step spared fun _ => trivial

theorem spares_np (op : Npfs.Op) (spared : Op.Spares free (.np op)) : Spares free (np op) :=
  spares_step spared fun _ => trivial

theorem spares_setAux (guarded : f.Guarded) : Spares free (setAux fid f) :=
  spares_step guarded fun _ => trivial

theorem spares_ufs {rest : Ufssrv → Code α}
    (onward : ∀ u : Ufssrv, u.mapped = true → Spares free (rest u)) : Spares free (ufs >>= rest) :=
  ⟨trivial, onward⟩

theorem spares_create {constructor : Malloc → Option Npfcall} : Spares free (create constructor) :=
  spares_step trivial fun _ => trivial

theorem spares_fail {ename : CStr} {ecode : Errno} :
    Spares free (fail ename ecode : Code (Option α)) := spares_step trivial fun _ => trivial

theorem spares_createRerror {ecode : Errno} : Spares free (createRerror ecode : Code (Option α)) :=
  spares_step trivial fun _ => spares_fail

theorem spares_check {answer : Except Errno β} {rest : β → Code (Option α)}
    (onward : ∀ value, Spares free (rest value)) : Spares free (check answer rest) := by
  cases answer with
  | error err => exact spares_createRerror
  | ok value => exact onward value

theorem spares_checkIf {condition : Prop} [Decidable condition] {call : Code (Except Errno β)}
    {rest : Code (Option α)} (first : Spares free call) (onward : Spares free rest) :
    Spares free (checkIf condition call rest) := by
  rw [checkIf]
  split_ifs
  · exact first.bind fun answer => spares_check fun _ => onward
  · exact onward

theorem spares_withAux [Inhabited α] {rest : Fid → Code α}
    (onward : ∀ f : Fid, f.Guarded → Spares free (rest f)) : Spares free (withAux fid rest) := by
  refine ⟨trivial, fun found guarded => ?_⟩
  cases found with
  | none => exact spares_step trivial fun _ => trivial
  | some f => exact onward f (guarded f rfl)

theorem spares_userUid : Spares free (userUid fid) := by
  refine spares_ufs fun u _ => Spares.bind (spares_np (.user fid) trivial) fun user => ?_
  cases user with
  | none => exact spares_step trivial fun _ => trivial
  | some user => trivial

theorem spares_npfsSetUser : Spares free (npfsSetUser fid) := by
  refine spares_ufs fun u _ => ?_
  split_ifs
  · trivial
  refine spares_userUid.bind fun uid => Spares.bind (spares_data _) fun euid => ?_
  split_ifs
  · trivial
  refine Spares.bind (spares_data _) fun changed => ?_
  cases changed with
  | error err => exact spares_step trivial fun _ => trivial
  | ok value => trivial

theorem spares_npfsCheckRegular {rest : Code (Option α)} (onward : Spares free rest) :
    Spares free (npfsCheckRegular f rest) := by
  rw [npfsCheckRegular]
  split_ifs
  · exact spares_createRerror
  · exact onward

/-! ## Status -/

theorem spares_mappedGet {path name : CStr} {n : Nat} : Spares free (mappedGet path name n) := by
  refine Spares.bind (spares_sys (.lgetxattr path name n) trivial) fun answer => ?_
  cases answer with
  | error errno =>
      dsimp only
      split_ifs <;> trivial
  | ok found =>
      dsimp only
      split_ifs <;> trivial

theorem spares_mappedStat {path : CStr} {st : Stat} : Spares free (mappedStat path st) := by
  refine spares_mappedGet.bind fun uid => ?_
  cases uid with
  | error err => trivial
  | ok uid =>
  refine spares_mappedGet.bind fun gid => ?_
  cases gid with
  | error err => trivial
  | ok gid =>
  refine spares_mappedGet.bind fun mode => ?_
  cases mode with
  | error err => trivial
  | ok mode =>
  refine spares_mappedGet.bind fun rdev => ?_
  cases rdev <;> trivial

theorem spares_ufsLstat {path : CStr} {mapped : Bool} : Spares free (ufsLstat path mapped) := by
  refine Spares.bind (spares_sys (.lstat path) trivial) fun answer => ?_
  cases answer with
  | error errno => trivial
  | ok st =>
      dsimp only
      split_ifs
      · exact spares_mappedStat.bind fun _ => trivial
      · trivial

/-- A fid that is looked at stays guarded. -/
theorem guarded_fidstat (guarded : f.Guarded) :
    (fidstat fid f).Always Op.Finds (Op.Spares free) (·.2.Guarded) := by
  obtain ⟨mapped, foreign⟩ := guarded
  rw [fidstat, always_bind]
  refine ⟨trivial, fun answer _ => ?_⟩
  cases answer with
  | error errno => exact ⟨mapped, foreign⟩
  | ok st =>
      rw [always_done]
      dsimp only
      rw [if_pos mapped]
      refine (always_bind _ _).mpr (spares_mappedStat.mono fun found _ => ?_)
      exact ⟨⟨mapped, foreign⟩, fun _ _ => ⟨mapped, foreign⟩⟩

theorem spares_withStat {rest : Fid → Code (Option α)} (guarded : f.Guarded)
    (onward : ∀ f : Fid, f.Guarded → Spares free (rest f)) : Spares free (withStat fid f rest) :=
  (always_bind _ _).mpr ((guarded_fidstat guarded).mono fun _ guarded =>
    spares_check fun _ => onward _ guarded)

/-! ## Handlers -/

theorem spares_npfsAttach {afid : Option FidPtr} {aname : List UInt8} :
    Spares free (npfsAttach fid afid aname) := by
  refine spares_npfsSetUser.bind fun _ => ?_
  split_ifs
  · exact spares_fail
  refine spares_ufs fun u mapped => ?_
  have guarded : Fid.Guarded
      { npfsFidalloc (ufsJoin u.treeaux.bytes aname) with omode := 0xFFFFFFFF, mapped := u.mapped } :=
    ⟨mapped, nofun⟩
  refine Spares.bind (spares_setAux guarded) fun _ => spares_withStat guarded fun f _ => ?_
  refine Spares.bind (spares_np _ trivial) fun _ => spares_create.bind fun ret => ?_
  exact Spares.bind (spares_np _ trivial) fun _ => trivial

theorem spares_npfsClone {newfid : FidPtr} : Spares free (npfsClone fid newfid) :=
  spares_withAux fun _ guarded => Spares.bind (spares_setAux ⟨guarded.mapped, nofun⟩) fun _ => trivial

theorem spares_npfsWalk {wname : List UInt8} : Spares free (npfsWalk fid wname) := by
  refine spares_withAux fun f guarded => spares_npfsSetUser.bind fun _ => ?_
  refine spares_withStat guarded fun f guarded => spares_ufsLstat.bind fun st => ?_
  refine spares_check fun st => ?_
  exact Spares.bind (spares_setAux ⟨guarded.mapped, guarded.foreign⟩) fun _ => trivial

theorem spares_openNode {flags : UInt32} {rest : Fid → Code (Option Npfcall)} (guarded : f.Guarded)
    (onward : ∀ f : Fid, f.Guarded → Spares free (rest f)) :
    Spares free (openNode fid f flags rest) := by
  rw [openNode]
  split_ifs
  · refine Spares.bind (spares_data _) fun dir => ?_
    have kept : Fid.Guarded { f with dir := dir.toOption.map (·.number) } :=
      ⟨guarded.mapped, guarded.foreign⟩
    exact Spares.bind (spares_setAux kept) fun _ => spares_check fun _ => spares_withStat kept onward
  · refine Spares.bind (spares_sys _ trivial) fun fd => ?_
    have kept : Fid.Guarded { f with fd := fd.toOption } := ⟨guarded.mapped, guarded.foreign⟩
    exact Spares.bind (spares_setAux kept) fun _ => spares_check fun _ => spares_withStat kept onward

theorem spares_npfsOpen {mode : UInt8} : Spares free (npfsOpen fid mode) := by
  refine spares_withAux fun f guarded => spares_npfsSetUser.bind fun _ => ?_
  refine spares_withStat guarded fun f guarded => spares_openNode guarded fun f guarded => ?_
  exact Spares.bind (spares_setAux ⟨guarded.mapped, guarded.foreign⟩) fun _ => spares_create

theorem spares_npfsLopen {flags : UInt32} : Spares free (npfsLopen fid flags) := by
  refine spares_withAux fun f guarded => spares_npfsSetUser.bind fun _ => ?_
  refine spares_withStat guarded fun f guarded => spares_openNode guarded fun f guarded => ?_
  exact spares_create

/-- What 9P2000.L does not have is refused. -/
theorem spares_npfsCreate {name : List UInt8} {perm : UInt32} {mode : UInt8}
    {extension : List UInt8} : Spares free (npfsCreate fid name perm mode extension) := by
  refine spares_withAux fun f guarded => ?_
  rw [if_pos guarded.mapped]
  exact spares_createRerror

theorem spares_npfsWstat {stat : Npstat} {pkt : List UInt8} :
    Spares free (npfsWstat fid stat pkt) := by
  refine spares_withAux fun f guarded => ?_
  rw [if_pos guarded.mapped]
  exact spares_createRerror

theorem spares_ustat2npwstat {path : CStr} {st : Stat} {dotu : Bool} :
    Spares free (ustat2npwstat path st dotu) := by
  have extension : Spares free (npwstatExtension path st dotu) := by
    unfold npwstatExtension
    dsimp only
    split
    · trivial
    split
    · exact Spares.bind (spares_data _) fun _ => trivial
    split
    · exact spares_ufs fun _ _ => trivial
    · trivial
  exact spares_ufs fun u _ => extension.bind fun _ => trivial

theorem spares_readDirLoop {dir : UInt64} {count turns : Nat} {dotu : Bool} {buf : List UInt8}
    {n : Nat} : Spares free (readDirLoop f dir count dotu turns buf n) := by
  induction turns generalizing buf n with
  | zero => exact spares_step trivial fun _ => trivial
  | succ turns ih =>
      rw [readDirLoop]
      split_ifs
      · refine Spares.bind (spares_data _) fun read => ?_
        cases read.toOption.bind (·.dirent) with
        | none => trivial
        | some dirent =>
            dsimp only
            split_ifs
            · exact ih
            refine Spares.bind (spares_sys _ trivial) fun st => ?_
            cases st with
            | error errno => exact spares_createRerror.bind fun _ => trivial
            | ok st =>
                refine spares_ustat2npwstat.bind fun wstat => ?_
                split_ifs
                · trivial
                · exact ih
      · trivial

theorem spares_rewind {dir offset : UInt64} : Spares free (rewind dir offset) := by
  rw [rewind]
  split_ifs
  · exact Spares.bind (spares_data _) fun _ => trivial
  · trivial

theorem spares_npfsRead {offset : UInt64} {count : UInt32} :
    Spares free (npfsRead fid offset count) := by
  refine spares_withAux fun f _ => spares_create.bind fun ret => spares_npfsSetUser.bind fun _ => ?_
  cases ret with
  | none => exact spares_step trivial fun _ => trivial
  | some ret =>
      refine Spares.bind ?_ fun written => ?_
      · rw [npfsReadData]
        cases f.dir with
        | none =>
            refine Spares.bind (spares_data _) fun read => ?_
            cases read with
            | error errno => exact spares_createRerror.bind fun _ => trivial
            | ok read => trivial
        | some dir =>
            refine spares_rewind.bind fun _ => Spares.bind (spares_np .conn trivial) fun conn => ?_
            exact spares_ufs fun u _ => spares_readDirLoop
      · refine Spares.bind (spares_np .rerror trivial) fun error => ?_
        cases error <;> trivial

theorem spares_npfsWrite {offset : UInt64} {payload : List UInt8} :
    Spares free (npfsWrite fid offset payload) :=
  spares_withAux fun _ _ => spares_npfsSetUser.bind fun _ => Spares.bind (spares_data _) fun _ =>
    spares_check fun _ => spares_create

theorem spares_npfsXattrread {offset : UInt64} {count : UInt32} :
    Spares free (npfsXattrread fid offset count) := by
  refine spares_withAux fun f _ => spares_create.bind fun ret => ?_
  cases ret with
  | none => exact spares_createRerror
  | some ret => trivial

theorem spares_npfsXattrwrite {offset : UInt64} {count : UInt32} {payload : List UInt8} :
    Spares free (npfsXattrwrite fid offset count payload) := by
  refine spares_withAux fun f guarded => ?_
  exact Spares.bind (spares_setAux ⟨guarded.mapped, guarded.foreign⟩) fun _ => spares_create

/-- The attribute that a fid is clunked to is not one of the model's. -/
theorem spares_npfsClunk : Spares free (npfsClunk fid) := by
  refine ⟨trivial, fun found guarded => ?_⟩
  cases found with
  | none => exact spares_create
  | some f =>
  obtain ⟨-, foreign⟩ := guarded f rfl
  cases named : f.xattrname with
  | none => simpa only [named] using spares_create
  | some xattrname =>
      simp only [named]
      refine spares_npfsSetUser.bind fun _ => Spares.bind (spares_np _ trivial) fun omode => ?_
      split_ifs
      · exact Spares.bind (spares_sys _ (.inr (foreign _ named))) fun _ => spares_check fun _ =>
          spares_create
      · exact Spares.bind (spares_sys _ (.inr (foreign _ named))) fun _ => spares_check fun _ =>
          spares_create
      · exact spares_create

theorem spares_npfsRemove : Spares free (npfsRemove fid) :=
  spares_withAux fun _ _ => spares_npfsSetUser.bind fun _ => Spares.bind (spares_sys _ trivial) fun _ =>
    spares_check fun _ => spares_create

theorem spares_npfsStat : Spares free (npfsStat fid) :=
  spares_withAux fun _ guarded => spares_npfsSetUser.bind fun _ => spares_withStat guarded fun _ _ =>
    Spares.bind (spares_np .conn trivial) fun _ => spares_ustat2npwstat.bind fun _ => spares_create

theorem spares_npfsStatfs : Spares free (npfsStatfs fid) :=
  spares_withAux fun _ _ => spares_npfsSetUser.bind fun _ => Spares.bind (spares_data _) fun _ =>
    spares_check fun _ => spares_create

/-! ## Handlers of 9P2000.L -/

theorem spares_byModel {mapped passthrough : Code α} (first : Spares free mapped)
    (second : Spares free passthrough) : Spares free (byModel f mapped passthrough) := by
  rw [byModel]
  split_ifs
  · exact first
  · exact second

/-- Only what makes a file or sets its attributes may write those of the model. -/
theorem spares_mappedPut {path name : CStr} {n : Nat} {val : UInt64} (allowed : free) :
    Spares free (mappedPut path name n val) := spares_sys _ (.inl allowed)

theorem spares_mappedCreate {path : CStr} {uid gid mode : UInt32} {rdev : Option UInt64}
    (allowed : free) : Spares free (mappedCreate path uid gid mode rdev) := by
  refine (spares_mappedPut allowed).bind fun answer => ?_
  cases answer with
  | error err => trivial
  | ok done =>
  refine (spares_mappedPut allowed).bind fun answer => ?_
  cases answer with
  | error err => trivial
  | ok done =>
  refine (spares_mappedPut allowed).bind fun answer => ?_
  cases answer with
  | error err => trivial
  | ok done =>
  cases rdev with
  | none => trivial
  | some rdev => exact spares_mappedPut allowed

theorem spares_npfsLcreated {npath : CStr} {fd : UInt64} {made : Bool}
    {attributes : Code (Except Errno Unit)} (guarded : f.Guarded)
    (gives : Spares free attributes) :
    Spares free (npfsLcreated fid f npath fd made attributes) := by
  obtain ⟨mapped, foreign⟩ := guarded
  have given : Spares free (attributesIf made attributes) := by
    rw [attributesIf]
    split_ifs
    · exact gives
    · trivial
  refine given.bind fun err => ?_
  cases err with
  | error err =>
      refine Spares.bind (spares_data _) fun _ => Spares.bind (spares_setAux ⟨mapped, foreign⟩)
        fun _ => ?_
      exact Spares.bind (spares_sys _ trivial) fun _ => spares_createRerror
  | ok done =>
      have kept : Fid.Guarded { f with path := npath } := ⟨mapped, foreign⟩
      refine (always_bind _ _).mpr ((guarded_fidstat kept).mono fun answer guarded => ?_)
      obtain ⟨err, f⟩ := answer
      cases err with
      | error err =>
          refine Spares.bind (spares_data _) fun _ =>
            Spares.bind (spares_setAux ⟨guarded.mapped, guarded.foreign⟩) fun _ => ?_
          split_ifs
          · exact Spares.bind (spares_sys _ trivial) fun _ => spares_createRerror
          · exact spares_createRerror
      | ok done => exact spares_create

theorem spares_npfsLcreate {name : List UInt8} {flags perm gid : UInt32} (allowed : free) :
    Spares free (npfsLcreate fid name flags perm gid) := by
  refine spares_withAux fun f guarded => spares_withStat guarded fun f guarded => ?_
  refine Spares.bind (spares_sys _ trivial) fun fd => ?_
  have opens : Spares free (openExisting f (ufsJoin f.path.bytes name) (flags ||| O_CREAT) fd) := by
    unfold openExisting
    split
    · trivial
    · split_ifs
      · exact spares_sys _ trivial
      · trivial
  refine opens.bind fun opened => Spares.bind (spares_setAux ⟨guarded.mapped, guarded.foreign⟩)
    fun _ => spares_check fun fd => spares_npfsLcreated ⟨guarded.mapped, guarded.foreign⟩ ?_
  exact spares_userUid.bind fun uid => spares_mappedCreate allowed

theorem spares_writeTarget {fd : UInt64} {turns : Nat} {rest : List UInt8} :
    Spares free (writeTarget fd turns rest) := by
  induction turns generalizing rest with
  | zero => trivial
  | succ turns ih =>
      rw [writeTarget]
      split_ifs
      · trivial
      refine Spares.bind (spares_data _) fun w => ?_
      cases w with
      | error errno => trivial
      | ok w =>
          dsimp only
          split_ifs
          · trivial
          · exact ih

theorem spares_finishNode {path : CStr} {fd : UInt64} {err : Except Errno Unit}
    {attributes : Code (Except Errno Unit)} (gives : Spares free attributes) :
    Spares free (finishNode path fd err attributes) := by
  refine Spares.bind (spares_data _) fun closed => ?_
  have given : Spares free (attributesUnless err (closed.map fun _ => ()) attributes) := by
    unfold attributesUnless
    split
    · exact gives
    · trivial
    · trivial
  refine given.bind fun err => ?_
  cases err with
  | error err => exact Spares.bind (spares_sys _ trivial) fun _ => trivial
  | ok done => trivial

theorem spares_mappedSymlink {target : List UInt8} {path : CStr} {uid gid : UInt32}
    (allowed : free) : Spares free (mappedSymlink target path uid gid) := by
  refine Spares.bind (spares_sys _ trivial) fun fd => ?_
  cases fd with
  | error errno => trivial
  | ok fd => exact spares_writeTarget.bind fun err => spares_finishNode (spares_mappedCreate allowed)

theorem spares_mappedMknod {path : CStr} {perm : UInt32} {rdev : UInt64} {uid gid : UInt32}
    (allowed : free) : Spares free (mappedMknod path perm rdev uid gid) := by
  unfold mappedMknod
  dsimp only
  generalize (if perm &&& S_IFMT = 0 then S_IFREG else perm &&& S_IFMT) = type
  split
  · trivial
  refine Spares.bind (spares_sys _ trivial) fun fd => ?_
  cases fd with
  | error errno => trivial
  | ok fd => exact spares_finishNode (spares_mappedCreate allowed)

theorem spares_replyNode {npath : CStr} {mapped : Bool} {err : Except Errno Unit}
    {constructor : Npqid → Malloc → Option Npfcall} :
    Spares free (replyNode npath mapped err constructor) :=
  spares_check fun _ => spares_ufsLstat.bind fun _ => spares_check fun _ => spares_create

theorem spares_npfsSymlink {name symtgt : List UInt8} {gid : UInt32} (allowed : free) :
    Spares free (npfsSymlink fid name symtgt gid) := by
  refine spares_withAux fun f guarded => Spares.bind (spares_byModel ?_ ?_) fun _ => spares_replyNode
  · exact spares_userUid.bind fun uid => spares_mappedSymlink allowed
  · exact spares_sys _ trivial

theorem spares_npfsMknod {name : List UInt8} {perm major minor gid : UInt32} (allowed : free) :
    Spares free (npfsMknod fid name perm major minor gid) := by
  refine spares_withAux fun f guarded => Spares.bind (spares_byModel ?_ ?_) fun _ => spares_replyNode
  · exact spares_userUid.bind fun uid => spares_mappedMknod allowed
  · exact spares_sys _ trivial

theorem spares_npfsMkdir {name : List UInt8} {perm gid : UInt32} (allowed : free) :
    Spares free (npfsMkdir fid name perm gid) := by
  refine spares_withAux fun f guarded => Spares.bind (spares_sys _ trivial) fun made =>
    spares_check fun _ => Spares.bind (spares_byModel ?_ ?_) fun err => ?_
  · exact spares_userUid.bind fun uid => spares_mappedCreate allowed
  · trivial
  · cases err with
    | error err => exact Spares.bind (spares_sys _ trivial) fun _ => spares_createRerror
    | ok done => exact spares_replyNode

theorem spares_npfsRename {dfid : FidPtr} {name : List UInt8} :
    Spares free (npfsRename fid dfid name) := by
  refine spares_withAux fun f guarded => spares_withAux fun df _ =>
    Spares.bind (spares_sys _ trivial) fun _ => spares_check fun _ => ?_
  have kept : Fid.Guarded { f with path := ufsJoin df.path.bytes name } :=
    ⟨guarded.mapped, guarded.foreign⟩
  exact Spares.bind (spares_setAux kept) fun _ => spares_withStat kept fun _ _ => spares_create

theorem spares_npfsRenameat {newfid : FidPtr} {oname name : List UInt8} :
    Spares free (npfsRenameat fid oname newfid name) :=
  spares_withAux fun _ _ => spares_withAux fun _ _ => Spares.bind (spares_sys _ trivial) fun _ =>
    spares_check fun _ => spares_create

theorem spares_npfsLink {name : List UInt8} : Spares free (npfsLink fid name) :=
  spares_withAux fun _ _ => Spares.bind (spares_sys _ trivial) fun _ => spares_check fun _ =>
    spares_create

theorem spares_npfsUnlinkat {name : List UInt8} : Spares free (npfsUnlinkat fid name) := by
  refine spares_withAux fun f guarded => ?_
  have opens : Spares free (dirFd f) := by
    unfold dirFd
    split
    · trivial
    · exact spares_sys _ trivial
  refine opens.bind fun fd => Spares.bind (spares_setAux ⟨guarded.mapped, guarded.foreign⟩) fun _ =>
    spares_check fun fd => Spares.bind (spares_sys _ trivial) fun unlinked => ?_
  cases unlinked with
  | ok done => exact spares_create
  | error errno =>
      dsimp only
      split_ifs
      · exact Spares.bind (spares_sys _ trivial) fun _ => spares_check fun _ => spares_create
      · exact spares_createRerror

theorem spares_readTarget {fd : UInt64} {max turns : Nat} {buf : List UInt8} :
    Spares free (readTarget fd max turns buf) := by
  induction turns generalizing buf with
  | zero => trivial
  | succ turns ih =>
      rw [readTarget]
      split_ifs
      · refine Spares.bind (spares_data _) fun r => ?_
        cases r with
        | error errno => trivial
        | ok r =>
            dsimp only
            split_ifs
            · trivial
            · exact ih
      · trivial

theorem spares_mappedReadlink {path : CStr} {max : Nat} :
    Spares free (mappedReadlink path max) := by
  refine Spares.bind (spares_sys _ trivial) fun fd => ?_
  cases fd with
  | error errno => trivial
  | ok fd => exact spares_readTarget.bind fun _ => Spares.bind (spares_data _) fun _ => trivial

theorem spares_npfsReadlink : Spares free (npfsReadlink fid) := by
  have host (f : Fid) : Spares free (readHostLink f) :=
    Spares.bind (spares_data _) fun _ => spares_check fun _ => spares_create
  refine spares_withAux fun f guarded => ?_
  split_ifs
  · refine spares_withStat guarded fun f _ => ?_
    split_ifs
    · exact host f
    · exact spares_mappedReadlink.bind fun _ => spares_check fun _ => spares_create
    · exact spares_createRerror
  · exact host f

theorem spares_npfsGetattr : Spares free (npfsGetattr fid) :=
  spares_withAux fun _ guarded => spares_withStat guarded fun _ _ => spares_create

theorem spares_setTimes {attrs : Npattrs} {rest : Code (Option Npfcall)}
    (onward : Spares free rest) : Spares free (setTimes f attrs rest) := by
  rw [setTimes]
  split_ifs
  · exact Spares.bind (spares_data _) fun now => Spares.bind (spares_data _) fun _ =>
      spares_check fun _ => onward
  · exact onward

theorem spares_setRest {attrs : Npattrs} (guarded : f.Guarded) :
    Spares free (setRest fid attrs f) :=
  spares_checkIf (spares_data _) (spares_setTimes (spares_withStat guarded fun _ _ =>
    spares_create))

theorem spares_npfsSetattr {attrs : Npattrs} (allowed : free) :
    Spares free (npfsSetattr fid attrs) := by
  refine spares_withAux fun f guarded => ?_
  rw [if_pos guarded.mapped]
  refine spares_withStat guarded fun f guarded => ?_
  refine spares_checkIf (spares_mappedPut allowed) (spares_checkIf (spares_mappedPut allowed) ?_)
  exact spares_checkIf (spares_mappedPut allowed)
    (spares_checkIf (spares_data _) (spares_setRest guarded))

theorem spares_fetchAgain {query : Nat → Code (Except Errno (Nat × List UInt8))}
    (asks : ∀ size, Spares free (query size)) {turns : Nat} :
    Spares free (fetchAgain query turns) := by
  induction turns with
  | zero => exact spares_step trivial fun _ => trivial
  | succ turns ih =>
      refine (asks 0).bind fun answer => ?_
      cases answer with
      | error errno => trivial
      | ok found =>
      refine (asks _).bind fun answer => ?_
      cases answer with
      | error errno => exact ih
      | ok found =>
          dsimp only
          split_ifs
          · exact ih
          · trivial

theorem spares_npfsXattrwalk {newfid : FidPtr} {name : List UInt8} :
    Spares free (npfsXattrwalk fid newfid name) := by
  refine spares_withAux fun f guarded => spares_npfsCheckRegular ?_
  refine spares_npfsSetUser.bind fun _ => spares_ufs fun u _ => ?_
  have fresh : Fid.Guarded { npfsFidalloc f.path with mapped := f.mapped } :=
    ⟨guarded.mapped, nofun⟩
  refine Spares.bind (spares_setAux fresh) fun _ => Spares.bind (spares_np _ trivial) fun _ => ?_
  refine Spares.bind ?_ fun found => ?_
  · have lists (size : Nat) : Spares free (sys (.llistxattr f.path size)) := spares_sys _ trivial
    have gets (size : Nat) : Spares free (sys (.lgetxattr f.path (npStrdup name) size)) :=
      spares_sys _ trivial
    unfold xattrValue
    split
    · refine Spares.bind (spares_fetchAgain lists) fun _ => spares_check fun found => ?_
      dsimp only
      split_ifs <;> trivial
    split
    · exact spares_createRerror
    · exact Spares.bind (spares_fetchAgain gets) fun _ => spares_check fun _ => trivial
  · cases found with
    | none => trivial
    | some found =>
        refine Spares.bind (spares_setAux ⟨fresh.mapped, fresh.foreign⟩) fun _ => ?_
        exact Spares.bind (spares_np _ trivial) fun _ => spares_create

theorem spares_npfsXattrcreate {name : List UInt8} {size : UInt64} {flags : UInt32} :
    Spares free (npfsXattrcreate fid name size flags) := by
  refine spares_withAux fun f guarded => spares_npfsCheckRegular ?_
  by_cases refused : f.mapped ∧ mappedName name
  · rw [if_pos refused]
    exact spares_createRerror
  rw [if_neg refused]
  refine Spares.bind (spares_sys _ trivial) fun xdata => ?_
  cases xdata with
  | none => exact spares_createRerror
  | some xdata =>
      refine Spares.bind (spares_setAux ⟨guarded.mapped, fun named given => ?_⟩) fun _ => ?_
      · obtain rfl := Option.some.inj given
        rw [mappedName_npStrdup]
        exact fun mapped => refused ⟨guarded.mapped, mapped⟩
      · exact Spares.bind (spares_np _ trivial) fun _ => spares_create

theorem spares_readdirLoop {dir : UInt64} {count turns : Nat} {buf : List UInt8} {n : Nat} :
    Spares free (readdirLoop f dir count turns buf n) := by
  induction turns generalizing buf n with
  | zero => exact spares_step trivial fun _ => trivial
  | succ turns ih =>
      rw [readdirLoop]
      split
      · refine Spares.bind (spares_data _) fun diroff => Spares.bind (spares_data _) fun read => ?_
        cases read.toOption.bind (·.dirent) with
        | none => trivial
        | some dirent =>
            have named : Spares free (direntQid f dirent) := by
              rw [direntQid]
              split_ifs
              · exact Spares.bind (spares_sys _ trivial) fun _ => trivial
              · trivial
            dsimp only
            split
            · exact ih
            refine named.bind fun qid => ?_
            cases qid with
            | error errno => exact spares_createRerror
            | ok qid =>
                dsimp only
                split
                · exact Spares.bind (spares_data _) fun _ => trivial
                · exact ih
      · trivial

theorem spares_npfsReaddir {offset : UInt64} {count : UInt32} :
    Spares free (npfsReaddir fid offset count) := by
  refine spares_withAux fun f guarded => spares_create.bind fun ret => ?_
  have opens : Spares free (openDir f) := by
    unfold openDir
    split
    · trivial
    · exact Spares.bind (spares_data _) fun _ => trivial
  refine spares_npfsSetUser.bind fun _ => opens.bind fun dir =>
    Spares.bind (spares_setAux ⟨guarded.mapped, guarded.foreign⟩) fun _ => spares_check fun dir =>
      spares_rewind.bind fun _ => ?_
  cases ret with
  | none => exact spares_step trivial fun _ => trivial
  | some ret =>
      refine spares_ufs fun u _ => spares_readdirLoop.bind fun written => ?_
      cases written <;> trivial

theorem spares_npfsFsync : Spares free (npfsFsync fid) := by
  refine spares_withAux fun f _ => ?_
  have opens : Spares free (syncFd f) := by
    unfold syncFd
    split
    · trivial
    · exact Spares.bind (spares_data _) fun _ => trivial
    · trivial
  exact opens.bind fun _ => spares_check fun _ => Spares.bind (spares_data _) fun _ =>
    spares_check fun _ => spares_create

theorem spares_npfsFlock {type : UInt8} {flags : UInt32} {offset length : UInt64}
    {procid : UInt32} : Spares free (npfsFlock fid type flags offset length procid) :=
  spares_withAux fun _ _ => Spares.bind (spares_data _) fun _ => spares_check fun _ =>
    spares_create

theorem spares_npfsGetlock {type : UInt8} {offset length : UInt64} {procid : UInt32} :
    Spares free (npfsGetlock fid type offset length procid) :=
  spares_withAux fun _ _ => Spares.bind (spares_data _) fun _ => spares_check fun _ =>
    spares_create

theorem spares_npfsFiddestroy : Spares free (npfsFiddestroy fid) := by
  have closes (handle : Option UInt64) (call : UInt64 → DataCall) :
      Spares free (ifOpen handle call) := by
    cases handle with
    | none => trivial
    | some handle => exact Spares.bind (spares_data _) fun _ => trivial
  refine spares_step trivial fun found => ?_
  cases found with
  | none => trivial
  | some f => exact (closes f.fd .close).bind fun _ => closes f.dir .closedir

/-- Making a file and setting its attributes are the only callbacks that may write the attributes of
the model. -/
def sets : Callback → Bool
  | .lcreate .. | .symlink .. | .mknod .. | .mkdir .. | .setattr .. => true
  | _ => false

theorem spares_ufsStart (callback : Callback) : Spares (sets callback) (ufsStart callback) := by
  cases callback with
  | attach fid afid uname aname => exact spares_npfsAttach
  | clone fid newfid => exact spares_npfsClone
  | walk fid wname => exact spares_npfsWalk
  | openFid fid mode => exact spares_npfsOpen
  | create fid name perm mode extension => exact spares_npfsCreate
  | read fid offset count => exact spares_npfsRead
  | write fid offset count data => exact spares_npfsWrite
  | clunk fid => exact spares_npfsClunk
  | remove fid => exact spares_npfsRemove
  | stat fid => exact spares_npfsStat
  | wstat fid stat pkt => exact spares_npfsWstat
  | statfs fid => exact spares_npfsStatfs
  | lopen fid flags => exact spares_npfsLopen
  | lcreate fid name flags perm gid => exact spares_npfsLcreate rfl
  | symlink dfid name symtgt gid => exact spares_npfsSymlink rfl
  | mknod dfid name perm major minor gid => exact spares_npfsMknod rfl
  | rename fid dfid name => exact spares_npfsRename
  | readlink fid => exact spares_npfsReadlink
  | getattr fid mask => exact spares_npfsGetattr
  | setattr fid attrs => exact spares_npfsSetattr rfl
  | xattrwalk fid newfid name => exact spares_npfsXattrwalk
  | xattrcreate fid name size flags => exact spares_npfsXattrcreate
  | xattrread fid offset count => exact spares_npfsXattrread
  | xattrwrite fid offset count data => exact spares_npfsXattrwrite
  | readdir dfid offset count => exact spares_npfsReaddir
  | fsync fid => exact spares_npfsFsync
  | flock fid type flags offset length procid clientid => exact spares_npfsFlock
  | getlock fid type offset length procid clientid => exact spares_npfsGetlock
  | link dfid fid name => exact spares_npfsLink
  | mkdir dfid name perm gid => exact spares_npfsMkdir rfl
  | renameat dfid oname newfid name => exact spares_npfsRenameat
  | unlinkat dfid name => exact spares_npfsUnlinkat
  | fiddestroy fid => exact spares_npfsFiddestroy
  | uname2user uname => exact spares_ufs fun _ _ => trivial
  | uid2user uid => exact spares_ufs fun _ _ => trivial
  | startauth | checkauth | authRead | authWrite | authClunk => trivial

end Spares

end Ufs

end Npfs
