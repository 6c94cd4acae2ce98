import Npfs.AttributeList
import Npfs.UfsRun

/-!
# Code that only reads

A piece of the code of `libufs` that makes none of the calls that change a file or a name gets the
same answers from first to last. What it finds out is said by what the host has at its beginning.
-/

namespace Npfs

namespace Ufs

open Program

/-- The `Fid` of a fid. -/
def auxOf (s : State) (fid : FidPtr) : Option Fid := s.fids.get fid >>= (·.aux)

/-- The user of a fid. -/
def owner (s : State) (fid : FidPtr) : Option UserPtr := s.fids.get fid >>= (·.user)

/-- The number of the user of a fid. -/
def uidOf (u : Ufssrv) (s : State) (fid : FidPtr) : UInt32 := ((owner s fid).map u.uid).getD 0

/-- An attribute of the file that a path names. -/
def xattrOf (host : Host) (path name : CStr) : Option (List UInt8) :=
  host.file path >>= AList.lookup name

/-- The same files have the same names, and the fids the same users. -/
structure Calm (s s' : State) : Prop where
  files : s'.world.files = s.world.files
  names : s'.world.names = s.world.names
  owner : ∀ fid, owner s' fid = owner s fid

theorem Calm.refl (s : State) : Calm s s := ⟨rfl, rfl, fun _ => rfl⟩

theorem Calm.trans {s s' s'' : State} (first : Calm s s') (second : Calm s' s'') : Calm s s'' :=
  ⟨second.files.trans first.files, second.names.trans first.names,
    fun fid => (second.owner fid).trans (first.owner fid)⟩

theorem Calm.file {s s' : State} (calm : Calm s s') (path : CStr) :
    s'.world.file path = s.world.file path := by
  rw [Host.file, Host.file, calm.files, calm.names]

/-- The operation changes neither the files nor what the paths name nor whose the fids are. -/
def Op.Passive : Op → Prop
  | .sys (.lstat _) | .sys (.lgetxattr ..) | .sys (.llistxattr ..) | .sys (.malloc _)
  | .sys (.data _) => True
  | .np (.user _) | .np (.omode _) | .np (.setOmode ..) | .np (.fidIncref _) | .np (.werror _)
  | .np .malloc | .np .conn | .np .crash => True
  | .setAux .. | .ufs => True
  | _ => False

/-- What the operations that read tell of a state. -/
def Op.Tells (u : Ufssrv) (s : State) : (op : Op) → op.Reply → Prop
  | .sys (.lgetxattr path name size), answer =>
    (∀ found, answer = .ok found →
      ∃ value, xattrOf s.world path name = some value ∧ Host.fetch size value = .ok found) ∧
    ∀ errno, answer = .error errno → (xattrOf s.world path name).isSome →
      errno ∉ [ENODATA, EOPNOTSUPP, EPERM]
  | .sys (.llistxattr path size), answer => ∀ found, answer = .ok found →
    ∃ xattrs, s.world.file path = some xattrs ∧ Host.fetch size xattrs.list = .ok found
  | .np (.user fid), user => user = owner s fid
  | .ufs, settings => settings = u
  | _, _ => True

/-- A piece of code that only reads, with a result that the state determines. -/
abbrev Reads {α : Type} (u : Ufssrv) (s : State) (post : α → Prop) (code : Code α) : Prop :=
  code.Always (Op.Tells u s) Op.Passive post

section Run

variable {u : Ufssrv} {s s' : State} {fid : FidPtr} {α : Type}

theorem load_aux {f : Fid} (found : auxOf s fid = some f) :
    s.load fid (·.aux) none = (some f, s) := by
  obtain ⟨g, live, aux⟩ := Option.bind_eq_some_iff.mp found
  simp [Session.load, live, aux]

theorem load_none {β : Type} {field : Npfid Fid → Option β}
    (missing : s.fids.get fid >>= field = none) : (s.load fid field none).1 = none := by
  unfold Session.load
  split
  · rename_i g live
    simpa [live] using missing
  · rfl

theorem load_user : (s.load fid (·.user) none).1 = owner s fid := by
  unfold Session.load owner
  split <;> rename_i live <;> rw [live] <;> rfl

theorem calm_load {β : Type} {field : Npfid Fid → β} {junk : β} :
    Calm s (s.load fid field junk).2 := by
  unfold Session.load
  split <;> exact ⟨rfl, rfl, fun _ => rfl⟩

theorem calm_modify {change : Npfid Fid → Npfid Fid} (kept : ∀ f, (change f).user = f.user) :
    Calm s (s.modify fid change) := by
  refine ⟨rfl, rfl, fun other => ?_⟩
  simp only [owner, Session.modify, Cells.get_modify]
  split_ifs with same
  · subst same
    cases s.fids.get other with
    | none => rfl
    | some f => exact kept f
  · rfl

theorem tells_exec {call : SysCall} (calm : Calm s s') :
    Op.Tells u s (.sys call) (s'.world.exec call).1 := by
  cases call with
  | lgetxattr path name size =>
      have same : s'.world.next.2.file path = s.world.file path := calm.file path
      have answer : (s'.world.exec (.lgetxattr path name size)).1 =
          s'.world.next.2.getXattr s'.world.next.1 path name size := rfl
      rw [answer, Host.getXattr, same]
      have attr : xattrOf s.world path name = s.world.file path >>= AList.lookup name := rfl
      simp only [Op.Tells]
      rw [attr]
      cases s.world.file path with
      | none => simp
      | some xattrs =>
      simp only [Option.bind_eq_bind, Option.bind_some]
      cases xattrs.lookup name with
      | none => simp
      | some value =>
      simp only [Option.some.injEq, exists_eq_left']
      split
      · rename_i error given
        refine ⟨fun found same => ?_, ?_⟩
        · cases same
        rintro _ ⟨⟩ -
        exact of_decide_eq_true (Option.filter_eq_some_iff.mp given).2
      · refine ⟨fun found same => same, fun errno failed _ => ?_⟩
        unfold Host.fetch at failed
        split_ifs at failed <;> cases failed <;> decide
  | llistxattr path size =>
      intro found answer
      have same : s'.world.next.2.file path = s.world.file path := calm.file path
      unfold Host.exec at answer
      dsimp only at answer
      rw [same] at answer
      split at answer
      · cases answer
      · cases answer
      · rename_i xattrs file _
        exact ⟨xattrs, file, answer⟩
  | _ => trivial

theorem calm_execOp {op : Op} (passive : op.Passive) : Calm s (execOp u op s).2 := by
  cases op with
  | sys call =>
      cases call with
      | lstat | lgetxattr | llistxattr | malloc | data => exact ⟨rfl, rfl, fun _ => rfl⟩
      | _ => exact passive.elim
  | aux fid => exact passive.elim
  | setAux => exact calm_modify fun _ => rfl
  | ufs => exact .refl s
  | np op =>
      cases op with
      | user | omode => exact calm_load
      | setOmode | fidIncref => exact calm_modify fun _ => rfl
      | werror | malloc | conn | crash => exact ⟨rfl, rfl, fun _ => rfl⟩
      | _ => exact passive.elim

theorem tells_execOp {op : Op} (calm : Calm s s') : Op.Tells u s op (execOp u op s').1 := by
  cases op with
  | sys call => exact tells_exec calm
  | aux | setAux => trivial
  | ufs => rfl
  | np op =>
      cases op with
      | user fid => exact load_user.trans (calm.owner fid)
      | _ => trivial

theorem Reads.run {post : α → Prop} {code : Code α} (reads : Reads u s post code)
    (calm : Calm s s') :
    post (code.run (execOp u) s').1 ∧ Calm s (code.run (execOp u) s').2 := by
  have told : ∀ op s', Calm s s' → op.Passive → Op.Tells u s op (execOp u op s').1 :=
    fun _ _ calm _ => tells_execOp calm
  have kept : ∀ op s', Calm s s' → op.Passive → Calm s (execOp u op s').2 :=
    fun _ _ calm passive => calm.trans (calm_execOp passive)
  have result := Always.run reads told kept calm
  exact ⟨result.1, result.2.1⟩

theorem run_withAux [Inhabited α] {rest : Fid → Code α} {f : Fid} (found : auxOf s fid = some f) :
    (withAux fid rest).run (execOp u) s = (rest f).run (execOp u) s := by
  rw [withAux, run_step, show execOp u (.aux fid) s = (some f, s) from load_aux found]

@[simp] theorem ensures_ufs {post : α → State → Prop} {rest : Ufssrv → Code α} :
    Ensures (execOp u) post (ufs >>= rest) s ↔ Ensures (execOp u) post (rest u) s := Iff.rfl

@[simp] theorem ensures_sys {call : SysCall} {post : α → State → Prop} {rest : call.Reply → Code α} :
    Ensures (execOp u) post (sys call >>= rest) s ↔
      Ensures (execOp u) post (rest (s.world.exec call).1)
        { s with world := (s.world.exec call).2 } := Iff.rfl

@[simp] theorem ensures_setAux {aux : Fid} {post : α → State → Prop} {rest : Unit → Code α} :
    Ensures (execOp u) post (setAux fid aux >>= rest) s ↔
      Ensures (execOp u) post (rest ()) (s.modify fid fun f => { f with aux := some aux }) := Iff.rfl

@[simp] theorem ensures_np {op : Npfs.Op} {post : α → State → Prop} {rest : op.Reply → Code α} :
    Ensures (execOp u) post (np op >>= rest) s ↔
      Ensures (execOp u) post (rest (Npfs.exec env op s).1) (Npfs.exec env op s).2 := Iff.rfl

/-- A function that uses the `Fid` of a fid either finds it, or uses a null pointer and returns. -/
theorem ensures_withAux [Inhabited α] {post : α → State → Prop} {rest : Fid → Code α}
    (missing : auxOf s fid = none → post default { s with fault := true })
    (found : ∀ f, auxOf s fid = some f → Ensures (execOp u) post (rest f) s) :
    Ensures (execOp u) post (withAux fid rest) s := by
  cases known : auxOf s fid with
  | some f =>
      rw [Ensures, run_withAux known]
      exact found f known
  | none =>
      have stopped : (withAux fid rest).run (execOp u) s = (default, { s with fault := true }) := by
        have step : execOp u (.aux fid) s = s.load fid (·.aux) none := rfl
        rw [withAux, run_step, step, Session.load]
        cases live : s.fids.get fid with
        | none => rfl
        | some f =>
            have unset : f.aux = none := by simpa [auxOf, live] using known
            simp only [unset]
            rfl
      rw [Ensures, stopped]
      exact missing known

end Run

section Reads

variable {u : Ufssrv} {s : State} {fid : FidPtr} {α : Type}

theorem Reads.bind {β : Type} {post : β → Prop} {first : Code α} {rest : α → Code β}
    {middle : α → Prop} (reads : Reads u s middle first)
    (onward : ∀ value, middle value → Reads u s post (rest value)) :
    Reads u s post (first >>= rest) :=
  (always_bind _ _).mpr (reads.mono onward)

theorem reads_data (call : DataCall) : Reads u s (fun _ => True) (data call) :=
  ⟨trivial, fun _ _ => trivial⟩

theorem reads_createRerror {post : Option α → Prop} {ecode : Errno} (none : post none) :
    Reads u s post (createRerror ecode : Code (Option α)) :=
  ⟨trivial, fun _ _ => ⟨trivial, fun _ _ => none⟩⟩

theorem reads_ufs {post : α → Prop} {rest : Ufssrv → Code α}
    (onward : Reads u s post (rest u)) : Reads u s post (ufs >>= rest) := by
  refine ⟨trivial, fun settings same => ?_⟩
  obtain rfl : settings = u := same
  exact onward

theorem reads_userUid : Reads u s (· = uidOf u s fid) (userUid fid) := by
  refine reads_ufs ⟨trivial, fun user same => ?_⟩
  obtain rfl : user = owner s fid := same
  cases known : owner s fid with
  | none =>
      have junk : 0 = uidOf u s fid := by simp [uidOf, known]
      exact ⟨trivial, fun _ _ => junk⟩
  | some user =>
      have number : u.uid user = uidOf u s fid := by simp [uidOf, known]
      exact number

theorem reads_npfsSetUser : Reads u s (fun _ => True) (npfsSetUser fid) := by
  refine reads_ufs ?_
  split_ifs
  · trivial
  refine reads_userUid.bind fun uid _ => (reads_data _).bind fun euid _ => ?_
  split_ifs
  · trivial
  refine (reads_data _).bind fun changed _ => ?_
  cases changed with
  | ok value => trivial
  | error err => exact ⟨trivial, fun _ _ => trivial⟩

end Reads

end Ufs

end Npfs
