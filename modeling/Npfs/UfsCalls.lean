import Npfs.UfsDotl

/-!
# What the functions of `libufs` do

A table of the operations that each function of `libufs` performs: which paths its system calls are
handed, and what it leaves in the `Fid` of a fid. A function knows the `Fid`s that it reads, and makes
new paths out of theirs and the names that it is given.
-/

namespace Npfs

/-- The files that a call on data names. -/
def DataCall.paths : DataCall → List CStr
  | .opendir path | .readlink path _ | .truncate path _ | .utimes path _ _ _ _ | .utime path _ _
  | .chmod path _ | .chown path _ _ | .lchown path _ _ | .statfs path => [path]
  | .fdopendir _ | .close _ | .closedir _ | .pread .. | .pwrite .. | .read .. | .write ..
  | .rewinddir _ | .telldir _ | .seekdir .. | .readdir _ | .fsync _ | .dirfd _ | .lock ..
  | .gettimeofday | .geteuid | .changeUser _ => []

/-- The files that a system call names.  The target of a symbolic link is a text, and the name in
`unlinkat` belongs to its descriptor. -/
def SysCall.paths : SysCall → List CStr
  | .lstat path | .lgetxattr path _ _ | .lsetxattr path _ _ _ | .lremovexattr path _
  | .llistxattr path _ | .open path _ _ | .mkdir path _ | .symlink _ path | .mknod path _ _
  | .unlink path | .rmdir path | .remove path => [path]
  | .rename old new | .link old new => [old, new]
  | .unlinkat .. | .malloc _ => []
  | .data call => call.paths

namespace Ufs

open Program

/-- The `Fid` names another file, and is about the same attribute.  Its descriptor is the one that it
had, or has been handed out since. -/
structure Fid.Moves (f : Fid) (handed : UInt64 → Prop) (path : CStr) (f' : Fid) : Prop where
  path : f'.path = path
  mapped : f'.mapped = f.mapped
  xattrname : f'.xattrname = f.xattrname
  xattrflags : f'.xattrflags = f.xattrflags
  xattrsz : f'.xattrsz = f.xattrsz
  xattrdata : f'.xattrdata = f.xattrdata
  fd : ∀ d, f'.fd = some d → f.fd = some d ∨ handed d

/-- The `Fid` is about the same file and the same attribute. -/
abbrev Fid.Stays (f : Fid) (handed : UInt64 → Prop) (f' : Fid) : Prop := f.Moves handed f.path f'

theorem Fid.Moves.trans {f f' f'' : Fid} {handed : UInt64 → Prop} {path path' : CStr}
    (first : f.Moves handed path f') (second : f'.Moves handed path' f'') :
    f.Moves handed path' f'' where
  path := second.path
  mapped := second.mapped.trans first.mapped
  xattrname := second.xattrname.trans first.xattrname
  xattrflags := second.xattrflags.trans first.xattrflags
  xattrsz := second.xattrsz.trans first.xattrsz
  xattrdata := second.xattrdata.trans first.xattrdata
  fd d open_ := (second.fd d open_).elim (first.fd d) .inr

theorem Fid.Moves.stays {f f' f'' : Fid} {handed : UInt64 → Prop} {path : CStr}
    (first : f.Moves handed path f') (second : f'.Stays handed f'') : f.Moves handed path f'' :=
  first.trans (first.path ▸ second)

/-- An operation that names no file and changes no `Fid`, and that a function of `libufs` may
perform at any time. -/
def Op.Plain : Op → Prop
  | .sys (.malloc _) => True
  | .sys (.data call) => call.paths = []
  | .aux _ | .ufs => True
  | .np (.fidFind _) | .np (.omode _) | .np (.user _) | .np (.setOmode ..) | .np (.setType ..)
  | .np (.werror _) | .np .rerror | .np .conn | .np .malloc | .np .crash => True
  | _ => False

section Pieces

variable {possible : (op : Op) → op.Reply → Prop} {ok : Op → Prop} {α : Type} {fid : FidPtr}
  {f : Fid} {path : CStr}

theorem always_userUid (plain : ∀ op, op.Plain → ok op) :
    (userUid fid).Always possible ok fun _ => True := by
  refine ⟨plain _ trivial, fun u _ => ⟨plain _ trivial, fun user _ => ?_⟩⟩
  cases user with
  | none => exact ⟨plain _ trivial, fun _ _ => trivial⟩
  | some user => trivial

theorem always_npfsSetUser (plain : ∀ op, op.Plain → ok op) :
    (npfsSetUser fid).Always possible ok fun _ => True := by
  refine (always_bind _ _).mpr ⟨plain _ trivial, fun u _ => always_done.mpr ?_⟩
  split
  · trivial
  refine (always_bind _ _).mpr ((always_userUid plain).mono fun uid _ => ?_)
  refine (always_bind _ _).mpr ⟨plain _ rfl, fun euid _ => always_done.mpr ?_⟩
  split
  · trivial
  refine (always_bind _ _).mpr ⟨plain _ rfl, fun changed _ => always_done.mpr ?_⟩
  cases changed with
  | error errno => exact ⟨plain _ trivial, fun _ _ => trivial⟩
  | ok done => trivial

theorem always_createRerror (plain : ∀ op, op.Plain → ok op) {ecode : Errno} :
    (createRerror ecode : Code (Option α)).Always possible ok fun _ => True :=
  ⟨plain _ trivial, fun _ _ => ⟨plain _ trivial, fun _ _ => trivial⟩⟩

theorem always_mappedGet (fetches : ∀ name n, ok (.sys (.lgetxattr path name n))) {name : CStr}
    {n : Nat} : (mappedGet path name n).Always possible ok fun _ => True := by
  refine (always_bind _ _).mpr ⟨fetches name n, fun answer _ => always_done.mpr ?_⟩
  cases answer with
  | error errno =>
      dsimp only
      split_ifs <;> trivial
  | ok found =>
      dsimp only
      split_ifs <;> trivial

theorem always_mappedStat (fetches : ∀ name n, ok (.sys (.lgetxattr path name n))) {st : Stat} :
    (mappedStat path st).Always possible ok fun _ => True := by
  refine (always_bind _ _).mpr ((always_mappedGet fetches).mono fun uid _ => ?_)
  cases uid with
  | error err => trivial
  | ok uid =>
  refine (always_bind _ _).mpr ((always_mappedGet fetches).mono fun gid _ => ?_)
  cases gid with
  | error err => trivial
  | ok gid =>
  refine (always_bind _ _).mpr ((always_mappedGet fetches).mono fun mode _ => ?_)
  cases mode with
  | error err => trivial
  | ok mode =>
  refine (always_bind _ _).mpr ((always_mappedGet fetches).mono fun rdev _ => ?_)
  cases rdev <;> trivial

theorem always_ufsLstat (looks : ok (.sys (.lstat path)))
    (fetches : ∀ name n, ok (.sys (.lgetxattr path name n))) {mapped : Bool} :
    (ufsLstat path mapped).Always possible ok fun _ => True := by
  refine (always_bind _ _).mpr ⟨looks, fun answer _ => always_done.mpr ?_⟩
  cases answer with
  | error errno => trivial
  | ok st =>
      dsimp only
      split_ifs
      · exact (always_bind _ _).mpr ((always_mappedStat fetches).mono fun _ _ => trivial)
      · trivial

/-- The fid that is looked at is about the same file afterwards. -/
theorem always_fidstat {handed : UInt64 → Prop} (looks : ok (.sys (.lstat f.path)))
    (fetches : ∀ name n, ok (.sys (.lgetxattr f.path name n)))
    (stores : ∀ f', f.Stays handed f' → ok (.setAux fid f')) :
    (fidstat fid f).Always possible ok fun found => f.Stays handed found.2 := by
  have same : f.Stays handed f := ⟨rfl, rfl, rfl, rfl, rfl, rfl, fun _ => .inl⟩
  refine (always_bind _ _).mpr ⟨looks, fun answer _ => always_done.mpr ?_⟩
  cases answer with
  | error errno => exact same
  | ok st =>
      have stays (st' : Stat) : f.Stays handed { f with stat := st', hmode := st.mode } :=
        ⟨rfl, rfl, rfl, rfl, rfl, rfl, fun _ => .inl⟩
      dsimp only
      split_ifs
      · refine (always_bind _ _).mpr ((always_mappedStat fetches).mono fun found _ => ?_)
        exact ⟨stores _ (stays _), fun _ _ => stays _⟩
      · exact ⟨stores _ (stays _), fun _ _ => stays _⟩

end Pieces

/-- A system call about the files that it names, which sets no attribute but those of the mapped id
model. -/
def Bare : SysCall → Prop
  | .lsetxattr _ name _ _ => mappedName name.bytes
  | .lremovexattr .. | .unlinkat .. | .malloc _ => False
  | _ => True

section Table

variable (u : Ufssrv) (K : FidPtr → Fid → Prop) (R : (call : SysCall) → call.Reply → Prop)

/-- A descriptor that the host may have handed out. -/
def Handed (d : UInt64) : Prop := ∃ path flags mode, R (.open path flags mode) (.ok d)

/-- What the operations answer: a `Fid` that is known, the settings of the server, and what is
possible for a system call. -/
def Op.Told : (op : Op) → op.Reply → Prop
  | .sys call, reply => R call reply
  | .aux fid, found => ∀ f ∈ found, K fid f
  | .ufs, settings => settings = u
  | _, _ => True

/-- The paths that a function of `libufs` makes. -/
inductive Aims : Callback → CStr → Prop
  | attach {fid afid uname aname} :
      Aims (.attach fid afid uname aname) (ufsJoin u.treeaux.bytes aname)
  | walk {fid wname f} (known : K fid f) : Aims (.walk fid wname) (ufsJoin f.path.bytes wname)
  | create {fid name perm mode extension f} (known : K fid f) :
      Aims (.create fid name perm mode extension) (ufsJoin f.path.bytes name)
  | lcreate {fid name flags perm gid f} (known : K fid f) :
      Aims (.lcreate fid name flags perm gid) (ufsJoin f.path.bytes name)
  | symlink {fid name target gid f} (known : K fid f) :
      Aims (.symlink fid name target gid) (ufsJoin f.path.bytes name)
  | mknod {fid name perm major minor gid f} (known : K fid f) :
      Aims (.mknod fid name perm major minor gid) (ufsJoin f.path.bytes name)
  | mkdir {fid name perm gid f} (known : K fid f) :
      Aims (.mkdir fid name perm gid) (ufsJoin f.path.bytes name)
  | rename {fid dfid name f} (known : K dfid f) :
      Aims (.rename fid dfid name) (ufsJoin f.path.bytes name)
  | renameatOld {dfid oname newfid name f} (known : K dfid f) :
      Aims (.renameat dfid oname newfid name) (ufsJoin f.path.bytes oname)
  | renameatNew {dfid oname newfid name f} (known : K newfid f) :
      Aims (.renameat dfid oname newfid name) (ufsJoin f.path.bytes name)
  | link {dfid fid name f} (known : K dfid f) : Aims (.link dfid fid name) (ufsJoin f.path.bytes name)
  | wstat {fid stat pkt f} (known : K fid f) : Aims (.wstat fid stat pkt)
      (ufsJoin (dirname f.path) (Npfcall.text { (default : Npfcall) with pkt } stat.name))
  /-- An entry of a directory that is read. -/
  | read {fid offset count f dir r dirent} (known : K fid f)
      (found : R (.data (.readdir dir)) (.ok r)) (entry : r.dirent = some dirent)
      (proper : isDots dirent.name = false) :
      Aims (.read fid offset count) (ufsJoin f.path.bytes dirent.name.bytes)
  | readdir {fid offset count f dir r dirent} (known : K fid f)
      (found : R (.data (.readdir dir)) (.ok r)) (entry : r.dirent = some dirent)
      (proper : isDots dirent.name = false) :
      Aims (.readdir fid offset count) (ufsJoin f.path.bytes dirent.name.bytes)

/-- A path that a function of `libufs` hands to a system call. -/
def Names (callback : Callback) (path : CStr) : Prop :=
  (∃ fid f, K fid f ∧ f.path = path) ∨ Aims u K R callback path

/-- The operations of the functions of `libufs`. -/
inductive Does (c : Callback) : Op → Prop
  | plain {op} (plain : op.Plain) : Does c op
  | sys {call} (paths : ∀ path ∈ call.paths, Names u K R c path) (bare : Bare call) : Does c (.sys call)
  /-- Attaching and `Txattrwalk` give the fid that they make the reference of the client. -/
  | attaches {fid afid uname aname} (callback : c = .attach fid afid uname aname) :
      Does c (.np (.fidIncref fid))
  | describes {fid newfid name} (callback : c = .xattrwalk fid newfid name) :
      Does c (.np (.fidIncref newfid))
  | stays {fid f f'} (known : K fid f) (same : f.Stays (Handed R) f') : Does c (.setAux fid f')
  | moves {fid f f' path} (known : K fid f) (aims : Aims u K R c path)
      (moved : f.Moves (Handed R) path f') :
      Does c (.setAux fid f')
  | attached {fid afid uname aname f} (callback : c = .attach fid afid uname aname)
      (fresh : Fid.Stays { npfsFidalloc (ufsJoin u.treeaux.bytes aname) with mapped := u.mapped }
        (Handed R) f) :
      Does c (.setAux fid f)
  | cloned {fid newfid f} (callback : c = .clone fid newfid) (known : K fid f) :
      Does c (.setAux newfid { npfsFidalloc f.path with mapped := f.mapped })
  | fetches {fid newfid name f} (callback : c = .xattrwalk fid newfid name) (known : K fid f) :
      Does c (.setAux newfid { npfsFidalloc f.path with mapped := f.mapped })
  | fetched {fid newfid name f n buf} (callback : c = .xattrwalk fid newfid name) (known : K fid f) :
      Does c (.setAux newfid { npfsFidalloc f.path with
        mapped := f.mapped, xattrsz := n, xattrdata := some buf })
  | xattrcreated {fid name size flags f data} (callback : c = .xattrcreate fid name size flags)
      (known : K fid f)
      (memory : R (.malloc (if size = 0 then 1 else size.toNat)) (some data)) :
      Does c (.setAux fid { f with
        xattrname := some (npStrdup name), xattrflags := flags, xattrsz := size
        xattrdata := some data })
  | xattrwritten {fid offset count payload f} (callback : c = .xattrwrite fid offset count payload)
      (known : K fid f) :
      Does c (.setAux fid { f with
        xattrdata := f.xattrdata.map fun xattrdata =>
          store xattrdata offset.toNat (payload.take (xattrCount f offset count).toNat) })
  | commits {fid f name} (callback : c = .clunk fid) (known : K fid f)
      (named : f.xattrname = some name) (sized : f.xattrsz ≠ 0) :
      Does c (.sys (.lsetxattr f.path name ((f.xattrdata.getD []).take f.xattrsz.toNat) f.xattrflags))
  | clears {fid f name} (callback : c = .clunk fid) (known : K fid f)
      (named : f.xattrname = some name) (unsized : f.xattrsz = 0) :
      Does c (.sys (.lremovexattr f.path name))
  | unlinks {fid name f fd removedir} (callback : c = .unlinkat fid name) (known : K fid f)
      (opened : f.fd = some fd ∨ R (.open f.path 0 0) (.ok fd)) :
      Does c (.sys (.unlinkat fd (npStrdup name) removedir))

/-- A piece of a function of `libufs` that keeps to the table. -/
abbrev Follows {α : Type} (c : Callback) (code : Code α) : Prop :=
  code.Always (Op.Told u K R) (Does u K R c) fun _ => True

/-- What is known of a `Fid` does not end when its status is read again. -/
structure Lasting : Prop where
  keep {fid : FidPtr} {f f' : Fid} : K fid f → f.Stays (Handed R) f' → K fid f'

end Table

section Follows

variable {u : Ufssrv} {K : FidPtr → Fid → Prop} {R : (call : SysCall) → call.Reply → Prop}
  {c : Callback} {α β : Type} {fid : FidPtr} {f : Fid} {path npath : CStr}

theorem Follows.bind {first : Code α} {rest : α → Code β} (follows : Follows u K R c first)
    (onward : ∀ value, Follows u K R c (rest value)) : Follows u K R c (first >>= rest) :=
  (always_bind _ _).mpr (follows.mono fun value _ => onward value)

theorem follows_step {op : Op} {rest : op.Reply → Code α} (does : Does u K R c op)
    (onward : ∀ reply, Op.Told u K R op reply → Follows u K R c (rest reply)) :
    Follows u K R c (.step op rest) := ⟨does, onward⟩

theorem follows_sys {call : SysCall} (does : Does u K R c (.sys call)) :
    Follows u K R c (sys call) := follows_step does fun _ _ => trivial

theorem follows_data {call : DataCall} (plain : call.paths = []) : Follows u K R c (data call) :=
  follows_sys (.plain plain)

theorem follows_np {op : Npfs.Op} (plain : Op.Plain (.np op)) : Follows u K R c (np op) :=
  follows_step (.plain plain) fun _ _ => trivial

theorem follows_setAux (does : Does u K R c (.setAux fid f)) : Follows u K R c (setAux fid f) :=
  follows_step does fun _ _ => trivial

theorem follows_ufs {rest : Ufssrv → Code α} (onward : Follows u K R c (rest u)) :
    Follows u K R c (ufs >>= rest) := by
  refine follows_step (.plain trivial) fun settings same => ?_
  obtain rfl : settings = u := same
  exact onward

theorem follows_create {constructor : Malloc → Option Npfcall} :
    Follows u K R c (create constructor) := follows_step (.plain trivial) fun _ _ => trivial

theorem follows_crash {value : α} : Follows u K R c (do np .crash; return value) :=
  follows_step (.plain trivial) fun _ _ => trivial

theorem follows_fail {ename : CStr} {ecode : Errno} :
    Follows u K R c (fail ename ecode : Code (Option α)) :=
  follows_step (.plain trivial) fun _ _ => trivial

theorem follows_createRerror {ecode : Errno} :
    Follows u K R c (createRerror ecode : Code (Option α)) := always_createRerror fun _ => .plain

theorem follows_check {answer : Except Errno β} {rest : β → Code (Option α)}
    (onward : ∀ value, answer = .ok value → Follows u K R c (rest value)) :
    Follows u K R c (check answer rest) := by
  cases answer with
  | error err => exact follows_createRerror
  | ok value => exact onward value rfl

theorem follows_checkIf {condition : Prop} [Decidable condition] {call : Code (Except Errno β)}
    {rest : Code (Option α)} (first : Follows u K R c call) (onward : Follows u K R c rest) :
    Follows u K R c (checkIf condition call rest) := by
  rw [checkIf]
  split_ifs
  · exact first.bind fun answer => follows_check fun _ _ => onward
  · exact onward

theorem follows_withAux [Inhabited α] {rest : Fid → Code α}
    (onward : ∀ f : Fid, K fid f → Follows u K R c (rest f)) :
    Follows u K R c (withAux fid rest) := by
  refine follows_step (.plain trivial) fun found known => ?_
  cases found with
  | none => exact follows_crash
  | some f => exact onward f (known f rfl)

theorem follows_userUid : Follows u K R c (userUid fid) := always_userUid fun _ => .plain

theorem follows_npfsSetUser : Follows u K R c (npfsSetUser fid) := always_npfsSetUser fun _ => .plain

theorem follows_npfsCheckRegular {rest : Code (Option α)} (onward : Follows u K R c rest) :
    Follows u K R c (npfsCheckRegular f rest) := by
  rw [npfsCheckRegular]
  split_ifs
  · exact follows_createRerror
  · exact onward

/-! ## Status -/

theorem Names.known (known : K fid f) : Names u K R c f.path := .inl ⟨fid, f, known, rfl⟩

theorem Names.only (names : Names u K R c path) : ∀ path' ∈ [path], Names u K R c path' := by
  simpa using names

theorem Names.both (first : Names u K R c path) (second : Names u K R c npath) :
    ∀ path' ∈ [path, npath], Names u K R c path' := by
  simpa using ⟨first, second⟩

/-- A descriptor that `open` returns has been handed out. -/
theorem always_open {flags mode : UInt32} {rest : Except Errno UInt64 → Code α} {post : α → Prop}
    (names : Names u K R c path)
    (onward : ∀ fd, (∀ d, fd.toOption = some d → Handed R d) →
      (rest fd).Always (Op.Told u K R) (Does u K R c) post) :
    (sys (.open path flags mode) >>= rest).Always (Op.Told u K R) (Does u K R c) post := by
  refine ⟨.sys names.only trivial, fun fd told => onward fd fun d opened => ?_⟩
  cases fd with
  | error errno => cases opened
  | ok fd =>
      obtain rfl := Option.some.inj opened
      exact ⟨path, flags, mode, told⟩

theorem follows_open {flags mode : UInt32} {rest : Except Errno UInt64 → Code α}
    (names : Names u K R c path)
    (onward : ∀ fd, (∀ d, fd.toOption = some d → Handed R d) → Follows u K R c (rest fd)) :
    Follows u K R c (sys (.open path flags mode) >>= rest) := always_open names onward

theorem follows_ufsLstat (names : Names u K R c path) {mapped : Bool} :
    Follows u K R c (ufsLstat path mapped) :=
  always_ufsLstat (.sys names.only trivial) fun _ _ => .sys names.only trivial

theorem always_fidstat_stays (names : Names u K R c f.path)
    (does : ∀ f', f.Stays (Handed R) f' → Does u K R c (.setAux fid f')) :
    (fidstat fid f).Always (Op.Told u K R) (Does u K R c) fun found =>
      f.Stays (Handed R) found.2 :=
  always_fidstat (.sys names.only trivial) (fun _ _ => .sys names.only trivial) does

theorem follows_withStat {rest : Fid → Code (Option α)} (names : Names u K R c f.path)
    (does : ∀ f', f.Stays (Handed R) f' → Does u K R c (.setAux fid f'))
    (onward : ∀ f', f.Stays (Handed R) f' → Follows u K R c (rest f')) :
    Follows u K R c (withStat fid f rest) :=
  (always_bind _ _).mpr ((always_fidstat_stays names does).mono fun found stays =>
    follows_check fun _ _ => onward found.2 stays)

/-- The status of a known fid is read again. -/
theorem Lasting.withStat (lasting : Lasting K R) {rest : Fid → Code (Option α)} (known : K fid f)
    (onward : ∀ f', f.Stays (Handed R) f' → K fid f' → Follows u K R c (rest f')) :
    Follows u K R c (withStat fid f rest) :=
  follows_withStat (.known known) (fun _ same => .stays known same) fun f' same =>
    onward f' same (lasting.keep known same)

/-! ## Handlers -/

theorem follows_npfsAttach {afid : Option FidPtr} {uname aname : List UInt8} :
    Follows u K R (.attach fid afid uname aname) (npfsAttach fid afid aname) := by
  refine follows_npfsSetUser.bind fun _ => ?_
  split_ifs
  · exact follows_fail
  refine follows_ufs ?_
  have does (f : Fid)
      (fresh : Fid.Stays { npfsFidalloc (ufsJoin u.treeaux.bytes aname) with mapped := u.mapped }
        (Handed R) f) :
      Does u K R (.attach fid afid uname aname) (.setAux fid f) := .attached rfl fresh
  have fresh : Fid.Stays { npfsFidalloc (ufsJoin u.treeaux.bytes aname) with mapped := u.mapped }
      (Handed R) { npfsFidalloc (ufsJoin u.treeaux.bytes aname) with
        omode := 0xFFFFFFFF, mapped := u.mapped } :=
    ⟨rfl, rfl, rfl, rfl, rfl, rfl, fun _ => .inl⟩
  refine Follows.bind (follows_setAux (does _ fresh)) fun _ => ?_
  refine follows_withStat (.inr .attach) (fun f' same => does f' (fresh.stays same)) fun f' _ => ?_
  refine Follows.bind (follows_np trivial) fun _ => follows_create.bind fun ret => ?_
  exact follows_step (.attaches rfl) fun _ _ => trivial

theorem follows_npfsClone {newfid : FidPtr} :
    Follows u K R (.clone fid newfid) (npfsClone fid newfid) :=
  follows_withAux fun _ known => Follows.bind (follows_setAux (.cloned rfl known)) fun _ => trivial

theorem follows_npfsWalk (lasting : Lasting K R) {wname : List UInt8} :
    Follows u K R (.walk fid wname) (npfsWalk fid wname) := by
  refine follows_withAux fun f known => follows_npfsSetUser.bind fun _ => ?_
  refine lasting.withStat known fun f' _ known => ?_
  refine (follows_ufsLstat (.inr (.walk known))).bind fun st => follows_check fun st _ => ?_
  have moved : f'.Moves (Handed R) (ufsJoin f'.path.bytes wname)
      { f' with path := ufsJoin f'.path.bytes wname } :=
    ⟨rfl, rfl, rfl, rfl, rfl, rfl, fun _ => .inl⟩
  exact Follows.bind (follows_setAux (.moves known (.walk known) moved)) fun _ => trivial

theorem follows_openNode (lasting : Lasting K R) {flags : UInt32} {rest : Fid → Code (Option Npfcall)}
    (known : K fid f) (onward : ∀ f', K fid f' → Follows u K R c (rest f')) :
    Follows u K R c (openNode fid f flags rest) := by
  rw [openNode]
  split_ifs
  · refine Follows.bind (follows_sys (.sys (Names.known known).only trivial)) fun dir => ?_
    have same : f.Stays (Handed R) { f with dir := dir.toOption.map (·.number) } :=
      ⟨rfl, rfl, rfl, rfl, rfl, rfl, fun _ => .inl⟩
    exact Follows.bind (follows_setAux (.stays known same)) fun _ => follows_check fun _ _ =>
      lasting.withStat (lasting.keep known same) fun f' _ => onward f'
  · refine follows_open (.known known) fun fd handed => ?_
    have same : f.Stays (Handed R) { f with fd := fd.toOption } :=
      ⟨rfl, rfl, rfl, rfl, rfl, rfl, fun d opened => .inr (handed d opened)⟩
    exact Follows.bind (follows_setAux (.stays known same)) fun _ => follows_check fun _ _ =>
      lasting.withStat (lasting.keep known same) fun f' _ => onward f'

theorem follows_npfsOpen (lasting : Lasting K R) {mode : UInt8} :
    Follows u K R c (npfsOpen fid mode) := by
  refine follows_withAux fun f known => follows_npfsSetUser.bind fun _ => ?_
  refine lasting.withStat known fun f' _ known => follows_openNode lasting known fun f'' known => ?_
  have same : f''.Stays (Handed R) { f'' with omode := mode.toUInt32 } :=
    ⟨rfl, rfl, rfl, rfl, rfl, rfl, fun _ => .inl⟩
  exact Follows.bind (follows_setAux (.stays known same)) fun _ => follows_create

theorem follows_npfsLopen (lasting : Lasting K R) {flags : UInt32} :
    Follows u K R c (npfsLopen fid flags) := by
  refine follows_withAux fun f known => follows_npfsSetUser.bind fun _ => ?_
  exact lasting.withStat known fun f' _ known => follows_openNode lasting known fun _ _ =>
    follows_create

theorem always_findAux {n : UInt32} : (findAux n).Always (Op.Told u K R) (Does u K R c) fun found =>
    ∀ f ∈ found, ∃ fid, K fid f := by
  refine ⟨.plain trivial, fun ofid _ => ?_⟩
  cases ofid with
  | none => exact fun f member => by cases member
  | some ofid =>
      refine ⟨.plain trivial, fun found known => ?_⟩
      cases found with
      | none => exact ⟨.plain trivial, fun _ _ f member => by cases member⟩
      | some f =>
          intro f' member
          obtain rfl := Option.some.inj member
          exact ⟨ofid, known _ rfl⟩

/-- A call about the new node, and the rest when it succeeds. -/
theorem follows_try {call : SysCall} {answer : call.Reply → Except Errno β}
    {rest : Code (Option α)} (does : Does u K R c (.sys call)) (onward : Follows u K R c rest) :
    Follows u K R c (sys call >>= fun reply => check (answer reply) fun _ => rest) :=
  Follows.bind (follows_sys does) fun _ => follows_check fun _ _ => onward

theorem follows_makeSpecial {perm umode : UInt32} {ext : CStr} {rest : Code (Option Unit)}
    (names : Names u K R c npath) (onward : Follows u K R c rest) :
    Follows u K R c (makeSpecial npath perm umode ext findAux rest) := by
  have does {call : SysCall} (paths : call.paths = [npath]) (bare : Bare call) :
      Does u K R c (.sys call) := .sys (by simpa [paths] using names) bare
  refine follows_ufs ?_
  split_ifs
  · exact follows_try (does rfl trivial) onward
  · cases u.scanFid ext with
    | none => exact follows_fail
    | some nfid =>
        refine (always_bind _ _).mpr (always_findAux.mono fun found known => ?_)
        cases found with
        | none => exact follows_fail
        | some f =>
            obtain ⟨ofid, known⟩ := known f rfl
            exact follows_try (.sys (Names.both (.known known) names) trivial) onward
  · cases u.scanDevice ext with
    | none => exact follows_fail
    | some device =>
        obtain ⟨ctype, major, minor⟩ := device
        dsimp only
        split_ifs
        · exact follows_try (does rfl trivial) onward
        · exact follows_try (does rfl trivial) onward
        · exact follows_fail
  · exact follows_try (does rfl trivial) onward
  · exact onward

theorem follows_npfsCreateSpecial {perm : UInt32} {extension : List UInt8} (known : K fid f)
    (names : Names u K R c npath) :
    Follows u K R c (npfsCreateSpecial fid f npath perm extension) := by
  rw [npfsCreateSpecial]
  split
  · exact follows_fail
  have same : f.Stays (Handed R) { f with omode := 0 } :=
    ⟨rfl, rfl, rfl, rfl, rfl, rfl, fun _ => .inl⟩
  refine Follows.bind (follows_np trivial) fun conn => follows_makeSpecial names ?_
  refine Follows.bind (follows_setAux (.stays known same)) fun _ => ?_
  split
  · exact follows_try (.sys names.only trivial) trivial
  · trivial

theorem follows_npfsCreated {omode : UInt8} {undo : SysCall}
    {rest : Fid → (Fid → Code (Option Npfcall)) → Code (Option Npfcall)} (known : K fid f)
    (lasting : Lasting K R) (aims : Aims u K R c npath) (undone : Does u K R c (.sys undo))
    (onward : ∀ f' last, K fid f' → (∀ f'', K fid f'' → Follows u K R c (last f'')) →
      Follows u K R c (rest f' last)) :
    Follows u K R c (npfsCreated fid f npath omode undo rest) := by
  refine Follows.bind (follows_sys (.sys (Names.only (.inr aims)) trivial)) fun st => ?_
  cases st with
  | error errno => exact Follows.bind (follows_sys undone) fun _ => follows_createRerror
  | ok st =>
      have same : f.Stays (Handed R) { f with stat := st } :=
        ⟨rfl, rfl, rfl, rfl, rfl, rfl, fun _ => .inl⟩
      refine Follows.bind (follows_setAux (.stays known same)) fun _ => ?_
      refine onward _ _ (lasting.keep known same) fun f'' known => ?_
      have moved : f''.Moves (Handed R) npath
          { f'' with path := npath, omode := omode.toUInt32 } :=
        ⟨rfl, rfl, rfl, rfl, rfl, rfl, fun _ => .inl⟩
      exact Follows.bind (follows_setAux (.moves known aims moved)) fun _ => follows_create

theorem follows_npfsCreate (lasting : Lasting K R) {name : List UInt8} {perm : UInt32} {mode : UInt8}
    {extension : List UInt8} :
    Follows u K R (.create fid name perm mode extension)
      (npfsCreate fid name perm mode extension) := by
  refine follows_withAux fun f known => ?_
  split
  · exact follows_createRerror
  refine lasting.withStat known fun f' _ known => ?_
  have aims : Aims u K R (.create fid name perm mode extension) (ufsJoin f'.path.bytes name) :=
    .create known
  have names : Names u K R (.create fid name perm mode extension) (ufsJoin f'.path.bytes name) :=
    .inr aims
  refine Follows.bind (follows_sys (.sys names.only trivial)) fun st => ?_
  cases st with
  | ok st => exact follows_fail
  | error errno =>
  dsimp only
  split_ifs
  · exact follows_fail
  · refine follows_try (.sys names.only trivial) ?_
    refine follows_npfsCreated known lasting aims (.sys names.only trivial) fun f' last known ends => ?_
    refine Follows.bind (follows_sys (.sys names.only trivial)) fun dir => ?_
    have same : f'.Stays (Handed R) { f' with dir := dir.toOption.map (·.number) } :=
      ⟨rfl, rfl, rfl, rfl, rfl, rfl, fun _ => .inl⟩
    refine Follows.bind (follows_setAux (.stays known same)) fun _ => ?_
    cases dir with
    | error errno =>
        exact Follows.bind (follows_sys (.sys names.only trivial)) fun _ => follows_createRerror
    | ok dir => exact ends _ (lasting.keep known same)
  · refine (follows_npfsCreateSpecial known names).bind fun made => ?_
    cases made with
    | none => trivial
    | some made =>
        have same : f'.Stays (Handed R) { f' with omode := 0 } :=
          ⟨rfl, rfl, rfl, rfl, rfl, rfl, fun _ => .inl⟩
        exact follows_npfsCreated (lasting.keep known same) lasting aims (.sys names.only trivial)
          fun f' last known ends => ends f' known
  · refine follows_open names fun fd handed => ?_
    have same : f'.Stays (Handed R) { f' with fd := fd.toOption } :=
      ⟨rfl, rfl, rfl, rfl, rfl, rfl, fun d opened => .inr (handed d opened)⟩
    refine Follows.bind (follows_setAux (.stays known same)) fun _ => follows_check fun _ _ => ?_
    exact follows_npfsCreated (lasting.keep known same) lasting aims (.sys names.only trivial)
      fun f' last known ends => ends f' known

theorem follows_ustat2npwstat (names : Names u K R c path) {st : Stat} {dotu : Bool} :
    Follows u K R c (ustat2npwstat path st dotu) := by
  have extension : Follows u K R c (npwstatExtension path st dotu) := by
    unfold npwstatExtension
    dsimp only
    split
    · trivial
    split
    · exact Follows.bind (follows_sys (.sys names.only trivial)) fun _ => trivial
    split
    · exact follows_ufs trivial
    · trivial
  exact follows_ufs (extension.bind fun _ => trivial)

theorem follows_readDirLoop {offset : UInt64} {count : UInt32} {dir : UInt64} {n' turns : Nat}
    {dotu : Bool} {buf : List UInt8} {n : Nat} (known : K fid f) :
    Follows u K R (.read fid offset count) (readDirLoop f dir n' dotu turns buf n) := by
  induction turns generalizing buf n with
  | zero => exact follows_crash
  | succ turns ih =>
      rw [readDirLoop]
      split_ifs
      · refine follows_step (.plain rfl) fun read found => ?_
        cases read with
        | error errno => trivial
        | ok r =>
        rw [Program.bind]
        cases entry : ((Except.ok r : Except Errno Returned).toOption.bind (·.dirent)) with
        | none => trivial
        | some dirent =>
            dsimp only
            split_ifs with dots
            · exact ih
            have names : Names u K R (.read fid offset count)
                (ufsJoin f.path.bytes dirent.name.bytes) :=
              .inr (.read known found entry (by simpa using dots))
            refine Follows.bind (follows_sys (.sys names.only trivial)) fun st => ?_
            cases st with
            | error errno => exact follows_createRerror.bind fun _ => trivial
            | ok st =>
                refine (follows_ustat2npwstat names).bind fun wstat => ?_
                split_ifs
                · trivial
                · exact ih
      · trivial

theorem follows_rewind {dir offset : UInt64} : Follows u K R c (rewind dir offset) := by
  rw [rewind]
  split_ifs
  · exact Follows.bind (follows_data rfl) fun _ => trivial
  · trivial

theorem follows_npfsRead {offset : UInt64} {count : UInt32} :
    Follows u K R (.read fid offset count) (npfsRead fid offset count) := by
  refine follows_withAux fun f known => follows_create.bind fun ret =>
    follows_npfsSetUser.bind fun _ => ?_
  cases ret with
  | none => exact follows_crash
  | some ret =>
      refine Follows.bind ?_ fun written => Follows.bind (follows_np trivial) fun error => ?_
      · rw [npfsReadData]
        cases f.dir with
        | none =>
            refine Follows.bind (follows_data rfl) fun read => ?_
            cases read with
            | error errno => exact follows_createRerror.bind fun _ => trivial
            | ok read => trivial
        | some dir =>
            refine follows_rewind.bind fun _ => Follows.bind (follows_np trivial) fun conn => ?_
            exact follows_ufs (follows_readDirLoop known)
      · cases error <;> trivial

theorem follows_npfsWrite {offset : UInt64} {payload : List UInt8} :
    Follows u K R c (npfsWrite fid offset payload) :=
  follows_withAux fun _ _ => follows_npfsSetUser.bind fun _ => Follows.bind (follows_data rfl)
    fun _ => follows_check fun _ _ => follows_create

theorem follows_npfsXattrread {offset : UInt64} {count : UInt32} :
    Follows u K R c (npfsXattrread fid offset count) := by
  refine follows_withAux fun f _ => follows_create.bind fun ret => ?_
  cases ret with
  | none => exact follows_createRerror
  | some ret => trivial

theorem follows_npfsXattrwrite {offset : UInt64} {count : UInt32} {payload : List UInt8} :
    Follows u K R (.xattrwrite fid offset count payload)
      (npfsXattrwrite fid offset count payload) :=
  follows_withAux fun _ known => Follows.bind (follows_setAux (.xattrwritten rfl known)) fun _ =>
    follows_create

theorem follows_npfsClunk : Follows u K R (.clunk fid) (npfsClunk fid) := by
  refine follows_step (.plain trivial) fun found known => ?_
  cases found with
  | none => exact follows_create
  | some f =>
  have known : K fid f := known f rfl
  cases named : f.xattrname with
  | none => simpa only [named] using follows_create
  | some xattrname =>
      simp only [named]
      refine follows_npfsSetUser.bind fun _ => Follows.bind (follows_np trivial) fun omode => ?_
      split_ifs with writes unsized
      · exact follows_try (.commits rfl known named unsized) follows_create
      · exact follows_try (.clears rfl known named (not_not.mp unsized)) follows_create
      · exact follows_create

theorem follows_npfsRemove : Follows u K R c (npfsRemove fid) :=
  follows_withAux fun _ known => follows_npfsSetUser.bind fun _ =>
    follows_try (.sys (Names.known known).only trivial) follows_create

theorem follows_npfsStat (lasting : Lasting K R) : Follows u K R c (npfsStat fid) :=
  follows_withAux fun _ known => follows_npfsSetUser.bind fun _ =>
    lasting.withStat known fun _ _ known => Follows.bind (follows_np trivial) fun _ =>
      (follows_ustat2npwstat (.known known)).bind fun _ => follows_create

theorem follows_wstatId {number : UInt32} {name : List UInt8} {find : CStr → Option UInt32}
    {rest : UInt32 → Code (Option Npfcall)} (onward : ∀ id, Follows u K R c (rest id)) :
    Follows u K R c (wstatId number name find rest) := by
  rw [wstatId]
  split_ifs
  · cases find (npStrdup name) with
    | none => exact follows_fail
    | some id => exact onward id
  · exact onward number

theorem follows_npfsWstat (lasting : Lasting K R) {stat : Npstat} {pkt : List UInt8} :
    Follows u K R (.wstat fid stat pkt) (npfsWstat fid stat pkt) := by
  refine follows_withAux fun f known => ?_
  split
  · exact follows_createRerror
  refine follows_npfsSetUser.bind fun _ => lasting.withStat known fun f' _ known => ?_
  have own : Names u K R (.wstat fid stat pkt) f'.path := .known known
  have aims : Aims u K R (.wstat fid stat pkt)
      (ufsJoin (dirname f'.path) (Npfcall.text { (default : Npfcall) with pkt } stat.name)) :=
    .wstat known
  refine follows_ufs (Follows.bind (follows_np trivial) fun conn => ?_)
  refine follows_wstatId fun uid => follows_wstatId fun gid => ?_
  split
  · exact follows_fail
  refine follows_checkIf (follows_sys (.sys own.only trivial)) ?_
  refine follows_checkIf (follows_sys (.sys own.only trivial)) ?_
  refine follows_checkIf (follows_sys (.sys own.only trivial)) ?_
  refine follows_checkIf (follows_sys (.sys (own.both (.inr aims)) trivial)) ?_
  generalize ufsJoin (dirname f'.path) _ = npath at aims
  split
  · have moved : f'.Moves (Handed R) npath { f' with path := npath } :=
      ⟨rfl, rfl, rfl, rfl, rfl, rfl, fun _ => .inl⟩
    refine Follows.bind (follows_setAux (.moves known aims moved)) fun _ => ?_
    exact follows_checkIf (follows_sys (.sys (Names.only (.inr aims)) trivial)) follows_create
  · have same : f'.Stays (Handed R) f' := ⟨rfl, rfl, rfl, rfl, rfl, rfl, fun _ => .inl⟩
    refine Follows.bind (follows_setAux (.stays known same)) fun _ => ?_
    exact follows_checkIf (follows_sys (.sys own.only trivial)) follows_create

theorem follows_npfsStatfs : Follows u K R c (npfsStatfs fid) :=
  follows_withAux fun _ known => follows_npfsSetUser.bind fun _ =>
    Follows.bind (follows_sys (.sys (Names.known known).only trivial)) fun _ =>
      follows_check fun _ _ => follows_create

/-! ## Handlers of 9P2000.L -/

theorem follows_byModel {mapped passthrough : Code α} (first : Follows u K R c mapped)
    (second : Follows u K R c passthrough) : Follows u K R c (byModel f mapped passthrough) := by
  rw [byModel]
  split_ifs
  · exact first
  · exact second

theorem follows_mappedPut (names : Names u K R c path) {name : CStr} {n : Nat} {val : UInt64}
    (mapped : mappedName name.bytes) : Follows u K R c (mappedPut path name n val) :=
  follows_sys (.sys names.only mapped)

theorem follows_mappedCreate (names : Names u K R c path) {uid gid mode : UInt32}
    {rdev : Option UInt64} : Follows u K R c (mappedCreate path uid gid mode rdev) := by
  refine (follows_mappedPut names (by decide +kernel)).bind fun answer => ?_
  cases answer with
  | error err => trivial
  | ok done =>
  refine (follows_mappedPut names (by decide +kernel)).bind fun answer => ?_
  cases answer with
  | error err => trivial
  | ok done =>
  refine (follows_mappedPut names (by decide +kernel)).bind fun answer => ?_
  cases answer with
  | error err => trivial
  | ok done =>
  cases rdev with
  | none => trivial
  | some rdev => exact follows_mappedPut names (by decide +kernel)

theorem follows_npfsLcreated {fd : UInt64} {made : Bool} {attributes : Code (Except Errno Unit)}
    (known : K fid f) (aims : Aims u K R c npath) (gives : Follows u K R c attributes) :
    Follows u K R c (npfsLcreated fid f npath fd made attributes) := by
  have names : Names u K R c npath := .inr aims
  have given : Follows u K R c (attributesIf made attributes) := by
    rw [attributesIf]
    split_ifs
    · exact gives
    · trivial
  refine given.bind fun err => ?_
  cases err with
  | error err =>
      have closed : f.Stays (Handed R) { f with fd := none } :=
        ⟨rfl, rfl, rfl, rfl, rfl, rfl, fun d opened => by cases opened⟩
      refine Follows.bind (follows_data rfl) fun _ =>
        Follows.bind (follows_setAux (.stays known closed)) fun _ => ?_
      exact Follows.bind (follows_sys (.sys names.only trivial)) fun _ => follows_createRerror
  | ok done =>
      have moved : f.Moves (Handed R) npath { f with path := npath } :=
        ⟨rfl, rfl, rfl, rfl, rfl, rfl, fun _ => .inl⟩
      refine (always_bind _ _).mpr ((always_fidstat_stays names fun f' same =>
        .moves known aims (moved.stays same)).mono fun answer same => ?_)
      obtain ⟨err, f'⟩ := answer
      have moved := moved.stays same
      cases err with
      | error err =>
          have closed : f.Moves (Handed R) npath { f' with fd := none } := ⟨moved.path, moved.mapped,
            moved.xattrname, moved.xattrflags, moved.xattrsz, moved.xattrdata,
            fun d opened => by cases opened⟩
          refine Follows.bind (follows_data rfl) fun _ =>
            Follows.bind (follows_setAux (.moves known aims closed)) fun _ => ?_
          rw [closed.path]
          split
          · exact Follows.bind (follows_sys (.sys names.only trivial)) fun _ => follows_createRerror
          · exact follows_createRerror
      | ok done => exact follows_create

theorem follows_npfsLcreate (lasting : Lasting K R) {name : List UInt8} {flags perm gid : UInt32} :
    Follows u K R (.lcreate fid name flags perm gid) (npfsLcreate fid name flags perm gid) := by
  refine follows_withAux fun f known => lasting.withStat known fun f' _ known => ?_
  have aims : Aims u K R (.lcreate fid name flags perm gid) (ufsJoin f'.path.bytes name) :=
    .lcreate known
  have names : Names u K R (.lcreate fid name flags perm gid) (ufsJoin f'.path.bytes name) :=
    .inr aims
  refine follows_open names fun fd handed => ?_
  have opens : (openExisting f' (ufsJoin f'.path.bytes name) (flags ||| O_CREAT) fd).Always
      (Op.Told u K R) (Does u K R (.lcreate fid name flags perm gid)) fun opened =>
        ∀ d, opened.toOption = some d → Handed R d := by
    unfold openExisting
    split
    · exact handed
    · split_ifs
      · exact always_open names fun _ handed => handed
      · exact fun d opened => by cases opened
  refine (always_bind _ _).mpr (opens.mono fun opened handed => ?_)
  have same : f'.Stays (Handed R) { f' with fd := opened.toOption } :=
    ⟨rfl, rfl, rfl, rfl, rfl, rfl, fun d opened => .inr (handed d opened)⟩
  refine Follows.bind (follows_setAux (.stays known same)) fun _ => follows_check fun fd _ => ?_
  exact follows_npfsLcreated (lasting.keep known same) aims
    (follows_userUid.bind fun uid => follows_mappedCreate names)

theorem follows_writeTarget {fd : UInt64} {turns : Nat} {rest : List UInt8} :
    Follows u K R c (writeTarget fd turns rest) := by
  induction turns generalizing rest with
  | zero => trivial
  | succ turns ih =>
      rw [writeTarget]
      split_ifs
      · trivial
      refine Follows.bind (follows_data rfl) fun w => ?_
      cases w with
      | error errno => trivial
      | ok w =>
          dsimp only
          split_ifs
          · trivial
          · exact ih

theorem follows_finishNode (names : Names u K R c path) {fd : UInt64} {err : Except Errno Unit}
    {attributes : Code (Except Errno Unit)} (gives : Follows u K R c attributes) :
    Follows u K R c (finishNode path fd err attributes) := by
  refine Follows.bind (follows_data rfl) fun closed => ?_
  have given : Follows u K R c (attributesUnless err (closed.map fun _ => ()) attributes) := by
    unfold attributesUnless
    split
    · exact gives
    · trivial
    · trivial
  refine given.bind fun err => ?_
  cases err with
  | error err => exact Follows.bind (follows_sys (.sys names.only trivial)) fun _ => trivial
  | ok done => trivial

theorem follows_mappedSymlink (names : Names u K R c path) {target : List UInt8}
    {uid gid : UInt32} : Follows u K R c (mappedSymlink target path uid gid) := by
  refine Follows.bind (follows_sys (.sys names.only trivial)) fun fd => ?_
  cases fd with
  | error errno => trivial
  | ok fd =>
      exact follows_writeTarget.bind fun err => follows_finishNode names (follows_mappedCreate names)

theorem follows_mappedMknod (names : Names u K R c path) {perm : UInt32} {rdev : UInt64}
    {uid gid : UInt32} : Follows u K R c (mappedMknod path perm rdev uid gid) := by
  unfold mappedMknod
  dsimp only
  generalize (if perm &&& S_IFMT = 0 then S_IFREG else perm &&& S_IFMT) = type
  split
  · trivial
  refine Follows.bind (follows_sys (.sys names.only trivial)) fun fd => ?_
  cases fd with
  | error errno => trivial
  | ok fd => exact follows_finishNode names (follows_mappedCreate names)

theorem follows_replyNode (names : Names u K R c npath) {mapped : Bool} {err : Except Errno Unit}
    {constructor : Npqid → Malloc → Option Npfcall} :
    Follows u K R c (replyNode npath mapped err constructor) :=
  follows_check fun _ _ => (follows_ufsLstat names).bind fun _ => follows_check fun _ _ =>
    follows_create

theorem follows_npfsSymlink {name symtgt : List UInt8} {gid : UInt32} :
    Follows u K R (.symlink fid name symtgt gid) (npfsSymlink fid name symtgt gid) := by
  refine follows_withAux fun f known => ?_
  have names : Names u K R (.symlink fid name symtgt gid) (ufsJoin f.path.bytes name) :=
    .inr (.symlink known)
  refine Follows.bind (follows_byModel ?_ ?_) fun _ => follows_replyNode names
  · exact follows_userUid.bind fun uid => follows_mappedSymlink names
  · exact follows_sys (.sys names.only trivial)

theorem follows_npfsMknod {name : List UInt8} {perm major minor gid : UInt32} :
    Follows u K R (.mknod fid name perm major minor gid) (npfsMknod fid name perm major minor gid) := by
  refine follows_withAux fun f known => ?_
  have names : Names u K R (.mknod fid name perm major minor gid) (ufsJoin f.path.bytes name) :=
    .inr (.mknod known)
  refine Follows.bind (follows_byModel ?_ ?_) fun _ => follows_replyNode names
  · exact follows_userUid.bind fun uid => follows_mappedMknod names
  · exact follows_sys (.sys names.only trivial)

theorem follows_npfsMkdir {name : List UInt8} {perm gid : UInt32} :
    Follows u K R (.mkdir fid name perm gid) (npfsMkdir fid name perm gid) := by
  refine follows_withAux fun f known => ?_
  have names : Names u K R (.mkdir fid name perm gid) (ufsJoin f.path.bytes name) :=
    .inr (.mkdir known)
  refine Follows.bind (follows_sys (.sys names.only trivial)) fun made =>
    follows_check fun _ _ => Follows.bind (follows_byModel ?_ ?_) fun err => ?_
  · exact follows_userUid.bind fun uid => follows_mappedCreate names
  · trivial
  · cases err with
    | error err =>
        exact Follows.bind (follows_sys (.sys names.only trivial)) fun _ => follows_createRerror
    | ok done => exact follows_replyNode names

theorem follows_npfsRename {dfid : FidPtr} {name : List UInt8} :
    Follows u K R (.rename fid dfid name) (npfsRename fid dfid name) := by
  refine follows_withAux fun f known => follows_withAux fun df known' => ?_
  have aims : Aims u K R (.rename fid dfid name) (ufsJoin df.path.bytes name) := .rename known'
  have moved : f.Moves (Handed R) (ufsJoin df.path.bytes name)
      { f with path := ufsJoin df.path.bytes name } :=
    ⟨rfl, rfl, rfl, rfl, rfl, rfl, fun _ => .inl⟩
  refine Follows.bind (follows_sys (.sys (Names.both (.known known) (.inr aims)) trivial)) fun _ =>
    follows_check fun _ _ => Follows.bind (follows_setAux (.moves known aims moved)) fun _ => ?_
  exact follows_withStat (.inr aims) (fun f' same => .moves known aims (moved.stays same))
    fun f' _ => follows_create

theorem follows_npfsRenameat {newfid : FidPtr} {oname name : List UInt8} :
    Follows u K R (.renameat fid oname newfid name) (npfsRenameat fid oname newfid name) :=
  follows_withAux fun _ known => follows_withAux fun _ known' =>
    Follows.bind (follows_sys (.sys (Names.both (.inr (.renameatOld known))
      (.inr (.renameatNew known'))) trivial)) fun _ => follows_check fun _ _ => follows_create

theorem follows_npfsLink {fid' : FidPtr} {name : List UInt8} :
    Follows u K R (.link fid fid' name) (npfsLink fid name) :=
  follows_withAux fun _ known => Follows.bind
    (follows_sys (.sys (Names.both (.known known) (.inr (.link known))) trivial)) fun _ =>
      follows_check fun _ _ => follows_create

theorem follows_npfsUnlinkat {name : List UInt8} :
    Follows u K R (.unlinkat fid name) (npfsUnlinkat fid name) := by
  refine follows_withAux fun f known => ?_
  have opens : (dirFd f).Always (Op.Told u K R) (Does u K R (.unlinkat fid name)) fun opened =>
      ∀ fd, opened = .ok fd → f.fd = some fd ∨ R (.open f.path 0 0) (.ok fd) := by
    unfold dirFd
    split
    · rename_i fd opened
      rintro _ ⟨⟩
      exact .inl opened
    · refine ⟨.sys (Names.known known).only trivial, fun opened possible fd same => .inr ?_⟩
      rw [← same]
      exact possible
  refine (always_bind _ _).mpr (opens.mono fun opened from_ => ?_)
  have same : f.Stays (Handed R) { f with fd := opened.toOption } := by
    refine ⟨rfl, rfl, rfl, rfl, rfl, rfl, fun d found => ?_⟩
    cases opened with
    | error errno => cases found
    | ok fd =>
        obtain rfl := Option.some.inj found
        exact (from_ fd rfl).imp_right fun handed => ⟨_, _, _, handed⟩
  refine Follows.bind (follows_setAux (.stays known same)) fun _ => ?_
  refine follows_check fun fd given => ?_
  have does (removedir : Bool) :
      Does u K R (.unlinkat fid name) (.sys (.unlinkat fd (npStrdup name) removedir)) :=
    .unlinks rfl known (from_ fd given)
  refine Follows.bind (follows_sys (does false)) fun unlinked => ?_
  cases unlinked with
  | ok done => exact follows_create
  | error errno =>
      dsimp only
      split_ifs
      · exact follows_try (does true) follows_create
      · exact follows_createRerror

theorem follows_readTarget {fd : UInt64} {max turns : Nat} {buf : List UInt8} :
    Follows u K R c (readTarget fd max turns buf) := by
  induction turns generalizing buf with
  | zero => trivial
  | succ turns ih =>
      rw [readTarget]
      split_ifs
      · refine Follows.bind (follows_data rfl) fun r => ?_
        cases r with
        | error errno => trivial
        | ok r =>
            dsimp only
            split_ifs
            · trivial
            · exact ih
      · trivial

theorem follows_mappedReadlink (names : Names u K R c path) {max : Nat} :
    Follows u K R c (mappedReadlink path max) := by
  refine Follows.bind (follows_sys (.sys names.only trivial)) fun fd => ?_
  cases fd with
  | error errno => trivial
  | ok fd => exact follows_readTarget.bind fun _ => Follows.bind (follows_data rfl) fun _ => trivial

theorem follows_npfsReadlink (lasting : Lasting K R) : Follows u K R c (npfsReadlink fid) := by
  have host (f : Fid) (known : K fid f) : Follows u K R c (readHostLink f) :=
    Follows.bind (follows_sys (.sys (Names.known known).only trivial)) fun _ =>
      follows_check fun _ _ => follows_create
  refine follows_withAux fun f known => ?_
  split
  · refine lasting.withStat known fun f' _ known => ?_
    split_ifs
    · exact host f' known
    · exact (follows_mappedReadlink (.known known)).bind fun _ => follows_check fun _ _ =>
        follows_create
    · exact follows_createRerror
  · exact host f known

theorem follows_npfsGetattr (lasting : Lasting K R) : Follows u K R c (npfsGetattr fid) :=
  follows_withAux fun _ known => lasting.withStat known fun _ _ _ => follows_create

theorem follows_setTimes {attrs : Npattrs} {rest : Code (Option Npfcall)}
    (names : Names u K R c f.path) (onward : Follows u K R c rest) :
    Follows u K R c (setTimes f attrs rest) := by
  rw [setTimes]
  split_ifs
  · exact Follows.bind (follows_data rfl) fun now =>
      Follows.bind (follows_sys (.sys names.only trivial)) fun _ => follows_check fun _ _ => onward
  · exact onward

theorem follows_setRest (lasting : Lasting K R) {attrs : Npattrs} (known : K fid f) :
    Follows u K R c (setRest fid attrs f) :=
  follows_checkIf (follows_sys (.sys (Names.known known).only trivial))
    (follows_setTimes (.known known) (lasting.withStat known fun _ _ _ => follows_create))

theorem follows_npfsSetattr (lasting : Lasting K R) {attrs : Npattrs} :
    Follows u K R c (npfsSetattr fid attrs) := by
  refine follows_withAux fun f known => ?_
  split
  · refine lasting.withStat known fun f' _ known => ?_
    have names : Names u K R c f'.path := .known known
    refine follows_checkIf (follows_mappedPut names (by decide +kernel)) ?_
    refine follows_checkIf (follows_mappedPut names (by decide +kernel)) ?_
    refine follows_checkIf (follows_mappedPut names (by decide +kernel)) ?_
    exact follows_checkIf (follows_sys (.sys names.only trivial)) (follows_setRest lasting known)
  · have own : Names u K R c f.path := .known known
    refine follows_checkIf (follows_sys (.sys own.only trivial)) ?_
    exact follows_checkIf (follows_sys (.sys own.only trivial)) (follows_setRest lasting known)

theorem follows_fetchAgain {query : Nat → Code (Except Errno (Nat × List UInt8))}
    (asks : ∀ size, Follows u K R c (query size)) {turns : Nat} :
    Follows u K R c (fetchAgain query turns) := by
  induction turns with
  | zero => exact follows_crash
  | succ turns ih =>
      refine (asks 0).bind fun answer => ?_
      cases answer with
      | error errno => trivial
      | ok found =>
      refine (asks _).bind fun answer => ?_
      cases answer with
      | error errno => exact ih
      | ok found =>
          dsimp only
          split_ifs
          · exact ih
          · trivial

theorem follows_xattrValue {nf : Fid} {name : List UInt8} {turns : Nat}
    (names : Names u K R c nf.path) : Follows u K R c (xattrValue nf name turns) := by
  have lists (size : Nat) : Follows u K R c (sys (.llistxattr nf.path size)) :=
    follows_sys (.sys names.only trivial)
  have gets (size : Nat) : Follows u K R c (sys (.lgetxattr nf.path (npStrdup name) size)) :=
    follows_sys (.sys names.only trivial)
  unfold xattrValue
  split
  · refine (follows_fetchAgain lists).bind fun _ => follows_check fun found _ => ?_
    dsimp only
    split_ifs <;> trivial
  split
  · exact follows_createRerror
  · exact (follows_fetchAgain gets).bind fun _ => follows_check fun _ _ => trivial

theorem follows_npfsXattrwalk {newfid : FidPtr} {name : List UInt8} :
    Follows u K R (.xattrwalk fid newfid name) (npfsXattrwalk fid newfid name) := by
  refine follows_withAux fun f known => follows_npfsCheckRegular ?_
  refine follows_npfsSetUser.bind fun _ => follows_ufs ?_
  refine Follows.bind (follows_setAux (.fetches rfl known)) fun _ =>
    Follows.bind (follows_np trivial) fun _ => ?_
  have own : Names u K R (.xattrwalk fid newfid name) f.path := .known known
  have names : Names u K R (.xattrwalk fid newfid name)
      (Fid.path { npfsFidalloc f.path with mapped := f.mapped }) := own
  refine (follows_xattrValue names).bind fun found => ?_
  cases found with
  | none => trivial
  | some found =>
      refine Follows.bind (follows_setAux (.fetched rfl known)) fun _ => ?_
      exact follows_step (.describes rfl) fun _ _ => follows_create

theorem follows_npfsXattrcreate {name : List UInt8} {size : UInt64} {flags : UInt32} :
    Follows u K R (.xattrcreate fid name size flags) (npfsXattrcreate fid name size flags) := by
  refine follows_withAux fun f known => follows_npfsCheckRegular ?_
  split
  · exact follows_createRerror
  refine (always_bind _ _).mpr ⟨.plain trivial, fun xdata memory => ?_⟩
  rw [always_done]
  cases xdata with
  | none => exact follows_createRerror
  | some xdata =>
      refine Follows.bind (follows_setAux (.xattrcreated rfl known memory)) fun _ => ?_
      exact Follows.bind (follows_np trivial) fun _ => follows_create

theorem follows_readdirLoop {offset : UInt64} {count : UInt32} {dir : UInt64} {n' turns : Nat}
    {buf : List UInt8} {n : Nat} (known : K fid f) :
    Follows u K R (.readdir fid offset count) (readdirLoop f dir n' turns buf n) := by
  induction turns generalizing buf n with
  | zero => exact follows_crash
  | succ turns ih =>
      rw [readdirLoop]
      split
      · refine Follows.bind (follows_data rfl) fun diroff =>
          follows_step (.plain rfl) fun read found => ?_
        cases read with
        | error errno => trivial
        | ok r =>
        rw [Program.bind]
        cases entry : ((Except.ok r : Except Errno Returned).toOption.bind (·.dirent)) with
        | none => trivial
        | some dirent =>
            dsimp only
            split
            · exact ih
            rename_i dots
            have names : Names u K R (.readdir fid offset count)
                (ufsJoin f.path.bytes dirent.name.bytes) :=
              .inr (.readdir known found entry (by simpa using dots))
            have named : Follows u K R (.readdir fid offset count) (direntQid f dirent) := by
              rw [direntQid]
              split_ifs
              · exact Follows.bind (follows_sys (.sys names.only trivial)) fun _ => trivial
              · trivial
            refine named.bind fun qid => ?_
            cases qid with
            | error errno => exact follows_createRerror
            | ok qid =>
                dsimp only
                split
                · exact Follows.bind (follows_data rfl) fun _ => trivial
                · exact ih
      · trivial

theorem follows_npfsReaddir {offset : UInt64} {count : UInt32} :
    Follows u K R (.readdir fid offset count) (npfsReaddir fid offset count) := by
  refine follows_withAux fun f known => follows_create.bind fun ret => ?_
  have opens : Follows u K R (.readdir fid offset count) (openDir f) := by
    unfold openDir
    split
    · trivial
    · exact Follows.bind (follows_data rfl) fun _ => trivial
  refine follows_npfsSetUser.bind fun _ => opens.bind fun dir => ?_
  have same : f.Stays (Handed R) { f with dir := dir.toOption } :=
    ⟨rfl, rfl, rfl, rfl, rfl, rfl, fun _ => .inl⟩
  refine Follows.bind (follows_setAux (.stays known same)) fun _ => follows_check
    fun dir _ => follows_rewind.bind fun _ => ?_
  cases ret with
  | none => exact follows_crash
  | some ret =>
      refine follows_ufs ((follows_readdirLoop known).bind fun written => ?_)
      cases written <;> trivial

theorem follows_npfsFsync : Follows u K R c (npfsFsync fid) := by
  refine follows_withAux fun f _ => ?_
  have opens : Follows u K R c (syncFd f) := by
    unfold syncFd
    split
    · trivial
    · exact Follows.bind (follows_data rfl) fun _ => trivial
    · trivial
  exact opens.bind fun _ => follows_check fun _ _ => Follows.bind (follows_data rfl) fun _ =>
    follows_check fun _ _ => follows_create

theorem follows_npfsFlock {type : UInt8} {flags : UInt32} {offset length : UInt64}
    {procid : UInt32} : Follows u K R c (npfsFlock fid type flags offset length procid) :=
  follows_withAux fun _ _ => Follows.bind (follows_data rfl) fun _ => follows_check fun _ _ =>
    follows_create

theorem follows_npfsGetlock {type : UInt8} {offset length : UInt64} {procid : UInt32} :
    Follows u K R c (npfsGetlock fid type offset length procid) :=
  follows_withAux fun _ _ => Follows.bind (follows_data rfl) fun _ => follows_check fun _ _ =>
    follows_create

theorem follows_npfsFiddestroy : Follows u K R c (npfsFiddestroy fid) := by
  have closes (handle : Option UInt64) (call : UInt64 → DataCall)
      (plain : ∀ handle, (call handle).paths = []) : Follows u K R c (ifOpen handle call) := by
    cases handle with
    | none => trivial
    | some handle => exact Follows.bind (follows_data (plain handle)) fun _ => trivial
  refine follows_step (.plain trivial) fun found known => ?_
  cases found with
  | none => trivial
  | some f =>
      exact (closes f.fd .close fun _ => rfl).bind fun _ => closes f.dir .closedir fun _ => rfl

/-- Each function of the file server keeps to its part of the table. -/
theorem follows_ufsStart (lasting : Lasting K R) (callback : Callback) :
    Follows u K R callback (ufsStart callback) := by
  cases callback with
  | attach fid afid uname aname => exact follows_npfsAttach
  | clone fid newfid => exact follows_npfsClone
  | walk fid wname => exact follows_npfsWalk lasting
  | openFid fid mode => exact follows_npfsOpen lasting
  | create fid name perm mode extension => exact follows_npfsCreate lasting
  | read fid offset count => exact follows_npfsRead
  | write fid offset count data => exact follows_npfsWrite
  | clunk fid => exact follows_npfsClunk
  | remove fid => exact follows_npfsRemove
  | stat fid => exact follows_npfsStat lasting
  | wstat fid stat pkt => exact follows_npfsWstat lasting
  | statfs fid => exact follows_npfsStatfs
  | lopen fid flags => exact follows_npfsLopen lasting
  | lcreate fid name flags perm gid => exact follows_npfsLcreate lasting
  | symlink dfid name symtgt gid => exact follows_npfsSymlink
  | mknod dfid name perm major minor gid => exact follows_npfsMknod
  | rename fid dfid name => exact follows_npfsRename
  | readlink fid => exact follows_npfsReadlink lasting
  | getattr fid mask => exact follows_npfsGetattr lasting
  | setattr fid attrs => exact follows_npfsSetattr lasting
  | xattrwalk fid newfid name => exact follows_npfsXattrwalk
  | xattrcreate fid name size flags => exact follows_npfsXattrcreate
  | xattrread fid offset count => exact follows_npfsXattrread
  | xattrwrite fid offset count data => exact follows_npfsXattrwrite
  | readdir dfid offset count => exact follows_npfsReaddir
  | fsync fid => exact follows_npfsFsync
  | flock fid type flags offset length procid clientid => exact follows_npfsFlock
  | getlock fid type offset length procid clientid => exact follows_npfsGetlock
  | link dfid fid name => exact follows_npfsLink
  | mkdir dfid name perm gid => exact follows_npfsMkdir
  | renameat dfid oname newfid name => exact follows_npfsRenameat
  | unlinkat dfid name => exact follows_npfsUnlinkat
  | fiddestroy fid => exact follows_npfsFiddestroy
  | uname2user uname => exact follows_ufs trivial
  | uid2user uid => exact follows_ufs trivial
  | startauth | checkauth | authRead | authWrite | authClunk => trivial

end Follows

end Ufs

end Npfs
