import Npfs.FidInvariant
import Npfs.Lexical
import Npfs.UfsCalls

/-!
# Names that stay in the exported tree

The server of `libufs` makes its paths out of the name of the exported tree and the names of its
clients, and looks at neither.  Where the paths lead, read component by component, is followed through
any requests, together with the paths that the descriptors of the fids have been opened with.
-/

namespace Npfs

namespace Ufs

open Program Lexical

/-! ## Paths -/

/-- A component of a path, unless it is empty or `.`. -/
def component (text : List UInt8) : Option (Move (List UInt8)) :=
  if text = [] ∨ text = (cstr ".").bytes then none
  else if text = (cstr "..").bytes then some .up
  else some (.down text)

/-- The components of a path. -/
def components (path : List UInt8) : List (Move (List UInt8)) :=
  (path.splitOn slash).filterMap component

/-- Where a path leads.  The empty path is the root to `ufs_join`, which puts a slash behind it. -/
def place (path : List UInt8) : Place (List UInt8) :=
  Place.read ⟨path.headD slash = slash, 0, []⟩ (components path)

section Paths

variable {u : Ufssrv} {base name front back path : List UInt8}

@[simp] theorem components_nil : components [] = [] := rfl

theorem components_append (front back : List UInt8) :
    components (front ++ slash :: back) = components front ++ components back := by
  rw [components, List.splitOn_append_cons_self, List.filterMap_append]
  rfl

theorem components_of_notMem (single : slash ∉ path) :
    components path = (component path).toList := by
  rw [components, List.splitOn_eq_singleton single]
  cases found : component path <;> simp [found]

/-- A slash at the end of a path says nothing. -/
theorem place_slash (base : List UInt8) : place (base ++ [slash]) = place base := by
  have same : components (base ++ [slash]) = components base := by
    simpa using components_append base []
  have head : (base ++ [slash]).headD slash = base.headD slash := by cases base <;> rfl
  rw [place, place, same, head]

/-- A name behind a slash is read from the place in front of it. -/
theorem place_append (base name : List UInt8) :
    place (base ++ slash :: name) = (place base).read (components name) := by
  have head : (base ++ slash :: name).headD slash = base.headD slash := by cases base <;> rfl
  rw [place, place, head, components_append, Place.read_append]

/-- A joined path is its base, without a slash at its end, in front of a slash and the name. -/
theorem ufsJoin_eq (noNul : 0 ∉ base) (name : List UInt8) :
    ∃ dir, place dir = place base ∧
      (ufsJoin base name).bytes = dir ++ slash :: (npStrdup name).bytes := by
  have parts : base.getLast? = some slash → base = base.dropLast ++ [slash] := fun ends => by
    obtain ⟨front, rfl⟩ := List.getLast?_eq_some_iff.mp ends
    simp
  unfold ufsJoin
  split_ifs with ends
  · refine ⟨base.dropLast, ?_, ?_⟩
    · conv_rhs => rw [parts ends]
      exact (place_slash _).symm
    · rw [npStrdup_append noNul]
      conv_lhs => rw [parts ends]
      simp
  · refine ⟨base, rfl, ?_⟩
    have plain : 0 ∉ base ++ [slash] := by simpa using ⟨noNul, by decide⟩
    simpa using npStrdup_append plain name

theorem place_ufsJoin (noNul : 0 ∉ base) (name : List UInt8) :
    place (ufsJoin base name).bytes = (place base).read (components (npStrdup name).bytes) := by
  obtain ⟨dir, same, joined⟩ := ufsJoin_eq noNul name
  rw [joined, place_append, same]

/-- What is in front of the last slash. -/
theorem dirname_eq {path : CStr} (single : slash ∉ back) (parts : path.bytes = front ++ slash :: back) :
    dirname path = front := by
  have base : (basename path).bytes = back := by
    have reversed : path.bytes.reverse = back.reverse ++ slash :: front.reverse := by simp [parts]
    have apart : ∀ b ∈ back.reverse, decide (b ≠ slash) = true := fun b member =>
      decide_eq_true fun same => single (same ▸ List.mem_reverse.mp member)
    have noNul : 0 ∉ back := fun member => path.noNul (by simp [parts, member])
    rw [basename, reversed, List.takeWhile_append_of_pos apart,
      List.takeWhile_cons_of_neg (by simp), List.append_nil, List.reverse_reverse]
    have whole := npStrdup_append noNul []
    rw [List.append_nil] at whole
    exact whole.trans (List.append_nil back)
  have here : slash ∈ path.bytes := by simp [parts]
  have rest : path.strlen - (basename path).strlen - 1 = front.length := by
    rw [CStr.strlen, CStr.strlen, base, parts, List.length_append, List.length_cons]
    omega
  rw [dirname, if_pos here, rest, parts, List.take_left]

/-! ## Below the exported tree -/

/-- A path leads to the root of the exported tree or to something below it. -/
def Inside (u : Ufssrv) (path : List UInt8) : Prop :=
  (place u.treeaux.bytes).Contains (place path)

/-- A name, read from a path component by component, never leaves the exported tree. -/
def Tame (u : Ufssrv) (path name : List UInt8) : Prop :=
  (place u.treeaux.bytes).Keeps (place path) (components (npStrdup name).bytes)

/-- A path in the exported tree, that was made of another one in it. -/
structure Under (u : Ufssrv) (path : CStr) : Prop where
  self : Inside u path.bytes
  dir : Inside u (dirname path)

/-- A path with a tame name behind it stays in the exported tree. -/
theorem under_ufsJoin (noNul : 0 ∉ base) (tame : Tame u base name) :
    Under u (ufsJoin base name) := by
  obtain ⟨dir, same, joined⟩ := ufsJoin_eq noNul name
  refine ⟨?_, ?_⟩
  · rw [Inside, place_ufsJoin noNul]
    exact tame.contains
  · rw [Tame] at tame
    generalize (npStrdup name).bytes = text at joined tame
    by_cases several : slash ∈ text
    · obtain ⟨back, front, parts, single⟩ :=
        List.eq_append_cons_of_mem (List.mem_reverse.mpr several)
      have text : text = front.reverse ++ slash :: back.reverse := by
        rw [← List.reverse_reverse text, parts]
        simp
      rw [text, components_append, Place.keeps_append] at tame
      have whole : (ufsJoin base name).bytes =
          (dir ++ slash :: front.reverse) ++ slash :: back.reverse := by
        rw [joined, text, List.append_assoc]
        rfl
      have apart : slash ∉ back.reverse := fun member => single (List.mem_reverse.mp member)
      rw [dirname_eq apart whole, Inside, place_append, same]
      exact tame.1.contains
    · rw [dirname_eq several joined, Inside, same]
      exact tame.start

/-- A name of a directory entry is tame. -/
theorem tame_entry {name : CStr} (inside : Inside u path) (single : slash ∉ name.bytes)
    (proper : isDots name = false) : Tame u path name.bytes := by
  have text : (npStrdup name.bytes).bytes = name.bytes := by
    have whole := npStrdup_append name.noNul []
    rw [List.append_nil] at whole
    exact whole.trans (List.append_nil _)
  rw [Tame, text, components_of_notMem single]
  have other : name.bytes ≠ (cstr "..").bytes := fun same => by
    have dots : name = cstr ".." := by
      cases name
      congr
    simp [isDots, dots] at proper
  rw [component]
  split_ifs with empty
  · exact inside
  · exact ⟨inside, inside.down _⟩

end Paths

/-! ## Requests -/

/-- The descriptors, with the paths that they have been opened with. -/
abbrev Opened := UInt64 → Option CStr

/-- The path that a descriptor is opened with. -/
def recordOpen : (op : Op) → op.Reply → Opened → Opened
  | .sys (.open path _ _), .ok fd, opened => Function.update opened fd (some path)
  | _, _, opened => opened

/-- Perform an operation of `libufs`, and keep account of the descriptors. -/
def execOpOpened (u : Ufssrv) (op : Op) (w : State × Opened) : op.Reply × (State × Opened) :=
  let (reply, s) := execOp u op w.1
  (reply, s, recordOpen op reply w.2)

/-- Perform an operation of a request, and keep account of the descriptors. -/
def execOpened (u : Ufssrv) : (op : Npfs.Op) → State × Opened → op.Reply × (State × Opened)
  | .call callback, w => (ufsStart callback).run (execOpOpened u) w
  | op, w =>
    let (reply, s) := exec u op w.1
    (reply, s, w.2)

/-- Serve a request, and keep account of the descriptors. -/
def stepOpened (u : Ufssrv) (npErrnoToLinux : UInt32 → UInt32) (w : State × Opened)
    (tc : Npfcall) : Option (State × Opened) :=
  some ((serve npErrnoToLinux tc none).run (execOpened u) (w.1.receive, w.2)).2

/-- The paths that are handed to a system call.  A name in `unlinkat` is read from the directory of the
descriptor, unless it begins with a slash. -/
def pathsOf (opened : Opened) : SysCall → List (Option (List UInt8))
  | .unlinkat fd name _ =>
    if name.bytes.head? = some slash then [some name.bytes]
    else [(opened fd).map fun path => (ufsJoin path.bytes name.bytes).bytes]
  | call => call.paths.map fun path => some path.bytes

/-- The names that a function is given are tame where it joins them to the path of a fid. -/
def TameAt (u : Ufssrv) (p : FidPtr) (f : Fid) : Callback → Prop
  | .walk fid wname => p = fid → Tame u f.path.bytes wname
  | .create fid name _ _ _ | .lcreate fid name _ _ _ | .symlink fid name _ _
  | .mknod fid name _ _ _ _ | .mkdir fid name _ _ | .link fid _ name | .rename _ fid name =>
    p = fid → Tame u f.path.bytes name
  | .renameat dfid oname newfid name =>
    (p = dfid → Tame u f.path.bytes oname) ∧ (p = newfid → Tame u f.path.bytes name)
  | .wstat fid stat pkt => p = fid →
    Tame u (dirname f.path) (Npfcall.text { (default : Npfcall) with pkt } stat.name)
  | _ => True

/-- A name to unlink is tame where the descriptor of the fid has been opened, or will be. -/
def TameUnlinkat (u : Ufssrv) (opened : Opened) (f : Fid) (name : List UInt8) : Prop :=
  (npStrdup name).bytes.head? ≠ some slash ∧
    ∀ path, (f.fd = none ∧ path = f.path ∨ f.fd.bind opened = some path) → Tame u path.bytes name

/-- The names that a function is given never leave the exported tree. -/
structure TameCall (u : Ufssrv) (w : State × Opened) (c : Callback) : Prop where
  attach : ∀ fid afid uname aname, c = .attach fid afid uname aname → Tame u u.treeaux.bytes aname
  reads : ∀ event ∈ (ufsStart c).events (execOpOpened u) w, ∀ p f, event.1 = .aux p →
    auxOf event.2.1 p = some f → TameAt u p f c
  unlinkat : ∀ fid name f, c = .unlinkat fid name → auxOf w.1 fid = some f →
    TameUnlinkat u w.2 f name

/-- The names of a request never leave the exported tree. -/
def TameRequest (u : Ufssrv) (npErrnoToLinux : UInt32 → UInt32) (w : State × Opened)
    (tc : Npfcall) : Prop :=
  ∀ event ∈ (serve npErrnoToLinux tc none).events (execOpened u) (w.1.receive, w.2),
    ∀ c, event.1 = .call c → TameCall u event.2 c

/-- What requests with tame names lead to, with the account of the descriptors. -/
abbrev ReachedTame (u : Ufssrv) (npErrnoToLinux : UInt32 → UInt32) (msize : UInt32) (host : Host)
    (w : State × Opened) : Prop :=
  Transition.Reaches (stepOpened u npErrnoToLinux) (TameRequest u npErrnoToLinux)
    (.start msize host, fun _ => none) w

/-- The paths that a system call is handed lead into the exported tree. -/
def CallInside (u : Ufssrv) (opened : Opened) (call : SysCall) : Prop :=
  ∀ path ∈ pathsOf opened call, ∃ bytes, path = some bytes ∧ Inside u bytes

/-- The names of the entries of a directory have no slash. -/
def ProperNames (host : Host) : Prop :=
  ∀ k dirent, (host.fates k).returned.dirent = some dirent → slash ∉ dirent.name.bytes

/-! ## What is kept -/

/-- The paths of all fids and of all descriptors lead into the exported tree. -/
structure Safe (u : Ufssrv) (w : State × Opened) : Prop where
  fids : Every (fun _ f => Under u f.path ∧ ∀ d, f.fd = some d → (w.2 d).isSome) w.1
  opened : ∀ d path, w.2 d = some path → Inside u path.bytes
  proper : ProperNames w.1.world

/-- The descriptors that have been opened. -/
def level (w : State × Opened) : Set UInt64 := {d | (w.2 d).isSome}

/-- What is known of a `Fid` that a function reads. -/
structure Knows (u : Ufssrv) (c : Callback) (known : Set UInt64) (p : FidPtr) (f : Fid) : Prop where
  under : Under u f.path
  fd : ∀ d, f.fd = some d → d ∈ known
  tame : TameAt u p f c

/-- What is known of the answers of system calls. -/
def Learns (known : Set UInt64) : (call : SysCall) → call.Reply → Prop
  | .open .., .ok fd => fd ∈ known
  | .data (.readdir _), .ok r => ∀ dirent, r.dirent = some dirent → slash ∉ dirent.name.bytes
  | _, _ => True

section Kept

variable {u : Ufssrv} {w : State × Opened} {c : Callback} {known known' : Set UInt64}
  {p : FidPtr} {f f' : Fid} {path : CStr} {call : SysCall}

theorem Handed.mem {d : UInt64} (handed : Handed (Learns known) d) : d ∈ known := by
  obtain ⟨path, flags, mode, learned⟩ := handed
  exact learned

theorem tameAt_of_path (same : f'.path = f.path) : TameAt u p f' c = TameAt u p f c := by
  cases c <;> simp only [TameAt, same]

theorem lasting_knows : Lasting (Knows u c known) (Learns known) where
  keep knows same :=
    { under := same.path ▸ knows.under
      fd := fun d found => (same.fd d found).elim (knows.fd d) Handed.mem
      tame := tameAt_of_path same.path ▸ knows.tame }

theorem noNul_dirname (path : CStr) : 0 ∉ dirname path := by
  intro member
  rw [dirname] at member
  split_ifs at member
  · exact path.noNul (List.mem_of_mem_take member)
  · exact path.noNul member

/-- The paths that a function makes lead into the exported tree. -/
theorem Aims.under (aims : Aims u (Knows u c known) (Learns known) c path)
    (attach : ∀ fid afid uname aname, c = .attach fid afid uname aname →
      Tame u u.treeaux.bytes aname) : Under u path := by
  cases aims with
  | attach => exact under_ufsJoin u.treeaux.noNul (attach _ _ _ _ rfl)
  | walk knows | create knows | lcreate knows | symlink knows | mknod knows | mkdir knows
  | rename knows | link knows => exact under_ufsJoin (CStr.noNul _) (knows.tame rfl)
  | renameatOld knows => exact under_ufsJoin (CStr.noNul _) (knows.tame.1 rfl)
  | renameatNew knows => exact under_ufsJoin (CStr.noNul _) (knows.tame.2 rfl)
  | wstat knows => exact under_ufsJoin (noNul_dirname _) (knows.tame rfl)
  | read knows found entry proper =>
      exact under_ufsJoin (CStr.noNul _) (tame_entry knows.under.self (found _ entry) proper)
  | readdir knows found entry proper =>
      exact under_ufsJoin (CStr.noNul _) (tame_entry knows.under.self (found _ entry) proper)

theorem Names.inside (names : Names u (Knows u c known) (Learns known) c path)
    (attach : ∀ fid afid uname aname, c = .attach fid afid uname aname →
      Tame u u.treeaux.bytes aname) : Inside u path.bytes := by
  rcases names with ⟨fid, f, knows, rfl⟩ | aims
  · exact knows.under.self
  · exact (aims.under attach).self

/-- A system call is handed paths in the exported tree, unless it is made by `npfs_unlinkat` to
unlink a name. -/
theorem callInside_of_does (does : Does u (Knows u c known) (Learns known) c (.sys call))
    (attach : ∀ fid afid uname aname, c = .attach fid afid uname aname →
      Tame u u.treeaux.bytes aname) (opened : Opened) :
    (∃ fid name fd removedir, c = .unlinkat fid name ∧ call = .unlinkat fd (npStrdup name) removedir) ∨
      CallInside u opened call := by
  have inside (other : ∀ fd name removedir, call ≠ .unlinkat fd name removedir)
      (paths : ∀ path ∈ call.paths, Inside u path.bytes) : CallInside u opened call := by
    have listed : pathsOf opened call = call.paths.map fun path => some path.bytes := by
      cases call with
      | unlinkat fd name removedir => exact absurd rfl (other fd name removedir)
      | _ => rfl
    intro path member
    rw [listed] at member
    obtain ⟨path, named, rfl⟩ := List.mem_map.mp member
    exact ⟨_, rfl, paths path named⟩
  cases does with
  | plain plain =>
      cases call with
      | malloc size =>
          exact .inr (inside (by simp) fun path named => by cases named)
      | data call =>
          have empty : call.paths = [] := plain
          refine .inr (inside (by simp) fun path named => ?_)
          rw [SysCall.paths, empty] at named
          cases named
      | _ => exact plain.elim
  | sys paths bare =>
      refine .inr (inside ?_ fun path named => (paths path named).inside attach)
      rintro fd name removedir rfl
      exact bare
  | commits callback knows | clears callback knows =>
      refine .inr (inside (by simp) fun path named => ?_)
      obtain rfl := List.mem_singleton.mp named
      exact knows.under.self
  | unlinks callback => exact .inl ⟨_, _, _, _, callback, rfl⟩

/-- A descriptor that is recorded stays recorded. -/
theorem recordOpen_isSome {opened : Opened} {d : UInt64} (recorded : (opened d).isSome) (op : Op)
    (reply : op.Reply) : (recordOpen op reply opened d).isSome := by
  cases op with
  | sys call =>
      cases call with
      | «open» path flags mode =>
          cases reply with
          | error errno => exact recorded
          | ok fd =>
              rw [recordOpen, Function.update_apply]
              split_ifs
              · rfl
              · exact recorded
      | _ => exact recorded
  | _ => exact recorded

theorem make_fates {host : Host} {fate : Fate} : (host.make fate path).2.fates = host.fates := by
  unfold Host.make
  split <;> rfl

theorem arrange_fates {host : Host} {fate : Fate} : (host.arrange fate).2.fates = host.fates := by
  unfold Host.arrange
  split <;> rfl

theorem modify_fates {host : Host} {change : Xattrs → Xattrs} :
    (host.modify path change).fates = host.fates := by
  unfold Host.modify
  split <;> rfl

/-- Each system call takes what the host has decided about it. -/
theorem exec_fates (host : Host) (call : SysCall) :
    (host.exec call).2.fates = fun k => host.fates (k + 1) := by
  cases call with
  | «open» path flags mode =>
      simp only [Host.exec, Host.openFile]
      split_ifs
      · exact make_fates
      · rfl
      · rfl
  | lsetxattr path name value flags =>
      simp only [Host.exec, Host.setXattr]
      split
      · rfl
      · rfl
      · split_ifs
        · rfl
        · rfl
        · exact modify_fates
  | lremovexattr path name =>
      simp only [Host.exec, Host.removeXattr]
      split
      · rfl
      · rfl
      · split_ifs
        · exact modify_fates
        · rfl
  | mkdir | symlink | mknod => exact make_fates
  | rename | link | unlink | rmdir | remove | unlinkat => exact arrange_fates
  | lstat | lgetxattr | llistxattr | malloc | data => rfl

theorem ProperNames.of_later {host host' : Host} (proper : ProperNames host)
    (later : host'.fates = host.fates ∨ host'.fates = fun k => host.fates (k + 1)) :
    ProperNames host' := by
  intro k dirent found
  rcases later with same | later
  · exact proper k dirent (same ▸ found)
  · rw [later] at found
    exact proper (k + 1) dirent found

/-- The fates of the calls to come are those that were to come. -/
theorem execOp_fates (op : Op) (s : State) : (execOp u op s).2.world.fates = s.world.fates ∨
    (execOp u op s).2.world.fates = fun k => s.world.fates (k + 1) := by
  cases op with
  | sys call => exact .inr (exec_fates s.world call)
  | aux p => exact .inl (congrArg Host.fates load_world)
  | np op =>
      rcases @env_world s op with same | next
      · exact .inl (congrArg Host.fates same)
      · exact .inr (congrArg Host.fates next)
  | _ => exact .inl rfl

/-- A `Fid` that a function stores has a path in the exported tree, and a descriptor that has been
opened. -/
theorem Does.stored (does : Does u (Knows u c known) (Learns known) c (.setAux p f))
    (attach : ∀ fid afid uname aname, c = .attach fid afid uname aname →
      Tame u u.treeaux.bytes aname) :
    Under u f.path ∧ ∀ d, f.fd = some d → d ∈ known := by
  have fresh (d : UInt64) (none_ : (none : Option UInt64) = some d) : d ∈ known := by cases none_
  cases does with
  | plain plain => exact plain.elim
  | stays knows same =>
      have kept := lasting_knows.keep knows same
      exact ⟨kept.under, kept.fd⟩
  | moves knows aims moved =>
      refine ⟨moved.path ▸ aims.under attach, fun d found => ?_⟩
      exact (moved.fd d found).elim (knows.fd d) Handed.mem
  | attached callback same =>
      subst callback
      refine ⟨same.path ▸ under_ufsJoin u.treeaux.noNul (attach _ _ _ _ rfl), fun d found => ?_⟩
      exact (same.fd d found).elim (fresh d) Handed.mem
  | cloned callback knows | fetches callback knows | fetched callback knows =>
      exact ⟨knows.under, fresh⟩
  | xattrcreated callback knows | xattrwritten callback knows => exact ⟨knows.under, knows.fd⟩

/-- The answer of an operation in a safe state. -/
theorem told_of_safe (safe : Safe u w) (op : Op)
    (tame : ∀ p f, op = .aux p → auxOf w.1 p = some f → TameAt u p f c) :
    Op.Told u (Knows u c (level (execOpOpened u op w).2)) (Learns (level (execOpOpened u op w).2))
      op (execOpOpened u op w).1 := by
  cases op with
  | ufs => rfl
  | setAux | np => trivial
  | aux p =>
      intro f member
      have both : Every (fun q g => (Under u g.path ∧ ∀ d, g.fd = some d → (w.2 d).isSome) ∧
          (q = p → TameAt u p g c)) w.1 := fun q g found =>
        ⟨safe.fids q g found, fun same => tame p g rfl (same ▸ found)⟩
      obtain ⟨⟨under, fd⟩, tame⟩ := @Every.read u _ _ both p f member
      exact ⟨under, fd, tame rfl⟩
  | sys call =>
      cases call with
      | «open» path flags mode =>
          change Learns _ _ (w.1.world.exec (.open path flags mode)).1
          cases answered : (w.1.world.exec (.open path flags mode)).1 with
          | error errno => trivial
          | ok fd =>
              have recorded : (execOpOpened u (.sys (.open path flags mode)) w).2.2 fd =
                  some path := by
                change recordOpen (.sys (.open path flags mode))
                  (w.1.world.exec (.open path flags mode)).1 w.2 fd = _
                rw [answered, recordOpen, Function.update_self]
              exact Option.isSome_iff_exists.mpr ⟨path, recorded⟩
      | data call =>
          cases call with
          | readdir dir =>
              change Learns _ _ (w.1.world.exec (.data (.readdir dir))).1
              cases answered : (w.1.world.exec (.data (.readdir dir))).1 with
              | error errno => trivial
              | ok r =>
                  intro dirent found
                  have answer : Host.answer (w.1.world.fates 0) (w.1.world.fates 0).returned =
                      .ok r := answered
                  rw [Host.answer] at answer
                  split at answer
                  · obtain rfl := Except.ok.inj answer
                    exact safe.proper 0 dirent found
                  · cases answer
          | _ => trivial
      | _ => trivial

/-- One operation of a function keeps the state safe. -/
theorem Safe.does {op : Op} (safe : Safe u w)
    (does : Does u (Knows u c (level w)) (Learns (level w)) c op)
    (attach : ∀ fid afid uname aname, c = .attach fid afid uname aname →
      Tame u u.treeaux.bytes aname) : Safe u (execOpOpened u op w).2 where
  fids := by
    have stored : Every (fun _ f => Under u f.path ∧ ∀ d, f.fd = some d → (w.2 d).isSome)
        (execOp u op w.1).2 := by
      refine every_execOp safe.fids fun p f same => ?_
      subst same
      exact does.stored attach
    intro p f found
    obtain ⟨under, fd⟩ := stored p f found
    exact ⟨under, fun d here => recordOpen_isSome (fd d here) op _⟩
  opened d path recorded := by
    change recordOpen op (execOp u op w.1).1 w.2 d = some path at recorded
    cases op with
    | sys call =>
        cases call with
        | «open» path' flags mode =>
            have inside : CallInside u w.2 (.open path' flags mode) := by
              rcases callInside_of_does does attach w.2 with ⟨_, _, _, _, _, same⟩ | inside
              · cases same
              · exact inside
            obtain ⟨bytes, same, inside⟩ := inside _ (List.mem_singleton_self _)
            obtain rfl := Option.some.inj same
            generalize (execOp u (.sys (.open path' flags mode)) w.1).1 = reply at recorded
            cases reply with
            | error errno => exact safe.opened d path recorded
            | ok fd =>
                rw [recordOpen, Function.update_apply] at recorded
                split_ifs at recorded
                · obtain rfl := Option.some.inj recorded
                  exact inside
                · exact safe.opened d path recorded
        | _ => exact safe.opened d path recorded
    | _ => exact safe.opened d path recorded
  proper := safe.proper.of_later (execOp_fates op w.1)

/-- More is known when more descriptors have been opened. -/
theorem told_mono (above : known ≤ known') (op : Op) (reply : op.Reply)
    (told : Op.Told u (Knows u c known) (Learns known) op reply) :
    Op.Told u (Knows u c known') (Learns known') op reply := by
  cases op with
  | ufs => exact told
  | setAux | np => trivial
  | aux p => exact fun f member =>
      { under := (told f member).under
        fd := fun d found => above ((told f member).fd d found)
        tame := (told f member).tame }
  | sys call =>
      cases call with
      | «open» path flags mode =>
          cases reply with
          | error errno => trivial
          | ok fd => exact above told
      | data call =>
          cases call with
          | readdir dir =>
              cases reply with
              | error errno => trivial
              | ok r => exact told
          | _ => trivial
      | _ => trivial

/-- A function that is given tame names keeps the state safe, and keeps to the table with what is
known at each time. -/
theorem safe_ufsStart (safe : Safe u w) (tame : TameCall u w c) :
    Safe u ((ufsStart c).run (execOpOpened u) w).2 ∧
      ∀ event ∈ (ufsStart c).events (execOpOpened u) w, Safe u event.2 ∧
        Does u (Knows u c (level event.2)) (Learns (level event.2)) c event.1 := by
  have follows (known : Set UInt64) (_ : level w ≤ known) :
      Follows u (Knows u c known) (Learns known) c (ufsStart c) :=
    follows_ufsStart lasting_knows c
  exact Always.growing (fun _ _ above op reply => told_mono above op reply) follows
    (fun event member safe does => ⟨fun d recorded => recordOpen_isSome recorded event.1 _,
      told_of_safe safe event.1 fun p f => tame.reads event member p f,
      safe.does does tame.attach⟩) safe

/-! ### Unlinking -/

/-- A tame name in the directory of a descriptor. -/
theorem callInside_unlinkat {opened : Opened} {fd : UInt64} {name : List UInt8} {removedir : Bool}
    (relative : (npStrdup name).bytes.head? ≠ some slash) (recorded : opened fd = some path)
    (tame : Tame u path.bytes name) :
    CallInside u opened (.unlinkat fd (npStrdup name) removedir) := by
  intro found member
  rw [pathsOf, if_neg relative, recorded, List.mem_singleton] at member
  refine ⟨_, member, ?_⟩
  rw [Inside, place_ufsJoin path.noNul, npStrdup_bytes]
  exact tame.contains

/-- Where `unlinkat` is called, its path is in the exported tree. -/
def UnlinksInside (u : Ufssrv) (event : Op × (State × Opened)) : Prop :=
  ∀ fd name removedir, event.1 = .sys (.unlinkat fd name removedir) →
    CallInside u event.2.2 (.unlinkat fd name removedir)

theorem unlinksInside_of_other {op : Op}
    (other : ∀ fd name removedir, op ≠ .sys (.unlinkat fd name removedir)) :
    UnlinksInside u (op, w) := fun fd name removedir same => absurd same (other fd name removedir)

theorem unlinksInside_createRerror {α : Type} {ecode : Errno} :
    Throughout (execOpOpened u) (UnlinksInside u) (createRerror ecode : Code (Option α)) w :=
  throughout_step.mpr ⟨unlinksInside_of_other (by simp),
    throughout_step.mpr ⟨unlinksInside_of_other (by simp), throughout_done.mpr trivial⟩⟩

theorem unlinksInside_create {constructor : Malloc → Option Npfcall} :
    Throughout (execOpOpened u) (UnlinksInside u) (create constructor) w :=
  throughout_step.mpr ⟨unlinksInside_of_other (by simp), throughout_done.mpr trivial⟩

theorem unlinksInside_npfsUnlinkat {fid : FidPtr} {name : List UInt8} (safe : Safe u w)
    (tame : ∀ f, auxOf w.1 fid = some f → TameUnlinkat u w.2 f name) :
    Throughout (execOpOpened u) (UnlinksInside u) (npfsUnlinkat fid name) w := by
  rw [npfsUnlinkat, withAux, throughout_step]
  refine ⟨unlinksInside_of_other (by simp), ?_⟩
  cases found : auxOf w.1 fid with
  | none =>
      have missing : (execOpOpened u (.aux fid) w).1 = none := load_none found
      rw [missing]
      exact throughout_step.mpr ⟨unlinksInside_of_other (by simp), throughout_done.mpr trivial⟩
  | some f =>
  have loaded : execOpOpened u (.aux fid) w = (some f, w) := by
    rw [execOpOpened, execOp, load_aux found]
    rfl
  rw [loaded]
  obtain ⟨relative, tame⟩ := tame f found
  -- The directory is open already, or is opened here.
  have opens : Throughout (execOpOpened u) (UnlinksInside u) (dirFd f) w ∧
      ∀ fd, ((dirFd f).run (execOpOpened u) w).1 = .ok fd →
        ∃ path, ((dirFd f).run (execOpOpened u) w).2.2 fd = some path ∧ Tame u path.bytes name := by
    unfold dirFd
    split
    · rename_i fd opened
      refine ⟨throughout_done.mpr trivial, ?_⟩
      rintro _ ⟨⟩
      obtain ⟨path, recorded⟩ := Option.isSome_iff_exists.mp ((safe.fids fid f found).2 fd opened)
      exact ⟨path, recorded, tame path (.inr (by rw [opened]; exact recorded))⟩
    · rename_i opened
      refine ⟨throughout_step.mpr ⟨unlinksInside_of_other (by simp), throughout_done.mpr trivial⟩,
        fun fd answered => ⟨f.path, ?_, tame f.path (.inl ⟨opened, rfl⟩)⟩⟩
      have answered : (execOp u (.sys (.open f.path 0 0)) w.1).1 = .ok fd := answered
      change recordOpen (.sys (.open f.path 0 0)) (execOp u (.sys (.open f.path 0 0)) w.1).1 w.2 fd = _
      rw [answered, recordOpen, Function.update_self]
  refine throughout_bind.mpr ⟨opens.1, ?_⟩
  have recorded := opens.2
  generalize (dirFd f).run (execOpOpened u) w = result at recorded
  obtain ⟨answer, w'⟩ := result
  refine throughout_step.mpr ⟨unlinksInside_of_other (by simp), ?_⟩
  cases answer with
  | error errno => exact unlinksInside_createRerror
  | ok fd =>
  obtain ⟨path, recorded, tame⟩ := recorded fd rfl
  have unlinks (w'' : State × Opened) (same : w''.2 = w'.2) (removedir : Bool) :
      UnlinksInside u (.sys (.unlinkat fd (npStrdup name) removedir), w'') := by
    rintro _ _ _ ⟨⟩
    exact callInside_unlinkat relative (same ▸ recorded) tame
  refine throughout_step.mpr ⟨unlinks _ rfl false, ?_⟩
  generalize (execOpOpened u (.sys (.unlinkat fd (npStrdup name) false)) _).1 = unlinked
  cases unlinked with
  | ok done => exact unlinksInside_create
  | error errno =>
      change Throughout _ _ (if errno = EISDIR then _ else _) _
      split
      · refine throughout_step.mpr ⟨unlinks _ rfl true, ?_⟩
        generalize (execOpOpened u (.sys (.unlinkat fd (npStrdup name) true)) _).1 = unlinked
        cases unlinked with
        | ok done => exact unlinksInside_create
        | error errno => exact unlinksInside_createRerror
      · exact unlinksInside_createRerror

/-- The system calls of a function that is given tame names stay in the exported tree. -/
theorem callsInside_ufsStart (safe : Safe u w) (tame : TameCall u w c) :
    ∀ event ∈ (ufsStart c).events (execOpOpened u) w, ∀ call, event.1 = .sys call →
      CallInside u event.2.2 call := by
  intro event member call same
  have does := ((safe_ufsStart safe tame).2 event member).2
  rw [same] at does
  rcases callInside_of_does does tame.attach event.2.2 with unlinks | inside
  · obtain ⟨fid, name, fd, removedir, rfl, rfl⟩ := unlinks
    exact unlinksInside_npfsUnlinkat safe (fun f found => tame.unlinkat fid name f rfl found) event
      member fd _ removedir same
  · exact inside

/-- An operation of a request with tame names keeps the state safe. -/
theorem safe_execOpened (safe : Safe u w) (op : Npfs.Op)
    (tame : ∀ c, op = .call c → TameCall u w c) : Safe u (execOpened u op w).2 := by
  have plain : Safe u ((Npfs.exec env op w.1).2, w.2) := by
    refine ⟨safe.fids.env op, safe.opened, ?_⟩
    rcases @env_world w.1 op with same | next
    · exact safe.proper.of_later (.inl (congrArg Host.fates same))
    · exact safe.proper.of_later (.inr (congrArg Host.fates next))
  cases op with
  | call c => exact (safe_ufsStart safe (tame c rfl)).1
  | _ => exact plain

end Kept

/-! ## Runs -/

/-- All paths that a request hands to system calls lead into the exported tree. -/
def PathsInside (u : Ufssrv) (npErrnoToLinux : UInt32 → UInt32) (w : State × Opened)
    (tc : Npfcall) : Prop :=
  ∀ event ∈ (serve npErrnoToLinux tc none).events (execOpened u) (w.1.receive, w.2),
    ∀ c, event.1 = .call c → ∀ inner ∈ (ufsStart c).events (execOpOpened u) event.2,
      ∀ call, inner.1 = .sys call → CallInside u inner.2.2 call

/-- Each name that a request walks moves the fid by one component at most. -/
def WalksNear (mayWalk : List UInt8 → Prop) (u : Ufssrv) (npErrnoToLinux : UInt32 → UInt32)
    (w : State × Opened) (tc : Npfcall) : Prop :=
  ∀ event ∈ (serve npErrnoToLinux tc none).events (execOpened u) (w.1.receive, w.2),
    ∀ fid wname, event.1 = .call (.walk fid wname) → mayWalk wname →
      ∀ f f', auxOf event.2.1 fid = some f →
        auxOf (execOpened u (.call (.walk fid wname)) event.2).2.1 fid = some f' →
          (place f.path.bytes).Near (place f'.path.bytes)

/-- A name of one component at most. -/
def Single (name : List UInt8) : Prop := (components (npStrdup name).bytes).length ≤ 1

section Runs

variable {u : Ufssrv} {npErrnoToLinux : UInt32 → UInt32} {msize : UInt32} {host : Host}
  {w : State × Opened} {tc : Npfcall}

theorem Safe.serve (safe : Safe u w) (tame : TameRequest u npErrnoToLinux w tc) :
    Safe u ((serve npErrnoToLinux tc none).run (execOpened u) (w.1.receive, w.2)).2 ∧
      ∀ event ∈ (serve npErrnoToLinux tc none).events (execOpened u) (w.1.receive, w.2),
        Safe u event.2 := by
  have received : Safe u (w.1.receive, w.2) := ⟨safe.fids, safe.opened, safe.proper⟩
  exact run_along (execOpened u) _ (fun event member safe =>
    safe_execOpened safe event.1 fun c same => tame event member c same) received

theorem ReachedTame.safe (proper : ProperNames host)
    (run : ReachedTame u npErrnoToLinux msize host w) : Safe u w := by
  refine Transition.Reaches.invariant (Safe u) ?_ ?_ run
  · refine ⟨fun p f found => ?_, fun d path recorded => ?_, proper⟩
    · cases found
    · cases recorded
  · intro w w' tc safe tame taken
    obtain rfl := Option.some.inj taken
    exact (safe.serve tame).1

/-- The account of the descriptors changes nothing. -/
theorem run_execOpOpened {α : Type} (code : Code α) (w : State × Opened) :
    (code.run (execOpOpened u) w).1 = (code.run (execOp u) w.1).1 ∧
      (code.run (execOpOpened u) w).2.1 = (code.run (execOp u) w.1).2 := by
  induction code generalizing w with
  | done result => exact ⟨rfl, rfl⟩
  | step op next ih => exact ih _ _

/-- The `Fid` of a fid has the path of `f`, or that with a name behind it. -/
def WalkedFrom (f : Fid) (wname : List UInt8) (fid p : FidPtr) (g : Fid) : Prop :=
  p = fid → g.path = f.path ∨ g.path = ufsJoin f.path.bytes wname

/-- A walk leaves the fid where it is, or moves it to the name that it is given. -/
theorem every_npfsWalk {s : State} {fid : FidPtr} {wname : List UInt8} {f : Fid}
    (found : auxOf s fid = some f) : Every (WalkedFrom f wname fid)
      ((npfsWalk fid wname).run (execOp u) s).2 := by
  have start : Every (WalkedFrom f wname fid) s := fun p g known same => by
    subst same
    rw [found] at known
    exact .inl (congrArg Fid.path (Option.some.inj known).symm)
  have plain (op : Op) (plain : op.Plain) : op.Stores (WalkedFrom f wname fid) := by
    rintro p g rfl
    exact plain.elim
  rw [npfsWalk, run_withAux found]
  refine start.code ((always_bind _ _).mpr ((always_npfsSetUser plain).mono fun _ _ => ?_))
  have looked : (fidstat fid f).Always (fun _ _ => True) (Op.Stores (WalkedFrom f wname fid))
      fun answer => f.Stays (fun _ => True) answer.2 :=
    always_fidstat stores_sys (fun _ _ => stores_sys) fun f' stays =>
      stores_setAux fun _ => .inl stays.path
  refine (always_bind _ _).mpr (looked.mono fun answer stays => ?_)
  obtain ⟨err, g⟩ := answer
  cases err with
  | error errno => exact always_createRerror plain
  | ok done =>
  refine (always_bind _ _).mpr
    ((always_ufsLstat stores_sys fun _ _ => stores_sys).mono fun st _ => ?_)
  cases st with
  | error errno => exact always_createRerror plain
  | ok st =>
      have moved : WalkedFrom f wname fid fid { g with path := ufsJoin g.path.bytes wname } :=
        fun _ => .inr (by rw [stays.path])
      exact ⟨stores_setAux moved, fun _ _ => trivial⟩

/-- A walked name with a single component leads to a place near by. -/
theorem walksNear : WalksNear Single u npErrnoToLinux w tc := by
  intro event _ fid wname _ single f f' found found'
  have same : (execOpened u (.call (.walk fid wname)) event.2).2.1 =
      ((npfsWalk fid wname).run (execOp u) event.2.1).2 := (run_execOpOpened _ _).2
  rw [same] at found'
  rcases every_npfsWalk found fid f' found' rfl with stayed | walked
  · exact .inl (by rw [stayed])
  · rw [walked, place_ufsJoin f.path.noNul]
    exact Place.near_read single

/-- The names of its clients do not lead a server out of the exported tree, as long as none of them
climbs out of it when it is read component by component from where it is applied; and a walked name
with one component moves the fid by one component at most. -/
theorem ReachedTame.confined (proper : ProperNames host)
    (run : ReachedTame u npErrnoToLinux msize host w)
    (tame : TameRequest u npErrnoToLinux w tc) :
    PathsInside u npErrnoToLinux w tc ∧ WalksNear Single u npErrnoToLinux w tc := by
  refine ⟨fun event member c same => ?_, walksNear⟩
  exact callsInside_ufsStart (((run.safe proper).serve tame).2 event member) (tame event member c same)

/-- A server of a directory. -/
def Ufssrv.exporting : Ufssrv := { Ufssrv.single with treeaux := cstr "/srv" }

/-- A client attaches to a tree. -/
def attachingTo (aname : List UInt8) : Npfcall :=
  { attaching with pkt := aname, aname := ⟨UInt16.ofNat aname.length, some 0⟩ }

/-- A new connection. -/
def freshOpened : State × Opened := (.start 8192 hostSingle, fun _ => none)

/-- An operation that gives a function no name but the one to attach to. -/
def namesOnly (aname : List UInt8) : Npfs.Op → Bool
  | .call (.attach _ _ _ name) => name == aname
  | .call (.uname2user _) | .call (.uid2user _) => true
  | .call _ => false
  | _ => true

theorem proper_hostSingle : ProperNames hostSingle := fun k dirent found => by cases found

theorem confined_attach : PathsInside .exporting id freshOpened (attachingTo (cstr "a").bytes) ∧
    WalksNear Single .exporting id freshOpened (attachingTo (cstr "a").bytes) := by
  refine ReachedTame.confined proper_hostSingle (Transition.Reaches.start) fun event member c same => ?_
  have named : ((serve id (attachingTo (cstr "a").bytes) none).events (execOpened .exporting)
      (freshOpened.1.receive, freshOpened.2)).all
        (fun event => namesOnly (cstr "a").bytes event.1) = true := by rfl
  have named := List.all_eq_true.mp named event member
  rw [same] at named
  cases c with
  | attach fid afid uname aname =>
      obtain rfl : aname = (cstr "a").bytes := eq_of_beq named
      refine ⟨?_, fun _ _ _ _ _ _ => trivial, fun _ _ _ same => by cases same⟩
      rintro _ _ _ _ ⟨⟩
      exact ⟨Place.contains_self, Place.contains_self.down _⟩
  | uname2user | uid2user =>
      refine ⟨fun _ _ _ _ same => ?_, fun _ _ _ _ _ _ => trivial, fun _ _ _ same => ?_⟩
      · cases same
      · intro found
        cases same
  | _ => cases named

/-- A client can attach to what is above the exported tree. -/
theorem not_confined : ¬ ∀ (u : Ufssrv) (npErrnoToLinux : UInt32 → UInt32) (msize : UInt32)
    (host : Host) (w : State × Opened) (tc : Npfcall), ProperNames host →
    Transition.Reaches (stepOpened u npErrnoToLinux) (fun _ _ => True)
      (.start msize host, fun _ => none) w →
    PathsInside u npErrnoToLinux w tc ∧ WalksNear (fun _ => True) u npErrnoToLinux w tc := by
  intro always
  have inside := (always .exporting id 8192 hostSingle freshOpened (attachingTo (cstr "..").bytes)
    proper_hostSingle .start).1 _ (List.mem_of_getElem? (i := 9) rfl) _ rfl _
      (List.mem_of_getElem? (i := 3) rfl) _ rfl _ (List.mem_singleton_self _)
  obtain ⟨bytes, same, inside⟩ := inside
  obtain rfl := Option.some.inj same
  exact absurd inside.below (by decide)

end Runs

end Ufs

end Npfs
