import Npfs.UfsRun
import Npfs.XattrValue

/-!
# Listing a directory of `libufs`

`npfs_read` of a directory that does not change.  A listing goes on where the stream of the
directory stands, and an entry that has been taken out of the stream is not put back.
-/

namespace Npfs

namespace Ufs

open Program

/-! ## A directory -/

/-- A directory that does not change, and the host that it is on. -/
structure Directory where
  /-- What `readdir` returns, one after another. -/
  entries : List Dirent
  /-- What the other system calls return. -/
  answer : (call : SysCall) → call.Reply
  /-- The memory of a packet that is allocated. -/
  heap : Malloc

/-- The state of a connection, and the entries behind the position of the stream. -/
abbrev Reading := Session Fid (List Dirent)

namespace Directory

variable (d : Directory) (u : Ufssrv)

/-- Make a system call. -/
def exec (call : SysCall) (rest : List Dirent) : call.Reply × List Dirent :=
  match call with
  | .data (.readdir _) => (.ok { (default : Returned) with dirent := rest.head? }, rest.tail)
  | .data (.rewinddir _) => (.ok default, d.entries)
  | call => (d.answer call, rest)

/-- What the operations of `libnpfs` need of their environment. -/
def env : Env Fid (List Dirent) where
  answer callback _ rest := ⟨callback.silence, none, false, none, rest⟩
  malloc rest := (d.heap, rest)
  flush _ rest := (true, rest)
  reset _ rest := rest

/-- Perform an operation of `libufs`. -/
def execOp : (op : Op) → Reading → op.Reply × Reading
  | .sys call, s => ((d.exec call s.world).1, { s with world := (d.exec call s.world).2 })
  | .aux fid, s => s.load fid (·.aux) none
  | .setAux fid aux, s => ((), s.modify fid fun f => { f with aux := some aux })
  | .np op, s => Npfs.exec d.env op s
  | .ufs, s => (u, s)

/-- What `npfs_read_dir` asks about an entry. -/
def lstat (f : Fid) (dirent : Dirent) : Except Errno Stat :=
  d.answer (.lstat (ufsJoin f.path.bytes dirent.name.bytes))

/-- The record of an entry other than `.` and `..`. -/
def record (s : Reading) (f : Fid) (dirent : Dirent) : Option Npwstat :=
  if isDots dirent.name then none
  else (d.lstat f dirent).toOption.map fun st =>
    ((ustat2npwstat (ufsJoin f.path.bytes dirent.name.bytes) st s.conn.dotu).run (d.execOp u) s).1

/-- The records of entries. -/
def records (s : Reading) (f : Fid) (entries : List Dirent) : List Npwstat :=
  entries.filterMap (d.record u s f)

/-- The bytes are one record for each entry. -/
def Listed (s : Reading) (f : Fid) (bytes : List UInt8) : Prop :=
  ∃ records, records.Perm (d.records u s f d.entries) ∧ bytes = wires s.conn.dotu records

/-- A fid that is open for listing the directory, for a user that the process can change to.  Each
entry has a status, and the size of its record is what a record has room for. -/
structure Opened (s : Reading) (fid : FidPtr) (f : Fid) : Prop where
  aux : (s.fids.get fid).map (·.aux) = some (some f)
  stream : s.world <:+ d.entries
  dir : f.dir.isSome
  quiet : s.error = none
  user : u.sameuser = true ∨ ∃ user, (s.fids.get fid).bind (·.user) = some user ∧
    ((d.answer (.data .geteuid)).toOption.map (·.number.toUInt32) = some (u.uid user) ∨
      (d.answer (.data (.changeUser (u.uid user)))).isOk)
  stat : ∀ dirent ∈ d.entries, ¬ isDots dirent.name → (d.lstat f dirent).isOk
  fits : ∀ wstat ∈ d.records u s f d.entries, sizeWstat wstat s.conn.dotu < 2 ^ 16
  /-- All turns of the loop are followed. -/
  turns : d.entries.length < u.turns

/-- A count is longer than each record by more than two bytes, and `np_alloc_rread` can make a
packet of it. -/
structure Roomy (s : Reading) (f : Fid) (count : UInt32) : Prop where
  more : 2 < count.toNat
  record : ∀ wstat ∈ d.records u s f d.entries, 2 + sizeWstat wstat s.conn.dotu + 2 < count.toNat
  small : count.toNat + 11 < 2 ^ 31

/-! ## The calls of a turn -/

variable {d : Directory} {u : Ufssrv} {s : Reading} {fid : FidPtr} {f : Fid}

/-- The record of a file does not depend on the stream, and the stream stays. -/
theorem run_ustat2npwstat (path : CStr) (st : Stat) (dotu : Bool) (s' : Reading) :
    (ustat2npwstat path st dotu).run (d.execOp u) s' =
      (((ustat2npwstat path st dotu).run (d.execOp u) s).1, s') := by
  have ext : (npwstatExtension path st dotu).run (d.execOp u) s' =
      (((npwstatExtension path st dotu).run (d.execOp u) s).1, s') := by
    unfold npwstatExtension
    dsimp only
    split_ifs <;> rfl
  change ((npwstatExtension path st dotu >>= _).run (d.execOp u) s') =
    (((npwstatExtension path st dotu >>= _).run (d.execOp u) s).1, s')
  rw [run_bind, run_bind, ext]
  rfl

theorem run_userUid {user : UserPtr} (owner : (s.fids.get fid).bind (·.user) = some user) :
    (userUid fid).run (d.execOp u) s = (u.uid user, s) := by
  obtain ⟨g, live, known⟩ := Option.bind_eq_some_iff.mp owner
  simp [userUid, ufs, np, execOp, Npfs.exec, Session.load, live, known]

theorem run_npfsSetUser (opened : d.Opened u s fid f) (rest : List Dirent) :
    (npfsSetUser fid).run (d.execOp u) { s with world := rest } =
      ((), { s with world := rest }) := by
  by_cases same : u.sameuser = true
  · simp [npfsSetUser, ufs, execOp, same]
  · obtain ⟨user, owner, change⟩ := opened.user.resolve_left same
    have uid := @run_userUid d u { s with world := rest } fid user owner
    by_cases already : (d.answer (.data .geteuid)).toOption.map (·.number.toUInt32) =
        some (u.uid user)
    · simp only [npfsSetUser, ufs, step_bind, done_bind, run_step, execOp, same, Bool.false_eq_true,
        if_false]
      rw [run_bind, uid]
      simp only [data, step_bind, done_bind, run_step, execOp, exec, already, if_true]
      rfl
    · obtain ⟨r, changed⟩ : ∃ r, d.answer (.data (.changeUser (u.uid user))) = .ok r := by
        have accepted := change.resolve_left already
        cases answered : d.answer (.data (.changeUser (u.uid user))) with
        | ok r => exact ⟨r, rfl⟩
        | error err =>
            rw [answered] at accepted
            cases accepted
      simp only [npfsSetUser, ufs, step_bind, done_bind, run_step, execOp, same, Bool.false_eq_true,
        if_false]
      rw [run_bind, uid]
      simp only [data, step_bind, done_bind, run_step, execOp, exec, already, if_false, changed]
      rfl

/-! ## The loop -/

section Loop

variable {dir : UInt64} {count turns n : ℕ} {dotu : Bool} {buf : List UInt8} {dirent : Dirent}
  {rest : List Dirent} {wstat : Npwstat}

theorem run_turn_dots (inside : n < count) (dots : isDots dirent.name = true) :
    (readDirLoop f dir count dotu (turns + 1) buf n).run (d.execOp u)
        { s with world := dirent :: rest } =
      (readDirLoop f dir count dotu turns buf n).run (d.execOp u) { s with world := rest } := by
  rw [readDirLoop, if_pos inside]
  simp [data, execOp, exec, Except.toOption, dots]

/-- A turn for an entry of which there is a record. -/
theorem run_turn (inside : n < count) (known : d.record u s f dirent = some wstat) :
    (readDirLoop f dir count s.conn.dotu (turns + 1) buf n).run (d.execOp u)
        { s with world := dirent :: rest } =
      let (i, mem) := npSerializeStat wstat ((buf.drop n).take (count - n - 1)) s.conn.dotu
      if i = 0 then ((store buf n mem, n), { s with world := rest })
      else (readDirLoop f dir count s.conn.dotu turns (store buf n mem) (n + i)).run (d.execOp u)
        { s with world := rest } := by
  unfold record at known
  split_ifs at known with dots
  obtain ⟨st, status, record⟩ := Option.map_eq_some_iff.mp known
  have answered : d.answer (.lstat (ufsJoin f.path.bytes dirent.name.bytes)) = .ok st := by
    unfold lstat at status
    cases asked : d.answer (.lstat (ufsJoin f.path.bytes dirent.name.bytes)) with
    | ok st' =>
        rw [asked] at status
        rw [Option.some.inj status]
    | error err =>
        rw [asked] at status
        cases status
  have made := @run_ustat2npwstat d u s (ufsJoin f.path.bytes dirent.name.bytes) st s.conn.dotu
    { s with world := rest }
  rw [record] at made
  rw [readDirLoop, if_pos inside]
  simp only [data, sys, step_bind, done_bind, run_step, execOp, exec, List.head?_cons,
    List.tail_cons, Except.toOption, Option.bind_some, dots, answered, Bool.false_eq_true, if_false]
  rw [run_bind, made]
  dsimp only
  rw [run_ite]
  rfl

theorem wires_cons_length (wstats : List Npwstat) : (wires dotu (wstat :: wstats)).length =
    2 + sizeWstat wstat dotu + (wires dotu wstats).length := by
  rw [wires_cons, List.length_append, wire_length]

theorem records_cons_dots (dots : isDots dirent.name = true) :
    d.records u s f (dirent :: rest) = d.records u s f rest :=
  List.filterMap_cons_none (if_pos dots)

theorem records_cons (known : d.record u s f dirent = some wstat) :
    d.records u s f (dirent :: rest) = wstat :: d.records u s f rest :=
  List.filterMap_cons_some known

theorem Opened.record (opened : d.Opened u s fid f) (mem : dirent ∈ d.entries)
    (proper : ¬ isDots dirent.name = true) : ∃ wstat, d.record u s f dirent = some wstat ∧
      sizeWstat wstat s.conn.dotu < 2 ^ 16 := by
  have known := opened.stat dirent mem proper
  cases status : d.lstat f dirent with
  | error err =>
      rw [status] at known
      cases known
  | ok st =>
      have made : d.record u s f dirent = some ((ustat2npwstat
          (ufsJoin f.path.bytes dirent.name.bytes) st s.conn.dotu).run (d.execOp u) s).1 := by
        rw [Directory.record, if_neg proper, status]
        rfl
      exact ⟨_, made, opened.fits _ (List.mem_filterMap.mpr ⟨dirent, mem, made⟩)⟩

/-- What the loop leaves behind: it has come to the end of the stream and has written a record for
each entry, or an entry is lost. -/
structure Looped (u : Ufssrv) (s : Reading) (f : Fid) (rest : List Dirent) (count n : ℕ)
    (front : List UInt8) (n' : ℕ) (buf' : List UInt8) (rest' : List Dirent) : Prop where
  inside : n' ≤ buf'.length
  onward : n ≤ n'
  below : n' < count
  bound : n' + (wires s.conn.dotu (d.records u s f rest')).length ≤
    n + (wires s.conn.dotu (d.records u s f rest)).length
  written : n + (wires s.conn.dotu (d.records u s f rest)).length < count → rest' = [] ∧
    buf'.take n' = front ++ wires s.conn.dotu (d.records u s f rest)
  lost : count ≤ n + (wires s.conn.dotu (d.records u s f rest)).length →
    n' + (wires s.conn.dotu (d.records u s f rest')).length <
      n + (wires s.conn.dotu (d.records u s f rest)).length
  /-- The first record is written, if any would be. -/
  moves : count ≤ n + (wires s.conn.dotu (d.records u s f rest)).length →
    (∀ wstat ∈ d.records u s f rest, n + (2 + sizeWstat wstat s.conn.dotu) < count) → n < n'
  suffix : rest' <:+ rest

/-- An entry that is passed over is behind the loop at once. -/
theorem Looped.dots {front : List UInt8} (dots : isDots dirent.name = true)
    (looped : d.Looped u s f rest count n front n' buf' rest') :
    d.Looped u s f (dirent :: rest) count n front n' buf' rest' := by
  obtain ⟨inside, onward, below, bound, written, lost, moves, suffix⟩ := looped
  rw [← @records_cons_dots d u s f dirent rest dots] at bound written lost moves
  exact ⟨inside, onward, below, bound, written, lost, moves,
    suffix.trans (List.suffix_cons dirent rest)⟩

theorem wires_records_cons {wstat : Npwstat} (known : d.record u s f dirent = some wstat) :
    (wires s.conn.dotu (d.records u s f (dirent :: rest))).length =
      2 + sizeWstat wstat s.conn.dotu + (wires s.conn.dotu (d.records u s f rest)).length := by
  rw [records_cons known]
  exact wires_cons_length _

/-- A whole record is written, and the loop goes on behind it. -/
theorem Looped.whole {wstat : Npwstat} {front : List UInt8}
    (known : d.record u s f dirent = some wstat)
    (looped : d.Looped u s f rest count (n + (2 + sizeWstat wstat s.conn.dotu))
      (front ++ (RawStat.ofWstat wstat s.conn.dotu).wire s.conn.dotu []) n' buf' rest') :
    d.Looped u s f (dirent :: rest) count n front n' buf' rest' := by
  have total := @wires_records_cons d u s f dirent rest wstat known
  obtain ⟨inside, onward, below, bound, written, lost, moves, suffix⟩ := looped
  refine ⟨inside, by omega, below, by omega, fun short => ?_, fun long => ?_,
    fun _ _ => by omega, suffix.trans (List.suffix_cons dirent rest)⟩
  · obtain ⟨rfl, content⟩ := written (by omega)
    refine ⟨rfl, ?_⟩
    rw [content, records_cons known, wires_cons, List.append_assoc]
  · have lost := lost (by omega)
    omega

/-- A record is refused, or cut short: there was no room for it, and its entry is lost. -/
theorem Looped.short {wstat : Npwstat} {front front' : List UInt8} {m : ℕ}
    (known : d.record u s f dirent = some wstat)
    (full : count ≤ n + (2 + sizeWstat wstat s.conn.dotu)) (from' : n ≤ m)
    (less : m < n + (2 + sizeWstat wstat s.conn.dotu))
    (looped : d.Looped u s f rest count m front' n' buf' rest') :
    d.Looped u s f (dirent :: rest) count n front n' buf' rest' := by
  have total := @wires_records_cons d u s f dirent rest wstat known
  obtain ⟨inside, onward, below, bound, -, -, -, suffix⟩ := looped
  refine ⟨inside, by omega, below, by omega, fun short => by omega, fun _ => ?_, fun _ fit => ?_,
    suffix.trans (List.suffix_cons dirent rest)⟩
  · rw [total, ← Nat.add_assoc]
    exact bound.trans_lt (Nat.add_lt_add_right less _)
  · have first := fit wstat (by rw [records_cons known]; exact List.mem_cons_self)
    omega

end Loop

/-! ## A call -/

section Call

variable {count : UInt32} {offset : UInt64} {rest : List Dirent}

/-- The entries that a call finds in the stream. -/
def ahead (d : Directory) (offset : UInt64) (rest : List Dirent) : List Dirent :=
  if offset = 0 then d.entries else rest

theorem run_rewind {dir : UInt64} : (rewind dir offset).run (d.execOp u) { s with world := rest } =
    ((), { s with world := d.ahead offset rest }) := by
  unfold rewind ahead
  split_ifs <;> rfl

end Call

/-! ## A whole listing -/

section Listing

variable {count : UInt32} {counts : List UInt32} {offset : UInt64} {rest : List Dirent}

end Listing

/-! ## A directory with two files -/

/-- A directory with two files of which nothing is known. -/
def twoFiles : Directory where
  entries := [".", "..", "a", "b"].map fun name => ⟨0, 0, 0, cstr name⟩
  answer call := (hostSingle.exec call).1
  heap := ⟨default, fun _ => 0⟩

/-- A server that follows as many turns. -/
def following : Ufssrv := { Ufssrv.single with turns := 5 }

/-- The directory is open. -/
def openFid : Fid := { npfsFidalloc (cstr "/") with dir := some 0 }

/-- A connection of 9P2000 with the fid. -/
def reading : Reading where
  srv := { msize := 8216, dotu := true, dotl := true, auth := none, fiddestroy := true }
  conn := { msize := 8216, dotu := false, dotl := false }
  fids := Cells.empty.push { (Npfid.new 1 : Npfid Fid) with aux := some openFid }
  pool := fun _ => none
  users := fun _ => 0
  error := none
  reqFid := none
  world := []
  fault := false

end Directory

end Ufs

end Npfs
