import Npfs.Layout

/-!
# What a parser does on a packet

A parser that follows a layout is accepted or not, and keeps its cursor and its regions inside the
packet or not, as `Layout.scan` says.
-/

namespace Npfs

open Layout LittleEndian Program

/-- One read of a parser: the operation and the cursor it started from. -/
abbrev Read := GetOp × Cbuf

namespace Read

/-- The cursor behind a read. -/
def after (read : Read) : Cbuf := (read.1.exec read.2).2

/-- Every byte that the read asked for was there. -/
def Found (read : Read) : Prop := read.2.p + read.1.width ≤ read.2.ep

/-- The pointer that `buf_alloc` returned, with the length it was asked for. -/
def region? : Read → Option (Int × Option Int)
  | (.alloc len, buf) => some (len, (buf.bufAlloc len).1)
  | _ => none

end Read

/-- A region that lies between the size field and the end of the packet. -/
def RegionInside (size : Int) (len : Int) (ptr : Option Int) : Prop :=
  ∃ start, ptr = some start ∧ 4 ≤ start ∧ start + len ≤ size

/-- The read moves the cursor forward inside the packet, and what it allocates is there. -/
structure Read.Orderly (size : Int) (read : Read) : Prop where
  forward : read.2.p ≤ read.after.p
  lower : 4 ≤ read.2.p
  upper : read.after.p ≤ size
  region : ∀ len ptr, read.region? = some (len, ptr) → RegionInside size len ptr

variable {α : Type}

/-- The parser is not stopped by `goto error` or by the final overflow test. -/
def Accepts (out : Option α × Cbuf) : Prop := out.1.isSome ∧ out.2.bufCheckOverflow = false

/-- What the parser does, given where the bytes stop. -/
def Stop.Explains (size : Int) (out : Option α × Cbuf) (reads : List Read) : Stop → Prop
  | .complete pos => Accepts out ∧ out.2.p = pos ∧ (pos : Int) ≤ size ∧
      ∀ read ∈ reads, read.Found ∧ read.Orderly size
  | .boundary => Accepts out ∧ (∀ read ∈ reads, read.Orderly size) ∧
      ∃ read ∈ reads, ¬read.Found
  | .dangling => Accepts out ∧ (∃ len, 0 < len ∧ ∃ read ∈ reads, read.region? = some (len, none))
  | .wild => Accepts out ∧ ∃ read ∈ reads, read.after.p < read.2.p
  | .torn => ¬Accepts out
  | .refused => ¬Accepts out

/-- A read that finds its bytes changes nothing about the explanation of the rest. -/
theorem Stop.Explains.cons {size : Int} {out : Option α × Cbuf} {reads : List Read} {read : Read}
    {stop : Stop} (found : read.Found) (orderly : read.Orderly size)
    (rest : stop.Explains size out reads) : stop.Explains size out (read :: reads) := by
  cases stop with
  | complete pos =>
      obtain ⟨accepts, position, bound, all⟩ := rest
      exact ⟨accepts, position, bound, List.forall_mem_cons.mpr ⟨⟨found, orderly⟩, all⟩⟩
  | boundary =>
      obtain ⟨accepts, all, short, member, missing⟩ := rest
      exact ⟨accepts, List.forall_mem_cons.mpr ⟨orderly, all⟩,
        short, List.mem_cons_of_mem _ member, missing⟩
  | dangling =>
      obtain ⟨accepts, len, positive, short, member, region⟩ := rest
      exact ⟨accepts, len, positive, short, List.mem_cons_of_mem _ member, region⟩
  | wild =>
      obtain ⟨accepts, back, member, moved⟩ := rest
      exact ⟨accepts, back, List.mem_cons_of_mem _ member, moved⟩
  | torn => exact rest
  | refused => exact rest

theorem orderly_of_fits {size : Int} {op : GetOp} {buf : Cbuf} (lower : 4 ≤ buf.p)
    (window : buf.ep = size) (positive : 0 ≤ op.width) (fits : buf.p + op.width ≤ size) :
    Read.Orderly size (op, buf) := by
  have effect := @GetOp.exec_of_fits op buf (by omega)
  refine ⟨?_, lower, ?_, ?_⟩
  · simp [Read.after, effect, Cbuf.advance, positive]
  · simpa [Read.after, effect, Cbuf.advance] using fits
  · intro len ptr region
    cases op with
    | alloc amount =>
        obtain ⟨rfl, rfl⟩ := by simpa [Read.region?] using region
        have pointer : (buf.bufAlloc amount).1 = some buf.p := congrArg Prod.fst effect
        exact ⟨buf.p, pointer, lower, fits⟩
    | _ => simp [Read.region?] at region

/-- A read that fails at the very end of the packet does nothing. -/
theorem exec_at_end {op : GetOp} {buf : Cbuf} (atEnd : buf.p = buf.ep) (positive : 0 < op.width) :
    op.exec buf = (op.blank, buf) := by
  rw [GetOp.exec_of_missing (by omega)]
  simp [Cbuf.spoil, atEnd]

/-- A read behind the end of the packet does nothing. -/
theorem exec_behind_end {op : GetOp} {buf : Cbuf} (behind : buf.ep < buf.p)
    (positive : 0 ≤ op.width) :
    op.exec buf = (op.blank, buf) := by
  rw [GetOp.exec_of_missing (by omega)]
  simp only [Cbuf.spoil, if_neg (not_lt.mpr behind.le)]

@[simp] theorem Width.op_width (width : Width) : width.op.width = width.size := by
  cases width <;> rfl

theorem Width.size_pos (width : Width) : 0 < width.size := by
  cases width <;> decide

@[simp] theorem Width.toNat_blank (width : Width) : width.toNat width.op.blank = 0 := by
  cases width <;> rfl

/-- An integer read allocates nothing. -/
@[simp] theorem region?_word (width : Width) (buf : Cbuf) :
    Read.region? (width.op, buf) = none := by
  cases width <;> rfl

theorem Rejects.run {parser : Get (Option α)} (rejects : Rejects parser) (buf : Cbuf) :
    (parser.run GetOp.exec buf).1 = none := by
  induction parser generalizing buf with
  | done result => exact rejects
  | step op next ih => exact ih _ (rejects _) _

theorem not_accepts_of_rejects {parser : Get (Option α)} (rejects : Rejects parser) (buf : Cbuf) :
    ¬Accepts (parser.run GetOp.exec buf) := by
  simp [Accepts, rejects.run buf]

/-- Once the cursor stands behind the end, the parser is not accepted any more. -/
theorem not_accepts_behind_end {layout : Layout} {parser : Get (Option α)}
    (follows : Follows layout parser) {buf : Cbuf} (behind : buf.ep < buf.p) :
    ¬Accepts (parser.run GetOp.exec buf) := by
  have overflow : buf.bufCheckOverflow = true := decide_eq_true behind
  induction layout generalizing parser with
  | done => obtain ⟨result, rfl⟩ := follows; simp [Accepts, overflow]
  | reject => exact not_accepts_of_rejects follows buf
  | word width next ih =>
      obtain ⟨rest, rfl, follows⟩ := follows
      rw [run_step, exec_behind_end behind (by simp)]
      exact ih _ (follows _)
  | str next ih =>
      obtain ⟨rest, rfl, follows⟩ := follows
      rw [run_step, exec_behind_end behind (by simp [GetOp.width]), run_step,
        exec_behind_end behind (by simp [GetOp.width])]
      exact ih (follows _ _)
  | blob =>
      obtain ⟨rest, rfl, finished⟩ := follows
      rw [run_step, exec_behind_end behind (by simp [GetOp.width]), run_step,
        exec_behind_end behind (by simp [GetOp.width, GetOp.blank, cint])]
      obtain ⟨result, finish⟩ := finished 0 none
      change ¬Accepts (run GetOp.exec (rest 0 none) buf)
      simp [finish, Accepts, overflow]

/-- At the very end of the packet a parser that reads only zeros from there on is accepted. -/
theorem run_at_end {layout : Layout} {parser : Get (Option α)} (follows : Follows layout parser)
    (zero : layout.ZeroAccepts) {buf : Cbuf} (lower : 4 ≤ buf.p) (atEnd : buf.p = buf.ep) :
    Accepts (parser.run GetOp.exec buf) ∧
      ∀ read ∈ parser.events GetOp.exec buf, Read.Orderly buf.ep read := by
  have stays : ∀ op : GetOp, 0 < op.width → Read.region? (op, buf) = none →
      Read.Orderly buf.ep (op, buf) := by
    intro op positive word
    have effect := exec_at_end atEnd positive
    refine ⟨?_, lower, ?_, ?_⟩
    · simp [Read.after, effect]
    · simp [Read.after, effect, atEnd]
    · simp [word]
  have empty : Read.Orderly buf.ep (.alloc 0, buf) :=
    orderly_of_fits lower rfl (by simp [GetOp.width]) (by simp [GetOp.width, atEnd])
  have emptyEffect : GetOp.exec (.alloc 0) buf = (some buf.p, buf) := by
    rw [GetOp.exec_of_fits (by simp [GetOp.width, atEnd])]
    simp [GetOp.value, GetOp.width, Cbuf.advance]
  have finish : ∀ result : α, Accepts ((Program.done (some result) : Get (Option α)).run
    GetOp.exec buf) := by
    intro result
    simp [Accepts, Cbuf.bufCheckOverflow, atEnd]
  induction layout generalizing parser with
  | done =>
      obtain ⟨result, rfl⟩ := follows
      exact ⟨finish result, by simp⟩
  | reject => exact zero.elim
  | word width next ih =>
      obtain ⟨rest, rfl, follows⟩ := follows
      rw [run_step, events_step, exec_at_end atEnd (by simp [width.size_pos])]
      have step := follows width.op.blank
      rw [Width.toNat_blank] at step
      obtain ⟨accepted, orderly⟩ := ih 0 step zero
      exact ⟨accepted, List.forall_mem_cons.mpr
        ⟨stays _ (by simp [width.size_pos]) (by simp), orderly⟩⟩
  | str next ih =>
      obtain ⟨rest, rfl, follows⟩ := follows
      rw [run_step, events_step, exec_at_end atEnd (by simp [GetOp.width]), run_step, events_step]
      obtain ⟨accepted, orderly⟩ := ih (follows 0 (some buf.p)) zero
      change Accepts (run GetOp.exec (rest 0 (GetOp.exec (.alloc 0) buf).1)
        (GetOp.exec (.alloc 0) buf).2) ∧ ∀ read ∈ (GetOp.int16, buf) :: (GetOp.alloc 0, buf) ::
          events GetOp.exec (rest 0 (GetOp.exec (.alloc 0) buf).1) (GetOp.exec (.alloc 0) buf).2,
          Read.Orderly buf.ep read
      rw [emptyEffect]
      exact ⟨accepted, List.forall_mem_cons.mpr ⟨stays _ (by simp [GetOp.width]) rfl,
        List.forall_mem_cons.mpr ⟨empty, orderly⟩⟩⟩
  | blob =>
      obtain ⟨rest, rfl, finished⟩ := follows
      obtain ⟨result, done⟩ := finished 0 (some buf.p)
      rw [run_step, events_step, exec_at_end atEnd (by simp [GetOp.width]), run_step, events_step]
      change Accepts (run GetOp.exec (rest 0 (GetOp.exec (.alloc 0) buf).1)
        (GetOp.exec (.alloc 0) buf).2) ∧ ∀ read ∈ (GetOp.int32, buf) :: (GetOp.alloc 0, buf) ::
          events GetOp.exec (rest 0 (GetOp.exec (.alloc 0) buf).1) (GetOp.exec (.alloc 0) buf).2,
          Read.Orderly buf.ep read
      rw [emptyEffect, done]
      exact ⟨finish result, List.forall_mem_cons.mpr ⟨stays _ (by simp [GetOp.width]) rfl,
        List.forall_mem_cons.mpr ⟨empty, by simp⟩⟩⟩


/-- A read that finds its bytes, in front of a run that is explained. -/
theorem Stop.Explains.step {size : Int} {op : GetOp} {buf : Cbuf}
    {next : op.Reply → Get (Option α)} {stop : Stop} (lower : 4 ≤ buf.p) (window : buf.ep = size)
    (positive : 0 ≤ op.width) (fits : buf.p + op.width ≤ size)
    (rest : stop.Explains size ((next (op.value buf)).run GetOp.exec (buf.advance op.width))
      ((next (op.value buf)).events GetOp.exec (buf.advance op.width))) :
    stop.Explains size (run GetOp.exec (.step op next) buf)
      (events GetOp.exec (.step op next) buf) := by
  rw [run_step, events_step, GetOp.exec_of_fits (by omega)]
  exact Stop.Explains.cons (show buf.p + op.width ≤ buf.ep by omega)
    (orderly_of_fits lower window positive fits) rest

/-- A read whose bytes are cut off spoils the run. -/
theorem not_accepts_of_cut {op : GetOp} {buf : Cbuf} {next : op.Reply → Get (Option α)}
    (inside : buf.p < buf.ep) (missing : buf.ep < buf.p + op.width)
    (stuck : ∀ behind : Cbuf, behind.ep < behind.p →
      ¬Accepts (run GetOp.exec (next op.blank) behind)) :
    ¬Accepts (run GetOp.exec (.step op next) buf) := by
  have spoiled : buf.spoil = { buf with p := buf.ep + 1 } := if_pos inside
  rw [run_step, GetOp.exec_of_missing missing]
  exact stuck _ (by simp [spoiled])

/-- A string length behind the end is followed by an empty allocation there. -/
theorem not_accepts_alloc_behind_end {next : Option Int → Get (Option α)} {layout : Layout}
    {len : Int} (nonneg : 0 ≤ len) (follows : Follows layout (next none)) {buf : Cbuf}
    (behind : buf.ep < buf.p) : ¬Accepts (run GetOp.exec (.step (GetOp.alloc len) next) buf) := by
  rw [run_step, exec_behind_end behind (by simpa [GetOp.width])]
  exact not_accepts_behind_end follows behind

theorem cint_of_lt {value : UInt32} (small : value.toNat < 2 ^ 31) :
    cint value = value.toNat := if_pos small

theorem cint_of_ge {value : UInt32} (large : 2 ^ 31 ≤ value.toNat) :
    cint value = (value.toNat : Int) - 2 ^ 32 := if_neg (by omega)

section Scan

variable {data : List UInt8} {i : Nat} {buf : Cbuf}

private theorem byte_eq (mem : buf.mem = data) (position : buf.p = i) :
    buf.byte = fun k => data.getD (i + k) 0 := by
  funext k
  simp [Cbuf.byte, mem, position]

private theorem value_word (mem : buf.mem = data) (position : buf.p = i) (width : Width) :
    width.toNat (width.op.value buf) = wordAt data i width := by
  cases width <;> simp [Width.toNat, Width.op, GetOp.value, wordAt, byte_eq mem position]

private theorem value_int16 (mem : buf.mem = data) (position : buf.p = i) :
    UInt16.toNat (GetOp.int16.value buf) = wordAt data i .u16 := value_word mem position .u16

private theorem value_int32 (mem : buf.mem = data) (position : buf.p = i) :
    UInt32.toNat (GetOp.int32.value buf) = wordAt data i .u32 := value_word mem position .u32

end Scan

/-- A parser that has read its last field is accepted where it stands. -/
theorem explains_done {parser : Get (Option α)} (follows : Follows .done parser) {size i : Nat}
    {buf : Cbuf} (position : buf.p = i) (window : buf.ep = size) (bound : i ≤ size) :
    (Stop.complete i).Explains size (parser.run GetOp.exec buf)
      (parser.events GetOp.exec buf) := by
  obtain ⟨result, rfl⟩ := follows
  refine ⟨?_, position, by exact_mod_cast bound, by simp⟩
  simp [Accepts, Cbuf.bufCheckOverflow, position, window, bound]

/-- A negative length passes the bounds test and moves the cursor back. -/
theorem explains_wild {size : Int} {len : Int} {tail : Cbuf} {next : Option Int → Get (Option α)}
    (follows : ∀ ptr, Follows .done (next ptr)) (negative : len < 0) (inside : tail.p ≤ tail.ep) :
    Stop.wild.Explains size (run GetOp.exec (.step (GetOp.alloc len) next) tail)
      (events GetOp.exec (.step (GetOp.alloc len) next) tail) := by
  have effect : (GetOp.alloc len).exec tail = (some tail.p, tail.advance len) :=
    GetOp.exec_of_fits (by simp only [GetOp.width]; omega)
  obtain ⟨result, finish⟩ := follows (some tail.p)
  refine ⟨?_, (.alloc len, tail), by simp, ?_⟩
  · rw [run_step, effect]
    simp only [finish, run_done]
    refine ⟨rfl, decide_eq_false ?_⟩
    simp only [Cbuf.advance]
    omega
  · simp only [Read.after, effect, Cbuf.advance]
    omega

/-- The bytes of a string or of data, whose length has just been read. -/
theorem explains_alloc {size j len : Nat} {tail : Cbuf} {next : Option Int → Get (Option α)}
    {layout : Layout} (follows : ∀ ptr, Follows layout (next ptr)) (zero : layout.ZeroAccepts)
    (position : tail.p = j) (window : tail.ep = size) (lower : 4 ≤ j) (bound : j ≤ size)
    {stop : Stop}
    (whole : j + len ≤ size → stop.Explains size
      (run GetOp.exec (next (some tail.p)) (tail.advance len))
      (events GetOp.exec (next (some tail.p)) (tail.advance len))) :
    (if j + len ≤ size then stop else if j = size then .dangling else .torn).Explains size
      (run GetOp.exec (.step (GetOp.alloc len) next) tail)
      (events GetOp.exec (.step (GetOp.alloc len) next) tail) := by
  split
  case isTrue fits =>
    exact Stop.Explains.step (by omega) window (by simp [GetOp.width])
      (by simp only [GetOp.width]; omega) (whole fits)
  case isFalse partly =>
    have missing : tail.ep < tail.p + (GetOp.alloc len).width := by
      simp only [GetOp.width]
      omega
    split
    case isTrue ended =>
      have effect : (GetOp.alloc len).exec tail = (none, tail) :=
        exec_at_end (by omega) (by simp only [GetOp.width]; omega)
      rw [run_step, events_step, effect]
      obtain ⟨accepted, -⟩ := run_at_end (follows none) zero (by omega : 4 ≤ tail.p) (by omega)
      refine ⟨accepted, len, by omega, (.alloc len, tail), by simp, ?_⟩
      exact congrArg (fun reply => some ((len : Int), reply)) (congrArg Prod.fst effect)
    case isFalse =>
      exact not_accepts_of_cut (by omega) missing fun _ => not_accepts_behind_end (follows none)

/-- Where the bytes stop decides what a parser that follows the layout does. -/
theorem explains_scan {layout : Layout} {parser : Get (Option α)} (follows : Follows layout parser)
    (lenient : layout.Lenient) {data : List UInt8} {size i : Nat} {buf : Cbuf}
    (mem : buf.mem = data) (position : buf.p = i) (window : buf.ep = size) (lower : 4 ≤ i)
    (bound : i ≤ size) :
    (layout.scan data size i).Explains size (parser.run GetOp.exec buf)
      (parser.events GetOp.exec buf) := by
  induction layout generalizing parser i buf with
  | done => exact explains_done follows position window bound
  | reject => exact not_accepts_of_rejects follows buf
  | word width next ih =>
      obtain ⟨rest, rfl, onward⟩ := id follows
      simp only [scan]
      split
      case isTrue ended =>
        obtain ⟨accepted, orderly⟩ := run_at_end follows lenient.1 (by omega : 4 ≤ buf.p) (by omega)
        refine ⟨accepted, by simpa [window] using orderly, (width.op, buf), by simp, ?_⟩
        simp only [Read.Found, Width.op_width]
        have := width.size_pos
        omega
      case isFalse inside =>
        split
        case isTrue short =>
          exact not_accepts_of_cut (by omega) (by simp; omega) fun _ =>
            not_accepts_behind_end (onward _)
        case isFalse enough =>
          refine Stop.Explains.step (by omega) window (by simp) (by simp; omega) ?_
          rw [← value_word mem position]
          exact ih _ (onward _) (lenient.2 _) mem (by simp [Cbuf.advance, position]) window
            (by omega) (by omega)
  | str next ih =>
      obtain ⟨rest, rfl, onward⟩ := id follows
      simp only [scan]
      split
      case isTrue ended =>
        obtain ⟨accepted, orderly⟩ := run_at_end follows lenient.1 (by omega : 4 ≤ buf.p) (by omega)
        refine ⟨accepted, by simpa [window] using orderly, (.int16, buf), by simp, ?_⟩
        simp only [Read.Found, GetOp.width]
        omega
      case isFalse inside =>
        split
        case isTrue short =>
          exact not_accepts_of_cut (by omega) (by simp [GetOp.width]; omega) fun _ =>
            not_accepts_alloc_behind_end (by simp) (onward _ none)
        case isFalse enough =>
          have front : wordAt data i .u16 = UInt16.toNat (GetOp.int16.value buf) :=
            (value_int16 mem position).symm
          rw [front]
          have tailPosition : (buf.advance 2).p = ((i + 2 : Nat) : Int) := by
            simp [Cbuf.advance, position]
          refine Stop.Explains.step (by omega) window (by simp [GetOp.width])
            (by simp only [GetOp.width]; omega) ?_
          refine explains_alloc (onward _) lenient.1 tailPosition window (by omega) (by omega)
            fun whole => ih (onward _ _) lenient.2 mem ?_ window (by omega) whole
          simp [Cbuf.advance, position]
  | blob =>
      obtain ⟨rest, rfl, finished⟩ := id follows
      have onward : ∀ count ptr, Follows .done (rest count ptr) := finished
      simp only [scan]
      split
      case isTrue ended =>
        obtain ⟨accepted, orderly⟩ := run_at_end follows trivial (by omega : 4 ≤ buf.p) (by omega)
        refine ⟨accepted, by simpa [window] using orderly, (.int32, buf), by simp, ?_⟩
        simp only [Read.Found, GetOp.width]
        omega
      case isFalse inside =>
        split
        case isTrue short =>
          exact not_accepts_of_cut (by omega) (by simp [GetOp.width]; omega) fun _ =>
            not_accepts_alloc_behind_end (by simp [cint, GetOp.blank]) (onward 0 none)
        case isFalse enough =>
          have front : wordAt data i .u32 = UInt32.toNat (GetOp.int32.value buf) :=
            (value_int32 mem position).symm
          rw [front]
          have tailPosition : (buf.advance 4).p = ((i + 4 : Nat) : Int) := by
            simp [Cbuf.advance, position]
          have tailWindow : (buf.advance 4).ep = size := window
          refine Stop.Explains.step (by omega) window (by simp [GetOp.width])
            (by simp only [GetOp.width]; omega) ?_
          split
          case isTrue large =>
            -- The count is negative as a C `int`: the test passes and the cursor moves back.
            refine explains_wild (onward _) ?_
              (show (buf.advance 4).p ≤ (buf.advance 4).ep by omega)
            have := UInt32.toNat_lt (GetOp.int32.value buf)
            rw [cint_of_ge large]
            omega
          case isFalse small =>
            rw [show cint (GetOp.int32.value buf) = (UInt32.toNat (GetOp.int32.value buf) : Int)
              from cint_of_lt (by omega)]
            refine explains_alloc (onward _) trivial tailPosition window (by omega) (by omega)
              fun whole => explains_done (onward _ _) ?_ tailWindow whole
            simp [Cbuf.advance, position]

/-! ## The regions of a message -/

/-- The strings that a message carries, in layout order. -/
def messageStrings (dotu : Bool) (fc : Npfcall) : MsgType → List Npstr
  | .tversion | .rversion => [fc.version]
  | .tauth | .tattach => [fc.uname, fc.aname]
  | .rerror => [fc.ename]
  | .twalk => fc.wnames.toList.take fc.nwname.toNat
  | .tcreate => if dotu then [fc.name, fc.extension] else [fc.name]
  | .rstat | .twstat =>
    [fc.stat.name, fc.stat.uid, fc.stat.gid, fc.stat.muid] ++
      if dotu then [fc.stat.extension] else []
  | .tlcreate | .tmknod | .trename | .txattrwalk | .txattrcreate | .tlink | .tmkdir
  | .tunlinkat => [fc.name]
  | .tsymlink => [fc.name, fc.symtgt]
  | .rreadlink => [fc.symtgt]
  | .tlock | .tgetlock | .rgetlock => [fc.clientid]
  | .trenameat => [fc.oname, fc.name]
  | _ => []

/-- The data that a message carries: its count and where it starts. -/
def messageData (fc : Npfcall) : MsgType → Option (UInt32 × Option Int)
  | .rread | .rreaddir | .twrite => some (fc.count, fc.data)
  | _ => none

/-- The region of a string, as `buf_get_str` asks for it. -/
def Npstr.region (s : Npstr) : Int × Option Int := (s.len.toNat, s.str)

/-- The regions of a message, as the parser asks for them. -/
def messageRegions (dotu : Bool) (fc : Npfcall) (type : MsgType) : List (Int × Option Int) :=
  (messageStrings dotu fc type).map Npstr.region ++
    (messageData fc type).toList.map fun data => (cint data.1, data.2)

/-- The region that an operation allocates when it is answered by `reply`. -/
def GetOp.allocated : (op : GetOp) → op.Reply → List (Int × Option Int)
  | .alloc len, reply => [(len, reply)]
  | _, _ => []

/-- Whatever the reads of the parser return, its result and the regions it allocates satisfy
`holds`. -/
def Collects {α : Type} (holds : List (Int × Option Int) → α → Prop) :
    List (Int × Option Int) → Get α → Prop
  | collected, .done result => holds collected result
  | collected, .step op next =>
    ∀ reply, Collects holds (collected ++ op.allocated reply) (next reply)

theorem filterMap_region? (op : GetOp) (buf : Cbuf) (reads : List Read) :
    ((op, buf) :: reads).filterMap Read.region? =
      op.allocated (op.exec buf).1 ++ reads.filterMap Read.region? := by
  cases op <;> rfl

theorem Collects.run {α : Type} {holds : List (Int × Option Int) → α → Prop}
    {collected : List (Int × Option Int)} {parser : Get α}
    (collects : Collects holds collected parser) (buf : Cbuf) :
    holds (collected ++ (parser.events GetOp.exec buf).filterMap Read.region?)
      (parser.run GetOp.exec buf).1 := by
  induction parser generalizing collected buf with
  | done result => simpa [Collects] using collects
  | step op next ih =>
      rw [events_step, filterMap_region?, ← List.append_assoc]
      exact ih _ (collects (op.exec buf).1) (op.exec buf).2

theorem take_set {β : Type} {entries : List β} {i : Nat} (inside : i < entries.length)
    (entry : β) : (entries.set i entry).take (i + 1) = entries.take i ++ [entry] := by
  rw [List.take_add_one, List.take_set_of_le (Nat.le_refl i), List.getElem?_set_self inside]
  rfl

section Collecting

variable {α : Type} {holds : List (Int × Option Int) → α → Prop}

theorem collects_getWnames {rest : Vector Npstr MAXWELEM → Get α} {n i : Nat}
    (old : Vector Npstr MAXWELEM) (collected : List (Int × Option Int)) (bound : i + n ≤ MAXWELEM)
    (onward : ∀ (names : List Npstr) (wnames : Vector Npstr MAXWELEM),
      wnames.toList.take (i + n) = old.toList.take i ++ names →
        Collects holds (collected ++ names.map Npstr.region) (rest wnames)) :
    Collects holds collected (getWnames n i old >>= rest) := by
  induction n generalizing i old collected with
  | zero =>
      have whole := onward [] old (by simp)
      rw [List.map_nil, List.append_nil] at whole
      exact whole
  | succ n ih =>
      intro len str
      refine ih _ _ (by omega) fun names wnames same => ?_
      have front : (old.setIfInBounds i ⟨len, str⟩).toList.take (i + 1) =
          old.toList.take i ++ [⟨len, str⟩] := by
        rw [Vector.toList_setIfInBounds]
        exact take_set (by simp; omega) _
      have whole := onward (⟨len, str⟩ :: names) wnames (by
        rw [show i + (n + 1) = i + 1 + n by omega, same, front]
        simp)
      simpa [Npstr.region, List.append_assoc, GetOp.allocated] using whole

theorem collects_getWqids {rest : Vector Npqid MAXWELEM → Get α} {n i : Nat}
    (old : Vector Npqid MAXWELEM) (collected : List (Int × Option Int))
    (onward : ∀ wqids, Collects holds collected (rest wqids)) :
    Collects holds collected (getWqids n i old >>= rest) := by
  induction n generalizing i old with
  | zero => exact onward old
  | succ n ih =>
      intro type version path
      simp only [GetOp.allocated, List.append_nil]
      exact ih _

end Collecting

theorem collects_getBody (dotu : Bool) (fc : Npfcall) (type : MsgType) :
    Collects (fun regions result => ∀ fc', result = some fc' →
      fc'.type = fc.type ∧ fc'.size = fc.size ∧ regions = messageRegions dotu fc' type) []
      (getBody dotu fc type) := by
  cases type
  case twalk =>
    intro fid newfid nwname
    dsimp only [GetOp.allocated, List.append_nil]
    change Collects _ _ (if UInt16.toNat nwname > MAXWELEM then _ else _)
    split
    · rintro _ ⟨⟩
    · refine collects_getWnames _ _ (by omega) fun names wnames same => ?_
      rintro _ ⟨⟩
      refine ⟨rfl, rfl, ?_⟩
      simp at same
      simp [messageRegions, messageStrings, messageData, same]
  case rwalk =>
    intro nwqid
    change Collects _ _ (if UInt16.toNat nwqid > MAXWELEM then _ else _)
    split
    · rintro _ ⟨⟩
    · refine collects_getWqids _ _ fun wqids => ?_
      rintro _ ⟨⟩
      refine ⟨rfl, rfl, ?_⟩; simp [messageRegions, messageStrings, messageData, GetOp.allocated]
  case tlerror | terror => rintro _ ⟨⟩
  case tauth | tattach | rerror | tcreate | rstat | twstat =>
    cases dotu
    all_goals
      repeat intro reply
      cases reply
      refine ⟨rfl, rfl, ?_⟩
      simp [messageRegions, messageStrings, messageData, Npstr.region, GetOp.allocated]
  -- The other cases read their fields one after another: name the replies and compare.
  all_goals
    repeat intro reply
    cases reply
    refine ⟨rfl, rfl, ?_⟩
    simp [messageRegions, messageStrings, messageData, Npstr.region, GetOp.allocated]

end Npfs
