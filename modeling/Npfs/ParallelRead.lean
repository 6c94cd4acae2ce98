import Npfs.Fid
import Npfs.ParserRun
import Npfs.Transition

/-!
# Reading a file in pieces

`npc_readnb` reads with one request for each piece, and calls back when all of them are answered.
What the pieces bring is counted, and not copied.
-/

namespace Npfs

namespace ParallelRead

/-! ## The arguments -/

/-- A file, as a server serves it. -/
structure ServedFile where
  bytes : List UInt8
  /-- The size of a file is an `off_t`. -/
  small : bytes.length < 2 ^ 63

/-- The data of a Rread. -/
def ServedFile.tread (file : ServedFile) (offset : UInt64) (count : UInt32) : List UInt8 :=
  (file.bytes.drop offset.toNat).take count.toNat

/-- An `Npcfid`, with `fsys->msize`. -/
structure Npcfid where
  iounit : UInt32
  msize : UInt32
  /-- The reader of the file system takes `msize` for an `int`. -/
  small : msize.toNat < 2 ^ 31
  header : IOHDRSZ ≤ msize
  /-- `npc_open` and `npc_create` leave it so; before them it is 0. -/
  opened : iounit ≤ msize - IOHDRSZ

/-- A call of `npc_readnb`, and what becomes of what it asks for. -/
structure Call where
  file : ServedFile
  fid : Npcfid
  buf : List UInt8
  count : UInt32
  offset : UInt64
  /-- The buffer has room for what is read. -/
  room : count.toNat ≤ buf.length
  /-- There is memory for the record. -/
  alloc : Bool
  /-- The Tread of a piece is made, and `npc_rpcnb` takes it. -/
  sends : ℕ → Bool

namespace Call

variable (x : Call)

/-! ## `npc_readn` -/

/-- `npc_read` of what belongs at a position of the buffer: how much it is, and the buffer. -/
def npcRead (buf : List UInt8) (n : ℕ) (count : UInt32) (offset : UInt64) : ℕ × List UInt8 :=
  let count := if count > x.fid.msize - IOHDRSZ then x.fid.msize - IOHDRSZ else count
  let data := x.file.tread offset count
  let l := if data.length > count.toNat then count.toNat else data.length
  (l, buf.take n ++ data.take l ++ buf.drop (n + l))

/-- The loop of `npc_readn`. -/
def readnLoop : (turns : ℕ) → (n : UInt32) → (buf : List UInt8) → UInt32 × List UInt8
  | 0, n, buf => (n, buf)
  | turns + 1, n, buf =>
    if n < x.count then
      let (l, buf) := x.npcRead buf n.toNat (x.count - n) (x.offset + n.toUInt64)
      if l = 0 then (n, buf) else readnLoop turns (n + .ofNat l) buf
    else
      (n, buf)

/-- `npc_readn`, whose requests are all answered: the count and the buffer. -/
def npcReadn : UInt32 × List UInt8 := x.readnLoop (x.count.toNat + 1) 0 x.buf

/-! ## `npc_readnb` -/

/-- How many pieces there are. -/
def pieces : ℕ :=
  (x.count / x.fid.iounit).toNat + if x.count % x.fid.iounit = 0 then 0 else 1

/-- `nreq`. -/
def nreq : ℤ := cint (.ofNat x.pieces)

/-- `(i+1)*iounit` is an `int`. -/
def Fits (i : ℕ) : Prop := (i + 1) * x.fid.iounit.toNat < 2 ^ 31

/-- `n`. -/
def size (i : ℕ) : UInt32 :=
  if .ofNat ((i + 1) * x.fid.iounit.toNat) > x.count then
    x.count - .ofNat (i * x.fid.iounit.toNat)
  else x.fid.iounit

/-- `offset + i*iounit`. -/
def start (i : ℕ) : UInt64 := x.offset + .ofNat (i * x.fid.iounit.toNat)

/-- The data of the Rread of a piece. -/
def data (i : ℕ) : List UInt8 := x.file.tread (x.start i) (x.size i)

end Call

/-- An `Npcrcall`. -/
structure Npcrcall where
  ename : Option CStr
  ecode : UInt32
  count : UInt32

/-- The loop of `npc_read_cb`: an error, or the count. -/
def verdict (iounit : UInt32) :
    List Npcrcall → (nocount : Bool) → (count : UInt32) → Except (CStr × UInt32) UInt32
  | [], _, count => .ok count
  | rc :: calls, nocount, count =>
    match rc.ename with
    | some ename => .error (ename, rc.ecode)
    | none =>
      if nocount then
        if rc.count ≠ 0 then .error (cstr "invalid read", EIO) else verdict iounit calls true count
      else
        verdict iounit calls (decide (rc.count < iounit)) (count + rc.count)

/-- What the callback is called with. -/
def argument : Except (CStr × UInt32) UInt32 → UInt32
  | .error _ => 0xFFFFFFFF
  | .ok count => count

/-- How far `npc_readnb` is. -/
inductive Pc where
  | start
  | sending (i : ℕ)
  | returned (ret : ℤ)
  /-- It has stopped for good: it waits for a lock that it holds, or its behaviour is undefined. -/
  | stuck
  deriving DecidableEq

/-- An `Npcread`, with the thread of `npc_readnb` and the requests that are not answered. -/
structure Npcread where
  pc : Pc
  nreq : ℤ
  nresp : ℤ
  err : Bool
  calls : ℕ → Npcrcall
  flight : List ℕ
  /-- `r->lock` is held for good. -/
  held : Bool
  freed : Bool
  /-- What the callback has been called with. -/
  called : List UInt32
  buf : List UInt8
  /-- A division by zero, or an `int` that has overflowed. -/
  fault : Bool
  /-- The record has been used after it was freed. -/
  dangling : Bool

/-- What is done next. -/
inductive Event where
  /-- The next step of `npc_readnb`. -/
  | main
  /-- The reply to a piece. -/
  | reply (i : ℕ)

namespace Npcread

variable (x : Call) (r : Npcread)

/-- Nothing has been done. -/
def before : Npcread where
  pc := .start
  nreq := 0
  nresp := 0
  err := false
  calls := fun _ => ⟨none, 0, 0⟩
  flight := []
  held := false
  freed := false
  called := []
  buf := x.buf
  fault := false
  dangling := false

instance (i : ℕ) : Decidable (x.Fits i) := inferInstanceAs (Decidable (_ < _))

/-- The next step of `npc_readnb`. -/
def npcReadnb : Option Npcread :=
  match r.pc with
  | .start =>
    if x.fid.iounit = 0 then some { r with pc := .stuck, fault := true }
    else if !x.alloc then some { r with pc := .returned (-1) }
    else some { r with pc := .sending 0, nreq := x.nreq }
  | .sending i =>
    if (i : ℤ) < x.nreq then
      let r := { r with dangling := r.dangling || r.freed }
      if ¬ x.Fits i then some { r with pc := .stuck, fault := true }
      else if x.sends i then some { r with pc := .sending (i + 1), flight := i :: r.flight }
      else some { r with pc := .stuck, nreq := i, err := true, held := true }
    else some { r with pc := .returned 0 }
  | .returned _ | .stuck => none

/-- `npc_read_cb` of a piece. -/
def npcReadCb (i : ℕ) : Npcread :=
  let rc : Npcrcall := ⟨none, 0, .ofNat (x.data i).length⟩
  let r := { r with
    calls := Function.update r.calls i rc
    flight := r.flight.erase i
    dangling := r.dangling || r.freed }
  if r.held then r
  else
    let r := { r with nresp := r.nresp + 1 }
    if r.nreq - r.nresp > 0 then r
    else if r.err then { r with freed := true }
    else
      let calls := (List.range r.nreq.toNat).map r.calls
      { r with
        called := r.called ++ [argument (verdict x.fid.iounit calls false 0)]
        freed := true }

/-- Perform a step. -/
def step : Event → Option Npcread
  | .main => r.npcReadnb x
  | .reply i => if i ∈ r.flight then some (r.npcReadCb x i) else none

/-! ## What it is for -/

/-- Nothing is left to be done. -/
def Complete : Prop := ∀ e, r.step x e = none

/-- The call has failed and does not call back, or has called back once with what `npc_readn` gives,
which is in the buffer. -/
def Agrees : Prop :=
  r.fault = false ∧ (r.pc = .returned (-1) ∧ r.called = [] ∨
    r.pc = .returned 0 ∧ r.called = [x.npcReadn.1] ∧ r.buf = x.npcReadn.2)

end Npcread

/-- The call has what it needs, and there is nothing to do for it: no piece has failed, and the
buffer has the bytes of the file already. -/
structure Call.Works (x : Call) : Prop where
  iounit : x.fid.iounit ≠ 0
  served : x.alloc = true → x.count ≠ 0 ∧ x.pieces * x.fid.iounit.toNat < 2 ^ 31 ∧
    (∀ i < x.pieces, x.sends i = true) ∧
    (∀ i < x.pieces, 2 ^ 64 ≤ x.offset.toNat + i * x.fid.iounit.toNat →
      x.file.bytes.length ≤ x.offset.toNat + i * x.fid.iounit.toNat - 2 ^ 64) ∧
    (x.file.bytes.drop x.offset.toNat).take x.count.toNat <+: x.buf

/-! ## What is read -/

section Reads

variable {x : Call} {i : ℕ}

/-- The bytes that are asked for. -/
def Call.wanted (x : Call) : List UInt8 := (x.file.bytes.drop x.offset.toNat).take x.count.toNat

theorem length_wanted :
    x.wanted.length = min x.count.toNat (x.file.bytes.length - x.offset.toNat) := by
  rw [Call.wanted, List.length_take, List.length_drop]

theorem iounit_pos (known : x.fid.iounit ≠ 0) : 0 < x.fid.iounit.toNat := by
  have other : x.fid.iounit.toNat ≠ (0 : UInt32).toNat := fun is => known (UInt32.toNat_inj.mp is)
  exact Nat.pos_of_ne_zero other

theorem limit_toNat : (x.fid.msize - IOHDRSZ).toNat = x.fid.msize.toNat - 24 :=
  UInt32.toNat_sub_of_le _ _ x.fid.header

theorem limit_pos (known : x.fid.iounit ≠ 0) : 0 < (x.fid.msize - IOHDRSZ).toNat :=
  (iounit_pos known).trans_le (UInt32.le_iff_toNat_le.mp x.fid.opened)

theorem iounit_lt : x.fid.iounit.toNat < 2 ^ 31 := by
  have opened : x.fid.iounit.toNat ≤ _ := UInt32.le_iff_toNat_le.mp x.fid.opened
  have small := x.fid.small
  rw [limit_toNat] at opened
  omega

/-- What a turn of the loop of `npc_readn` reads. -/
theorem npcRead_wanted {n : ℕ} (known : x.fid.iounit ≠ 0) (below : n ≤ x.wanted.length)
    (more : n < x.count.toNat) : ∃ l, n + l ≤ x.wanted.length ∧ (l = 0 → n = x.wanted.length) ∧
      x.npcRead (x.wanted.take n ++ x.buf.drop n) n (x.count - .ofNat n)
        (x.offset + (UInt32.ofNat n).toUInt64) =
          (l, x.wanted.take (n + l) ++ x.buf.drop (n + l)) := by
  have length := @length_wanted x
  have size := x.file.small
  have small : (UInt32.ofNat n).toNat = n := UInt32.toNat_ofNat_of_lt' (more.trans x.count.toNat_lt)
  have count : (x.count - .ofNat n).toNat = x.count.toNat - n := by
    rw [UInt32.toNat_sub_of_le _ _ (UInt32.le_iff_toNat_le.mpr (by omega)), small]
  have offset : (x.offset + (UInt32.ofNat n).toUInt64).toNat = x.offset.toNat + n := by
    have bound := x.offset.toNat_lt
    rw [UInt64.toNat_add, UInt32.toNat_toUInt64, small]
    omega
  set c := if x.count - .ofNat n > x.fid.msize - IOHDRSZ then x.fid.msize - IOHDRSZ
    else x.count - .ofNat n with capped
  have positive : 0 < c.toNat := by
    rw [capped]
    split_ifs
    · exact limit_pos known
    · omega
  have below' : c.toNat ≤ x.count.toNat - n := by
    rw [capped]
    split_ifs with large
    · have large : (x.fid.msize - IOHDRSZ).toNat < (x.count - .ofNat n).toNat := large
      omega
    · omega
  set l := ((x.file.bytes.drop (x.offset.toNat + n)).take c.toNat).length with read
  have amount : l = min c.toNat (x.file.bytes.length - (x.offset.toNat + n)) := by
    rw [read, List.length_take, List.length_drop]
  refine ⟨l, by omega, by omega, ?_⟩
  have tread : x.file.tread (x.offset + (UInt32.ofNat n).toUInt64) c =
      (x.file.bytes.drop (x.offset.toNat + n)).take c.toNat := by
    rw [ServedFile.tread, offset]
  have whole : ¬ l > c.toNat := by omega
  have front : (x.wanted.take n).length = n := by
    rw [List.length_take]
    omega
  have piece : (x.file.bytes.drop (x.offset.toNat + n)).take c.toNat =
      (x.wanted.drop n).take l := by
    rw [Call.wanted, List.drop_take, List.drop_drop, List.take_take, List.take_eq_take_iff,
      List.length_drop]
    omega
  simp only [Call.npcRead, ← capped, tread, ← read, if_neg whole]
  have kept : (x.wanted.take n ++ x.buf.drop n).take n = x.wanted.take n := List.take_left' front
  have behind : (x.wanted.take n ++ x.buf.drop n).drop (n + l) = x.buf.drop (n + l) := by
    have gone : (x.wanted.take n).drop (n + l) = [] := List.drop_eq_nil_of_le (by omega)
    rw [List.drop_append, gone, List.nil_append, List.drop_drop, front]
    congr 1
    omega
  have whole' : ((x.file.bytes.drop (x.offset.toNat + n)).take c.toNat).take l =
      (x.wanted.drop n).take l := by
    rw [← piece]
    exact List.take_of_length_le le_rfl
  rw [kept, behind, whole', ← List.take_add]

theorem readnLoop_eq {turns n : ℕ} (known : x.fid.iounit ≠ 0) (below : n ≤ x.wanted.length)
    (enough : x.wanted.length - n < turns) :
    x.readnLoop turns (.ofNat n) (x.wanted.take n ++ x.buf.drop n) =
      (.ofNat x.wanted.length, x.wanted ++ x.buf.drop x.wanted.length) := by
  have short : x.wanted.length ≤ x.count.toNat := by
    rw [length_wanted]
    exact min_le_left _ _
  have bound := x.count.toNat_lt
  induction turns generalizing n with
  | zero => omega
  | succ turns ih =>
      have small : (UInt32.ofNat n).toNat = n :=
        UInt32.toNat_ofNat_of_lt' (show n < 2 ^ 32 by omega)
      rw [Call.readnLoop]
      by_cases more : UInt32.ofNat n < x.count
      · have more' : n < x.count.toNat := by
          have less := UInt32.lt_iff_toNat_lt.mp more
          omega
        obtain ⟨l, inside, last, ran⟩ := npcRead_wanted known below more'
        rw [if_pos more, small, ran]
        dsimp only
        by_cases zero : l = 0
        · rw [if_pos zero, zero, Nat.add_zero, ← last zero, List.take_of_length_le (by omega)]
        · rw [if_neg zero, ← UInt32.ofNat_add]
          exact ih inside (by omega)
      · have all : n = x.wanted.length := by
          have less := mt UInt32.lt_iff_toNat_lt.mpr more
          omega
        rw [if_neg more, all, List.take_of_length_le le_rfl]

/-- What `npc_readn` gives. -/
theorem npcReadn_eq (known : x.fid.iounit ≠ 0) :
    x.npcReadn = (.ofNat x.wanted.length, x.wanted ++ x.buf.drop x.wanted.length) := by
  have short : x.wanted.length ≤ x.count.toNat := by
    rw [length_wanted]
    exact min_le_left _ _
  have ran := @readnLoop_eq x (x.count.toNat + 1) 0 known (Nat.zero_le _) (by omega)
  simpa [Call.npcReadn] using ran

/-- The buffer has the bytes already. -/
theorem npcReadn_keeps (known : x.fid.iounit ≠ 0) :
    x.buf = x.npcReadn.2 ↔ x.wanted <+: x.buf := by
  rw [npcReadn_eq known]
  constructor
  · intro same
    exact ⟨x.buf.drop x.wanted.length, same.symm⟩
  · rintro ⟨rest, same⟩
    dsimp only
    rw [← same, List.drop_left]

end Reads

/-! ## The pieces -/

section Pieces

variable {x : Call} {i : ℕ}

theorem pieces_eq : x.pieces = x.count.toNat / x.fid.iounit.toNat +
    if x.count.toNat % x.fid.iounit.toNat = 0 then 0 else 1 := by
  have same : x.count % x.fid.iounit = 0 ↔ x.count.toNat % x.fid.iounit.toNat = 0 := by
    rw [← UInt32.toNat_inj, UInt32.toNat_mod]
    rfl
  simp only [Call.pieces, UInt32.toNat_div, same]

/-- So many units reach as far as the count, and each of them begins in front of it. -/
theorem ceil_mul {count unit : ℕ} (positive : 0 < unit) :
    count ≤ (count / unit + if count % unit = 0 then 0 else 1) * unit ∧
      ∀ i < count / unit + if count % unit = 0 then 0 else 1, i * unit < count := by
  have split := Nat.div_add_mod count unit
  have less := Nat.mod_lt count positive
  generalize count / unit = q at split ⊢
  rw [Nat.mul_comm] at split
  split_ifs with even
  · rw [Nat.add_zero]
    refine ⟨by omega, fun i below => ?_⟩
    have next : (i + 1) * unit ≤ q * unit := Nat.mul_le_mul_right _ (by omega)
    rw [Nat.succ_mul] at next
    omega
  · refine ⟨?_, fun i below => ?_⟩
    · rw [Nat.succ_mul]
      omega
    · have next : i * unit ≤ q * unit := Nat.mul_le_mul_right _ (by omega)
      omega

/-- The pieces reach as far as the count, and each of them begins in front of it. -/
theorem pieces_mul (known : x.fid.iounit ≠ 0) :
    x.count.toNat ≤ x.pieces * x.fid.iounit.toNat ∧
      ∀ i < x.pieces, i * x.fid.iounit.toNat < x.count.toNat := by
  rw [pieces_eq]
  exact ceil_mul (iounit_pos known)

theorem pieces_lt (known : x.fid.iounit ≠ 0) : x.pieces < 2 ^ 32 := by
  have count := x.count.toNat_lt
  have positive := iounit_pos known
  by_contra many
  have last := (pieces_mul known).2 (x.pieces - 1) (by omega)
  have less : (x.pieces - 1) * 1 ≤ (x.pieces - 1) * x.fid.iounit.toNat :=
    Nat.mul_le_mul_left _ positive
  omega

theorem toNat_size (known : x.fid.iounit ≠ 0) (below : i < x.pieces) (fits : x.Fits i) :
    (x.size i).toNat = min x.fid.iounit.toNat (x.count.toNat - i * x.fid.iounit.toNat) := by
  have fits : (i + 1) * x.fid.iounit.toNat < 2 ^ 31 := fits
  have before := (pieces_mul known).2 i below
  have mul : (i + 1) * x.fid.iounit.toNat = i * x.fid.iounit.toNat + x.fid.iounit.toNat :=
    Nat.succ_mul _ _
  have next : (UInt32.ofNat ((i + 1) * x.fid.iounit.toNat)).toNat =
      (i + 1) * x.fid.iounit.toNat := UInt32.toNat_ofNat_of_lt' (by
        simp only [UInt32.size]
        omega)
  have this' : (UInt32.ofNat (i * x.fid.iounit.toNat)).toNat = i * x.fid.iounit.toNat :=
    UInt32.toNat_ofNat_of_lt' (by
      simp only [UInt32.size]
      omega)
  rw [Call.size]
  split_ifs with past
  · have past : x.count.toNat < (UInt32.ofNat ((i + 1) * x.fid.iounit.toNat)).toNat := past
    rw [UInt32.toNat_sub_of_le _ _ (UInt32.le_iff_toNat_le.mpr (by omega)), this']
    omega
  · have past := mt UInt32.lt_iff_toNat_lt.mpr past
    omega

theorem toNat_start (fits : x.Fits i) :
    (x.start i).toNat = (x.offset.toNat + i * x.fid.iounit.toNat) % 2 ^ 64 := by
  have fits : (i + 1) * x.fid.iounit.toNat < 2 ^ 31 := fits
  have mul : (i + 1) * x.fid.iounit.toNat = i * x.fid.iounit.toNat + x.fid.iounit.toNat :=
    Nat.succ_mul _ _
  have small : (UInt64.ofNat (i * x.fid.iounit.toNat)).toNat = i * x.fid.iounit.toNat :=
    UInt64.toNat_ofNat_of_lt' (by
      simp only [UInt64.size]
      omega)
  rw [Call.start, UInt64.toNat_add, small]

/-- How much a piece brings. -/
theorem length_data (known : x.fid.iounit ≠ 0) (below : i < x.pieces) (fits : x.Fits i) :
    (x.data i).length =
      min (min x.fid.iounit.toNat (x.count.toNat - i * x.fid.iounit.toNat))
        (x.file.bytes.length - (x.offset.toNat + i * x.fid.iounit.toNat) % 2 ^ 64) := by
  rw [Call.data, ServedFile.tread, List.length_take, List.length_drop, toNat_size known below fits,
    toNat_start fits]

/-- The record of a piece that is answered. -/
def Call.answered (x : Call) (i : ℕ) : Npcrcall := ⟨none, 0, .ofNat (x.data i).length⟩

theorem toNat_answered (known : x.fid.iounit ≠ 0) (below : i < x.pieces) (fits : x.Fits i) :
    (x.answered i).count.toNat = (x.data i).length := by
  have length := length_data known below fits
  have small := @iounit_lt x
  refine UInt32.toNat_ofNat_of_lt' ?_
  simp only [UInt32.size]
  omega

/-- Behind a short piece there is nothing more, or the read is invalid. -/
theorem verdict_nocount {iounit count : UInt32} {calls : List Npcrcall}
    (named : ∀ rc ∈ calls, rc.ename = none) :
    verdict iounit calls true count = if ∀ rc ∈ calls, rc.count = 0 then .ok count
      else .error (cstr "invalid read", EIO) := by
  induction calls with
  | nil => simp [verdict]
  | cons rc calls ih =>
      have first := named rc List.mem_cons_self
      have rest := ih fun rc member => named rc (List.mem_cons_of_mem _ member)
      rw [verdict]
      simp only [first, if_true]
      by_cases zero : rc.count = 0
      · simp [zero, rest]
      · simp [zero]

/-- Pieces whose offsets do not wrap around. -/
theorem verdict_straight {k : ℕ} {count : UInt32} (known : x.fid.iounit ≠ 0)
    (fits : ∀ i < x.pieces, x.Fits i)
    (straight : ∀ j < x.pieces, x.offset.toNat + j * x.fid.iounit.toNat < 2 ^ 64)
    (all : i + k = x.pieces) :
    verdict x.fid.iounit ((List.range' i k).map x.answered) false count =
      .ok (count + .ofNat (min (x.count.toNat - i * x.fid.iounit.toNat)
        (x.file.bytes.length - (x.offset.toNat + i * x.fid.iounit.toNat)))) := by
  have positive := iounit_pos known
  induction k generalizing i count with
  | zero =>
      have reach := (pieces_mul known).1
      have whole : x.count.toNat - i * x.fid.iounit.toNat = 0 := by
        rw [show i = x.pieces by omega]
        omega
      simp [verdict, whole]
  | succ k ih =>
      have below : i < x.pieces := by omega
      have length := length_data known below (fits i below)
      rw [Nat.mod_eq_of_lt (straight i below)] at length
      have read := toNat_answered known below (fits i below)
      have mul : (i + 1) * x.fid.iounit.toNat = i * x.fid.iounit.toNat + x.fid.iounit.toNat :=
        Nat.succ_mul _ _
      rw [List.range'_succ, List.map_cons, verdict]
      simp only [Call.answered, Bool.false_eq_true, if_false]
      by_cases short : (x.answered i).count < x.fid.iounit
      · have less : (x.data i).length < x.fid.iounit.toNat :=
          read ▸ UInt32.lt_iff_toNat_lt.mp short
        have short' : UInt32.ofNat (x.data i).length < x.fid.iounit := short
        have rest : ∀ rc ∈ (List.range' (i + 1) k).map x.answered, rc.count = 0 := by
          intro rc member
          obtain ⟨j, place, rfl⟩ := List.mem_map.mp member
          obtain ⟨behind, inside⟩ := List.mem_range'_1.mp place
          have before := (pieces_mul known).2 j (by omega)
          have next : (i + 1) * x.fid.iounit.toNat ≤ j * x.fid.iounit.toNat :=
            Nat.mul_le_mul_right _ behind
          have length' := length_data known (by omega) (fits j (by omega))
          rw [Nat.mod_eq_of_lt (straight j (by omega))] at length'
          have room : x.fid.iounit.toNat ≤ x.count.toNat - i * x.fid.iounit.toNat := by omega
          rw [length, Nat.min_eq_left room] at less
          have ended := (min_lt_iff.mp less).resolve_left (lt_irrefl _)
          have beyond : x.file.bytes.length ≤ x.offset.toNat + j * x.fid.iounit.toNat := by omega
          have empty : (x.data j).length = 0 := by
            rw [length', Nat.sub_eq_zero_of_le beyond, Nat.min_zero]
          simp [Call.answered, empty]
        have named : ∀ rc ∈ (List.range' (i + 1) k).map x.answered, rc.ename = none := by
          intro rc member
          obtain ⟨j, -, rfl⟩ := List.mem_map.mp member
          rfl
        have value : (x.data i).length = min (x.count.toNat - i * x.fid.iounit.toNat)
            (x.file.bytes.length - (x.offset.toNat + i * x.fid.iounit.toNat)) := by
          rw [length, Nat.min_assoc] at less ⊢
          exact Nat.min_eq_right ((min_lt_iff.mp less).resolve_left (lt_irrefl _)).le
        have ended := @verdict_nocount x.fid.iounit (count + .ofNat (x.data i).length) _ named
        rw [if_pos rest] at ended
        simp only [short', decide_true]
        rw [ended, value]
      · have less : ¬ (x.data i).length < x.fid.iounit.toNat := by
          rw [← read]
          exact mt UInt32.lt_iff_toNat_lt.mpr short
        have short' : ¬ UInt32.ofNat (x.data i).length < x.fid.iounit := short
        have onward := @ih (i + 1) (count + .ofNat (x.data i).length) (by omega)
        simp only [short', decide_false]
        have whole := length ▸ Nat.not_lt.mp less
        rw [Nat.min_assoc] at length whole
        rw [onward, UInt32.add_assoc, ← UInt32.ofNat_add, length,
          Nat.min_eq_left ((Nat.le_min.mp whole).2), mul, Nat.sub_add_eq, ← Nat.add_assoc,
          Nat.sub_add_eq _ (x.offset.toNat + _), Nat.sub_min_sub_right, Nat.add_sub_of_le]
        exact (Nat.le_min.mp whole).2

/-- What the callback is called with is what `npc_readn` gives, unless a piece has wrapped around
into the file. -/
theorem argument_verdict (known : x.fid.iounit ≠ 0) (some' : 0 < x.pieces)
    (fits : ∀ i < x.pieces, x.Fits i) :
    argument (verdict x.fid.iounit ((List.range x.pieces).map x.answered) false 0) =
        .ofNat x.wanted.length ↔
      ∀ i < x.pieces, 2 ^ 64 ≤ x.offset.toNat + i * x.fid.iounit.toNat →
        x.file.bytes.length ≤ x.offset.toNat + i * x.fid.iounit.toNat - 2 ^ 64 := by
  rw [List.range_eq_range']
  by_cases straight : ∀ j < x.pieces, x.offset.toNat + j * x.fid.iounit.toNat < 2 ^ 64
  · have value := @verdict_straight x 0 x.pieces 0 known fits straight (by omega)
    rw [value, length_wanted]
    simp only [argument, Nat.zero_mul, Nat.sub_zero, Nat.add_zero, UInt32.zero_add, true_iff]
    intro i below wraps
    exact absurd (straight i below) (by omega)
  · push Not at straight
    obtain ⟨j, below, wraps⟩ := straight
    have size := x.file.small
    have far : x.file.bytes.length < x.offset.toNat := by
      have fits : (j + 1) * x.fid.iounit.toNat < 2 ^ 31 := fits j below
      rw [Nat.succ_mul] at fits
      omega
    have none' : x.wanted.length = 0 := by
      rw [length_wanted]
      omega
    obtain ⟨k, is⟩ : ∃ k, x.pieces = k + 1 := ⟨x.pieces - 1, by omega⟩
    have positive := iounit_pos known
    have bound := x.offset.toNat_lt
    have first : (x.data 0).length = 0 := by
      have length := length_data known some' (fits 0 some')
      rw [Nat.zero_mul, Nat.add_zero, Nat.mod_eq_of_lt bound] at length
      omega
    have short : (x.answered 0).count < x.fid.iounit := by
      rw [UInt32.lt_iff_toNat_lt, toNat_answered known some' (fits 0 some'), first]
      exact positive
    have named : ∀ rc ∈ (List.range' 1 k).map x.answered, rc.ename = none := by
      intro rc member
      obtain ⟨j, -, rfl⟩ := List.mem_map.mp member
      rfl
    have empty (i : ℕ) (below : i < x.pieces) : (x.answered i).count = 0 ↔
        (2 ^ 64 ≤ x.offset.toNat + i * x.fid.iounit.toNat →
          x.file.bytes.length ≤ x.offset.toNat + i * x.fid.iounit.toNat - 2 ^ 64) := by
      have length := length_data known below (fits i below)
      have before := (pieces_mul known).2 i below
      have fits' : (i + 1) * x.fid.iounit.toNat < 2 ^ 31 := fits i below
      rw [Nat.succ_mul] at fits'
      rw [← UInt32.toNat_inj, toNat_answered known below (fits i below), length]
      simp only [UInt32.toNat_zero]
      by_cases wraps : 2 ^ 64 ≤ x.offset.toNat + i * x.fid.iounit.toNat
      · have wrapped : (x.offset.toNat + i * x.fid.iounit.toNat) % 2 ^ 64 =
            x.offset.toNat + i * x.fid.iounit.toNat - 2 ^ 64 := by omega
        rw [wrapped]
        omega
      · rw [Nat.mod_eq_of_lt (by omega)]
        omega
    have zero : x.answered 0 = ⟨none, 0, 0⟩ := by
      rw [Call.answered, first]
      rfl
    rw [zero] at short
    have value : verdict x.fid.iounit ((List.range' 0 x.pieces).map x.answered) false 0 =
        if ∀ rc ∈ (List.range' 1 k).map x.answered, rc.count = 0 then .ok 0
        else .error (cstr "invalid read", EIO) := by
      rw [is, List.range'_succ, List.map_cons, zero, verdict]
      simp only [Bool.false_eq_true, if_false, decide_eq_true short]
      exact verdict_nocount named
    have every : (∀ rc ∈ (List.range' 1 k).map x.answered, rc.count = 0) ↔
        ∀ i < x.pieces, 2 ^ 64 ≤ x.offset.toNat + i * x.fid.iounit.toNat →
          x.file.bytes.length ≤ x.offset.toNat + i * x.fid.iounit.toNat - 2 ^ 64 := by
      constructor
      · intro all i below
        rw [← empty i below]
        rcases Nat.eq_zero_or_pos i with rfl | behind
        · rw [zero]
        · exact all _ (List.mem_map_of_mem (List.mem_range'_1.mpr ⟨behind, by omega⟩))
      · intro all rc member
        obtain ⟨i, place, rfl⟩ := List.mem_map.mp member
        obtain ⟨-, inside⟩ := List.mem_range'_1.mp place
        exact (empty i (by omega)).mpr (all i (by omega))
    rw [value, none', ← every]
    split_ifs with all
    · exact ⟨fun _ => all, fun _ => rfl⟩
    · exact ⟨fun is => absurd is (by decide), fun every => absurd every all⟩

end Pieces

/-! ## Steps -/

namespace Npcread

section Steps

variable {x : Call} {r r' : Npcread} {e : Event} {i j : ℕ}

/-- Pieces have been sent, none has failed, and those that are not in flight are answered. -/
structure Sent (x : Call) (i : ℕ) (r : Npcread) : Prop where
  nreq : r.nreq = x.nreq
  within : i ≤ x.nreq.toNat
  fine : ∀ j < i, x.Fits j ∧ x.sends j = true
  once : r.flight.Nodup
  below : ∀ j ∈ r.flight, j < i
  counted : r.nresp + r.flight.length = i
  answered : ∀ j < i, j ∉ r.flight → r.calls j = x.answered j
  quiet : r.err = false ∧ r.held = false ∧ r.fault = false ∧ r.dangling = false ∧ r.buf = x.buf
  open' : r.nresp < x.nreq ∨ x.nreq ≤ 0 → r.freed = false ∧ r.called = []
  ended : 0 < x.nreq → r.nresp = x.nreq → r.called =
    [argument (verdict x.fid.iounit ((List.range x.nreq.toNat).map x.answered) false 0)]

/-- `npc_readnb` has stopped behind some pieces, and the record will not be freed. -/
structure Broken (x : Call) (r : Npcread) : Prop where
  pc : r.pc = .stuck
  open' : r.freed = false ∧ r.dangling = false
  stays : r.held = true ∨ r.nresp + r.flight.length < r.nreq

/-- How far a call can be. -/
inductive Stage (x : Call) (r : Npcread) : Prop
  | before (is : r = before x)
  | undefined (zero : x.fid.iounit = 0) (fault : r.fault = true) (open' : r.dangling = false)
      (pc : r.pc = .stuck) (flight : r.flight = [])
  | failed (known : x.fid.iounit ≠ 0) (alloc : x.alloc = false) (fault : r.fault = false)
      (open' : r.dangling = false) (pc : r.pc = .returned (-1)) (flight : r.flight = [])
      (called : r.called = [])
  | sending (known : x.fid.iounit ≠ 0) (alloc : x.alloc = true) (i : ℕ) (pc : r.pc = .sending i)
      (sent : Sent x i r)
  | returned (known : x.fid.iounit ≠ 0) (alloc : x.alloc = true) (pc : r.pc = .returned 0)
      (sent : Sent x x.nreq.toNat r)
  | broken (known : x.fid.iounit ≠ 0) (alloc : x.alloc = true) (i : ℕ) (inside : (i : ℤ) < x.nreq)
      (failed : ¬ (x.Fits i ∧ x.sends i = true)) (broken : Broken x r)

theorem Sent.reply (sent : Sent x i r) (flying : j ∈ r.flight) : Sent x i (r.npcReadCb x j) := by
  obtain ⟨err, held, fault, dangling, buf⟩ := sent.quiet
  have nreq := sent.nreq
  have within := sent.within
  have counted := sent.counted
  have some' : 0 < r.flight.length := List.length_pos_of_mem flying
  have started := sent.below j flying
  have less : r.nresp < x.nreq := by omega
  obtain ⟨freed, called⟩ := sent.open' (.inl less)
  have shorter : (r.flight.erase j).length + 1 = r.flight.length := by
    rw [List.length_erase_of_mem flying]
    omega
  have answered : ∀ k < i, k ∉ r.flight.erase j →
      Function.update r.calls j ⟨none, 0, .ofNat (x.data j).length⟩ k = x.answered k := by
    intro k below landed
    rw [Function.update_apply]
    split_ifs with is
    · rw [is]
      rfl
    · exact sent.answered k below fun member => landed ((List.mem_erase_of_ne is).mpr member)
  have below : ∀ k ∈ r.flight.erase j, k < i := fun k member =>
    sent.below k (List.mem_of_mem_erase member)
  unfold npcReadCb
  simp only [held, Bool.false_eq_true, if_false, dangling, freed, Bool.or_false, err]
  by_cases more : r.nreq - (r.nresp + 1) > 0
  · simp only [more, if_true]
    refine ⟨nreq, within, sent.fine, sent.once.erase j, below, ?_, answered,
      ⟨rfl, rfl, fault, rfl, buf⟩, fun _ => ⟨rfl, called⟩, fun _ all => ?_⟩
    · dsimp only
      omega
    · dsimp only at all
      omega
  · simp only [more, if_false]
    have last : r.nresp + 1 = x.nreq := by omega
    have full : i = x.nreq.toNat := by omega
    have landed : r.flight.erase j = [] := List.length_eq_zero_iff.mp (by omega)
    refine ⟨nreq, within, sent.fine, sent.once.erase j, below, ?_, answered,
      ⟨rfl, rfl, fault, rfl, buf⟩, fun open' => ?_, fun _ _ => ?_⟩
    · dsimp only
      omega
    · dsimp only at open'
      omega
    · dsimp only
      rw [called, List.nil_append, nreq]
      congr 3
      refine List.map_congr_left fun k member => ?_
      exact answered k (by rw [full]; exact List.mem_range.mp member) (by simp [landed])

theorem Broken.reply (broken : Broken x r) (flying : i ∈ r.flight) :
    Broken x (r.npcReadCb x i) := by
  obtain ⟨pc, ⟨freed, dangling⟩, stays⟩ := broken
  have shorter : (r.flight.erase i).length + 1 = r.flight.length := by
    have some' : 0 < r.flight.length := List.length_pos_of_mem flying
    rw [List.length_erase_of_mem flying]
    omega
  unfold npcReadCb
  by_cases held : r.held = true
  · simp only [held, if_true]
    exact ⟨pc, ⟨freed, by simp [freed, dangling]⟩, .inl rfl⟩
  · have more : r.nreq - (r.nresp + 1) > 0 := by
      have left := stays.resolve_left held
      omega
    simp only [held, Bool.false_eq_true, if_false, more, if_true]
    refine ⟨pc, ⟨freed, by simp [freed, dangling]⟩, .inr ?_⟩
    have left := stays.resolve_left held
    dsimp only
    omega

/-- A piece is sent, or `npc_readnb` ends or stops. -/
theorem Sent.main (known : x.fid.iounit ≠ 0) (alloc : x.alloc = true) (sent : Sent x i r)
    (pc : r.pc = .sending i) (taken : r.npcReadnb x = some r') : Stage x r' := by
  obtain ⟨err, held, fault, dangling, buf⟩ := sent.quiet
  have nreq := sent.nreq
  have within := sent.within
  have counted := sent.counted
  simp only [npcReadnb, pc] at taken
  by_cases inside : (i : ℤ) < x.nreq
  · obtain ⟨freed, called⟩ := sent.open' (.inl (by omega))
    simp only [inside, if_true, freed, dangling, Bool.or_false] at taken
    by_cases fits : x.Fits i
    · simp only [fits, not_true_eq_false, if_false] at taken
      by_cases sends : x.sends i = true
      · simp only [sends, if_true] at taken
        obtain rfl := Option.some.inj taken
        refine .sending known alloc (i + 1) rfl ⟨nreq, by omega, fun j below => ?_, ?_, ?_, ?_,
          fun j below landed => ?_, ⟨err, held, fault, rfl, buf⟩, fun _ => ⟨rfl, called⟩,
          fun _ all => ?_⟩
        · rcases Nat.lt_succ_iff_lt_or_eq.mp below with before | rfl
          · exact sent.fine j before
          · exact ⟨fits, sends⟩
        · exact List.nodup_cons.mpr ⟨fun member => lt_irrefl _ (sent.below i member), sent.once⟩
        · intro j member
          rcases List.mem_cons.mp member with rfl | member
          · exact Nat.lt_succ_self _
          · exact Nat.lt_succ_of_lt (sent.below j member)
        · dsimp only
          rw [List.length_cons]
          push_cast
          omega
        · have other : j ≠ i := fun is => landed (is ▸ List.mem_cons_self)
          exact sent.answered j (by omega) fun member => landed (List.mem_cons_of_mem _ member)
        · dsimp only at all
          omega
      · simp only [sends, Bool.false_eq_true, if_false] at taken
        obtain rfl := Option.some.inj taken
        exact .broken known alloc i inside (fun both => sends both.2) ⟨rfl, ⟨rfl, rfl⟩, .inl rfl⟩
    · simp only [fits, not_false_eq_true, if_true] at taken
      obtain rfl := Option.some.inj taken
      refine .broken known alloc i inside (fun both => fits both.1) ⟨rfl, ⟨rfl, rfl⟩, .inr ?_⟩
      dsimp only
      omega
  · simp only [inside, if_false] at taken
    obtain rfl := Option.some.inj taken
    obtain rfl : i = x.nreq.toNat := by omega
    exact .returned known alloc rfl ⟨nreq, within, sent.fine, sent.once, sent.below, counted,
      sent.answered, sent.quiet, sent.open', sent.ended⟩

theorem Stage.main (stage : Stage x r) (taken : r.npcReadnb x = some r') : Stage x r' := by
  cases stage with
  | before is =>
      subst is
      simp only [npcReadnb, Npcread.before] at taken
      by_cases zero : x.fid.iounit = 0
      · simp only [zero, if_true] at taken
        obtain rfl := Option.some.inj taken
        exact .undefined zero rfl rfl rfl rfl
      · simp only [zero, if_false] at taken
        cases alloc : x.alloc with
        | false =>
            simp only [alloc, Bool.not_false, if_true] at taken
            obtain rfl := Option.some.inj taken
            exact .failed zero alloc rfl rfl rfl rfl rfl
        | true =>
            simp only [alloc, Bool.not_true, Bool.false_eq_true, if_false] at taken
            obtain rfl := Option.some.inj taken
            refine .sending zero alloc 0 rfl ⟨rfl, Nat.zero_le _, by simp, List.nodup_nil, by simp,
              rfl, by simp, ⟨rfl, rfl, rfl, rfl, rfl⟩, fun _ => ⟨rfl, rfl⟩, fun more all => ?_⟩
            dsimp only at all
            omega
  | undefined zero fault open' pc flight => simp [npcReadnb, pc] at taken
  | failed known alloc fault open' pc flight called => simp [npcReadnb, pc] at taken
  | sending known alloc i pc sent => exact sent.main known alloc pc taken
  | returned known alloc pc sent => simp [npcReadnb, pc] at taken
  | broken known alloc i inside failed broken => simp [npcReadnb, broken.pc] at taken

theorem npcReadCb_pc : (r.npcReadCb x i).pc = r.pc := by
  unfold npcReadCb
  dsimp only
  split_ifs <;> rfl

theorem Stage.reply (stage : Stage x r) (flying : i ∈ r.flight) : Stage x (r.npcReadCb x i) := by
  cases stage with
  | before is =>
      subst is
      cases flying
  | undefined zero fault open' pc flight =>
      rw [flight] at flying
      cases flying
  | failed known alloc fault open' pc flight called =>
      rw [flight] at flying
      cases flying
  | sending known alloc j pc sent =>
      exact .sending known alloc j (npcReadCb_pc.trans pc) (sent.reply flying)
  | returned known alloc pc sent =>
      exact .returned known alloc (npcReadCb_pc.trans pc) (sent.reply flying)
  | broken known alloc j inside failed broken =>
      exact .broken known alloc j inside failed (broken.reply flying)

theorem Stage.step (stage : Stage x r) (taken : r.step x e = some r') : Stage x r' := by
  cases e with
  | main => exact stage.main taken
  | reply i =>
      simp only [Npcread.step] at taken
      split_ifs at taken with flying
      exact Option.some.inj taken ▸ stage.reply flying

theorem stage_of_run
    (run : Transition.Reaches (fun r e => r.step x e) (fun _ _ => True) (before x) r) :
    Stage x r :=
  run.invariant (Stage x) (.before rfl) fun stage _ taken => stage.step taken

/-- A record that has been freed is not used. -/
theorem Stage.dangling (stage : Stage x r) : r.dangling = false := by
  cases stage with
  | before is => exact is ▸ rfl
  | undefined zero fault open' pc flight => exact open'
  | failed known alloc fault open' pc flight called => exact open'
  | sending known alloc i pc sent => exact sent.quiet.2.2.2.1
  | returned known alloc pc sent => exact sent.quiet.2.2.2.1
  | broken known alloc i inside failed broken => exact broken.open'.2

/-! ### Runs end -/

/-- How many steps are left at most. -/
def left (x : Call) (r : Npcread) : ℕ :=
  r.flight.length + match r.pc with
  | .start => 2 * x.nreq.toNat + 2
  | .sending i => 2 * (x.nreq.toNat - i) + 1
  | .returned _ | .stuck => 0

theorem flight_npcReadCb : (r.npcReadCb x i).flight = r.flight.erase i := by
  unfold npcReadCb
  dsimp only
  split_ifs <;> rfl

/-- No run goes on for ever. -/
theorem left_lt (taken : r.step x e = some r') : left x r' < left x r := by
  cases e with
  | main =>
      simp only [Npcread.step, npcReadnb] at taken
      cases pc : r.pc with
      | start =>
          simp only [pc] at taken
          split_ifs at taken <;> obtain rfl := Option.some.inj taken <;> simp [left, pc]
      | sending i =>
          simp only [pc] at taken
          by_cases inside : (i : ℤ) < x.nreq
          · simp only [inside, if_true] at taken
            split_ifs at taken <;> obtain rfl := Option.some.inj taken <;> simp [left, pc]
            omega
          · simp only [inside, if_false] at taken
            obtain rfl := Option.some.inj taken
            simp [left, pc]
      | returned ret => simp [pc] at taken
      | stuck => simp [pc] at taken
  | reply i =>
      simp only [Npcread.step] at taken
      split_ifs at taken with flying
      obtain rfl := Option.some.inj taken
      have some' : 0 < r.flight.length := List.length_pos_of_mem flying
      simp only [left, flight_npcReadCb, npcReadCb_pc, List.length_erase_of_mem flying]
      omega

/-! ### What comes of a call -/

theorem nreq_of_pos (known : x.fid.iounit ≠ 0) (more : 0 < x.nreq) : x.nreq = x.pieces := by
  have bound := pieces_lt known
  have value : (UInt32.ofNat x.pieces).toNat = x.pieces := UInt32.toNat_ofNat_of_lt' bound
  by_cases small : x.pieces < 2 ^ 31
  · rw [Call.nreq, cint_of_lt (by rw [value]; exact small), value]
  · have negative : x.nreq < 0 := by
      rw [Call.nreq, cint_of_ge (by rw [value]; omega), value]
      omega
    omega

theorem nreq_of_fits (known : x.fid.iounit ≠ 0)
    (small : x.pieces * x.fid.iounit.toNat < 2 ^ 31) : x.nreq = x.pieces := by
  have positive := iounit_pos known
  have few : x.pieces * 1 ≤ x.pieces * x.fid.iounit.toNat := Nat.mul_le_mul_left _ positive
  have value : (UInt32.ofNat x.pieces).toNat = x.pieces :=
    UInt32.toNat_ofNat_of_lt' (pieces_lt known)
  rw [Call.nreq, cint_of_lt (by rw [value]; omega), value]

theorem fits_of_lt (small : x.pieces * x.fid.iounit.toNat < 2 ^ 31) (below : i < x.pieces) :
    x.Fits i :=
  (Nat.mul_le_mul_right _ (Nat.succ_le_of_lt below)).trans_lt small

theorem pieces_pos (known : x.fid.iounit ≠ 0) : 0 < x.pieces ↔ x.count ≠ 0 := by
  obtain ⟨reach, before⟩ := pieces_mul known
  have zero : x.count = 0 ↔ x.count.toNat = 0 := by
    rw [← UInt32.toNat_inj]
    rfl
  rw [Ne, zero]
  constructor
  · intro some'
    have first := before 0 some'
    omega
  · intro more
    by_contra none'
    rw [show x.pieces = 0 by omega] at reach
    omega

/-- All pieces have been sent and are answered. -/
theorem Sent.agrees (known : x.fid.iounit ≠ 0) (alloc : x.alloc = true) (pc : r.pc = .returned 0)
    (sent : Sent x x.nreq.toNat r) (landed : r.flight = []) : r.Agrees x ↔ x.Works := by
  obtain ⟨err, held, fault, dangling, buf⟩ := sent.quiet
  have counted := sent.counted
  rw [landed, List.length_nil] at counted
  by_cases more : 0 < x.nreq
  · have called := sent.ended more (by omega)
    have whole := nreq_of_pos known more
    have some' : 0 < x.pieces := by omega
    rw [whole, Int.toNat_natCast] at called
    have fine : ∀ i < x.pieces, x.Fits i ∧ x.sends i = true :=
      fun i below => sent.fine i (by omega)
    have small : x.pieces * x.fid.iounit.toNat < 2 ^ 31 := by
      have last : (x.pieces - 1 + 1) * x.fid.iounit.toNat < 2 ^ 31 :=
        (fine (x.pieces - 1) (by omega)).1
      rwa [Nat.sub_add_cancel some'] at last
    have counts := argument_verdict known some' fun i below => (fine i below).1
    have bytes := @npcReadn_keeps x known
    have amount : x.npcReadn.1 = .ofNat x.wanted.length := by rw [npcReadn_eq known]
    constructor
    · rintro ⟨-, ⟨failed, -⟩ | ⟨-, once, filled⟩⟩
      · rw [pc] at failed
        cases failed
      · rw [called, amount] at once
        refine ⟨known, fun _ => ⟨(pieces_pos known).mp some', small, fun i below =>
          (fine i below).2, counts.mp (List.cons.inj once).1, ?_⟩⟩
        exact bytes.mp (buf.symm.trans filled)
    · intro works
      obtain ⟨-, -, -, straight, already⟩ := works.served alloc
      refine ⟨fault, .inr ⟨pc, ?_, ?_⟩⟩
      · rw [called, amount, counts.mpr straight]
      · exact buf.trans (bytes.mpr already)
  · obtain ⟨-, called⟩ := sent.open' (.inr (by omega))
    constructor
    · rintro ⟨-, ⟨failed, -⟩ | ⟨-, once, -⟩⟩
      · rw [pc] at failed
        cases failed
      · rw [called] at once
        cases once
    · intro works
      obtain ⟨count, small, -⟩ := works.served alloc
      have some' := (pieces_pos known).mpr count
      have whole := nreq_of_fits known small
      omega

theorem Stage.agrees (stage : Stage x r) (complete : r.Complete x) : r.Agrees x ↔ x.Works := by
  have landed : r.flight = [] := by
    by_contra flying
    obtain ⟨i, member⟩ := List.exists_mem_of_ne_nil _ flying
    have stopped := complete (.reply i)
    simp [Npcread.step, member] at stopped
  cases stage with
  | before is =>
      have stopped := complete .main
      subst is
      simp only [Npcread.step, npcReadnb, Npcread.before] at stopped
      split_ifs at stopped
  | undefined zero fault open' pc flight =>
      constructor
      · rintro ⟨quiet, -⟩
        rw [fault] at quiet
        cases quiet
      · intro works
        exact absurd zero works.iounit
  | failed known alloc fault open' pc flight called =>
      refine ⟨fun _ => ⟨known, fun some' => ?_⟩, fun _ => ⟨fault, .inl ⟨pc, called⟩⟩⟩
      rw [alloc] at some'
      cases some'
  | sending known alloc i pc sent =>
      have stopped := complete .main
      simp only [Npcread.step, npcReadnb, pc] at stopped
      split_ifs at stopped
  | returned known alloc pc sent => exact sent.agrees known alloc pc landed
  | broken known alloc i inside failed broken =>
      constructor
      · rintro ⟨-, ⟨ended, -⟩ | ⟨ended, -, -⟩⟩
        · rw [broken.pc] at ended
          cases ended
        · rw [broken.pc] at ended
          cases ended
      · intro works
        obtain ⟨-, small, sends, -⟩ := works.served alloc
        have whole := nreq_of_fits known small
        have below : i < x.pieces := by omega
        exact absurd ⟨fits_of_lt small below, sends i below⟩ failed

/-- A call agrees with `npc_readn`, however its replies come in, if and only if there is nothing to
do for it; and a record that has been freed is not used. -/
theorem agrees_iff
    (run : Transition.Reaches (fun r e => r.step x e) (fun _ _ => True) (before x) r) :
    r.dangling = false ∧ (r.Complete x → (r.Agrees x ↔ x.Works)) :=
  ⟨(stage_of_run run).dangling, (stage_of_run run).agrees⟩

end Steps

/-! ### Three bytes -/

theorem complete_of_returned {x : Call} {r : Npcread} {ret : ℤ} (pc : r.pc = .returned ret)
    (landed : r.flight = []) : r.Complete x := by
  intro e
  cases e with
  | main => simp [Npcread.step, npcReadnb, pc]
  | reply i => simp [Npcread.step, landed]

/-- A fid that is read in pieces of two bytes. -/
def pairs : Npcfid where
  iounit := 2
  msize := 8216
  small := by decide
  header := by decide
  opened := by decide

/-- Three bytes of a file are asked for. -/
def three (bytes : List UInt8) (small : bytes.length < 2 ^ 63) : Call where
  file := ⟨bytes, small⟩
  fid := pairs
  buf := [0, 0, 0]
  count := 3
  offset := 0
  room := by decide
  alloc := true
  sends := fun _ => true

/-- The callback is told of three bytes that are not in the buffer. -/
theorem not_agrees_all : ¬ ∀ (x : Call) (r : Npcread),
    Transition.Reaches (fun r e => r.step x e) (fun _ _ => True) (before x) r →
      r.Complete x → r.Agrees x := by
  intro all
  have played : (Transition.play (fun r e => Npcread.step (three [1, 2, 3] (by decide)) r e)
      (fun _ _ => True) (before (three [1, 2, 3] (by decide)))
      [.main, .main, .main, .main, .reply 1, .reply 0]).map
        (fun r => (r.pc, r.flight, r.buf)) = some (.returned 0, [], [0, 0, 0]) := by
    decide +kernel
  obtain ⟨r, is, fields⟩ := Option.map_eq_some_iff.mp played
  obtain ⟨pc, landed, buf⟩ : r.pc = .returned 0 ∧ r.flight = [] ∧ r.buf = [0, 0, 0] := by
    simpa using fields
  obtain ⟨-, ⟨failed, -⟩ | ⟨-, -, filled⟩⟩ := all _ r (Transition.reaches_of_play is)
    (complete_of_returned pc landed)
  · rw [pc] at failed
    cases failed
  · have right : (three [1, 2, 3] (by decide)).npcReadn.2 = [1, 2, 3] := by decide +kernel
    rw [buf, right] at filled
    cases filled

/-- An empty file is read, and the second piece is answered first. -/
theorem agrees_iff_empty : ∃ r : Npcread, r.called = [0] ∧
    r.Agrees (three [] (by decide)) := by
  have played : (Transition.play (fun r e => Npcread.step (three [] (by decide)) r e)
      (fun _ _ => True) (before (three [] (by decide)))
      [.main, .main, .main, .main, .reply 1, .reply 0]).map
        (fun r => (r.pc, r.flight, r.called)) = some (.returned 0, [], [0]) := by
    decide +kernel
  obtain ⟨r, is, fields⟩ := Option.map_eq_some_iff.mp played
  obtain ⟨pc, landed, called⟩ : r.pc = .returned 0 ∧ r.flight = [] ∧ r.called = [0] := by
    simpa using fields
  have works : (three [] (by decide)).Works := by
    refine ⟨by decide, fun _ => ⟨by decide, by decide, fun _ _ => rfl, fun _ _ _ => ?_, ?_⟩⟩
    · exact Nat.zero_le _
    · exact List.nil_prefix
  exact ⟨r, called, ((agrees_iff (Transition.reaches_of_play is)).2
    (complete_of_returned pc landed)).mpr works⟩

end Npcread

end ParallelRead

end Npfs
