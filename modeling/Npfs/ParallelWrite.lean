import Npfs.ParallelRead

/-!
# Writing a file in pieces

`npc_writenb` writes with one request for each piece, of `msize - IOHDRSZ` bytes, and calls back
when all of them are answered.  How each piece is answered is a part of the call.
-/

namespace Npfs.ParallelWrite

open ParallelRead (Npcrcall verdict argument Pc Event)

/-! ## The arguments -/

/-- A call of `npc_writenb`, and what becomes of what it asks for. -/
structure Call where
  /-- `fsys->msize`. -/
  msize : UInt32
  count : UInt32
  offset : UInt64
  /-- There is memory for the record. -/
  alloc : Bool
  /-- `npc_rpcnb` takes the Twrite of a piece. -/
  sends : ℕ → Bool
  /-- What the answer to a piece leaves in its `Npcwcall`. -/
  answers : ℕ → Npcrcall

/-- A Twrite of `size` bytes, which are at `buf + pos`. -/
structure Piece where
  pos : ℤ
  offset : UInt64
  size : UInt32
  deriving DecidableEq

namespace Call

variable (x : Call)

/-- `r->iounit`. -/
def unit : UInt32 := x.msize - IOHDRSZ

/-- `iounit`, which is an `int`. -/
def iounit : ℤ := cint x.unit

/-- How many pieces there are. -/
def pieces : ℕ := (x.count / x.unit).toNat + if x.count % x.unit = 0 then 0 else 1

/-- `nreq`. -/
def nreq : ℤ := cint (.ofNat x.pieces)

/-- `(i+1)*iounit` is an `int`. -/
def Fits (i : ℕ) : Prop := -2 ^ 31 ≤ (i + 1) * x.iounit ∧ (i + 1) * x.iounit < 2 ^ 31

instance (i : ℕ) : Decidable (x.Fits i) := inferInstanceAs (Decidable (_ ∧ _))

/-- `n`. -/
def size (i : ℕ) : UInt32 :=
  if .ofInt ((i + 1) * x.iounit) > x.count then x.count - .ofInt (i * x.iounit) else x.unit

/-- The Twrite of a piece. -/
def piece (i : ℕ) : Piece where
  pos := i * x.iounit
  offset := x.offset + .ofInt (i * x.iounit)
  size := x.size i

/-- `np_create_twrite` makes the Twrite of a piece: an `int` can count its packet. -/
def Made (i : ℕ) : Prop := (x.size i).toNat + 23 < 2 ^ 31

instance (i : ℕ) : Decidable (x.Made i) := inferInstanceAs (Decidable (_ < _))

end Call

/-- An `Npcwrite`, with the thread of `npc_writenb`, what it has sent, and the requests that are not
answered. -/
structure Npcwrite where
  pc : Pc
  nreq : ℤ
  nresp : ℤ
  err : Bool
  calls : ℕ → Npcrcall
  sent : List Piece
  flight : List ℕ
  /-- `r->lock` is held for good. -/
  held : Bool
  freed : Bool
  /-- What the callback has been called with. -/
  called : List UInt32
  /-- A division by zero, an `int` that has overflowed, or a packet that no `int` can count. -/
  fault : Bool
  /-- The record has been used after it was freed. -/
  dangling : Bool

namespace Npcwrite

variable (x : Call) (r : Npcwrite)

/-- Nothing has been done. -/
def before : Npcwrite where
  pc := .start
  nreq := 0
  nresp := 0
  err := false
  calls := fun _ => ⟨none, 0, 0⟩
  sent := []
  flight := []
  held := false
  freed := false
  called := []
  fault := false
  dangling := false

/-- The next step of `npc_writenb`. -/
def npcWritenb : Option Npcwrite :=
  match r.pc with
  | .start =>
    if x.unit = 0 then some { r with pc := .stuck, fault := true }
    else if !x.alloc then some { r with pc := .returned (-1) }
    else some { r with pc := .sending 0, nreq := x.nreq }
  | .sending i =>
    if (i : ℤ) < x.nreq then
      let r := { r with dangling := r.dangling || r.freed }
      if ¬ x.Fits i ∨ 2 ^ 31 ≤ (x.size i).toNat then some { r with pc := .stuck, fault := true }
      else if x.Made i ∧ x.sends i = true then
        some { r with
          pc := .sending (i + 1)
          sent := r.sent ++ [x.piece i]
          flight := i :: r.flight }
      else some { r with pc := .stuck, nreq := i, err := true, held := true }
    else some { r with pc := .returned 0 }
  | .returned _ | .stuck => none

/-- `npc_write_cb` of a piece. -/
def npcWriteCb (i : ℕ) : Npcwrite :=
  let r := { r with
    calls := Function.update r.calls i (x.answers i)
    flight := r.flight.erase i
    dangling := r.dangling || r.freed }
  if r.held then r
  else
    let r := { r with nresp := r.nresp + 1 }
    if r.nreq - r.nresp > 0 then r
    else if r.err then { r with freed := true }
    else
      let calls := (List.range r.nreq.toNat).map r.calls
      { r with
        called := r.called ++ [argument (verdict x.unit calls false 0)]
        freed := true }

/-- Perform a step. -/
def step : Event → Option Npcwrite
  | .main => r.npcWritenb x
  | .reply i => if i ∈ r.flight then some (r.npcWriteCb x i) else none

/-- Nothing is left to be done. -/
def Complete : Prop := ∀ e, r.step x e = none

end Npcwrite

/-! ## What it is for -/

/-- The pieces are behind each other, from `start` on, and end at `count`. -/
def Tiles (x : Call) : (start : ℕ) → List Piece → Prop
  | start, [] => start = x.count.toNat
  | start, p :: sent =>
    p.pos = start ∧ p.offset = x.offset + .ofNat start ∧ 0 < p.size.toNat ∧
      Tiles x (start + p.size.toNat) sent

namespace Call

variable (x : Call)

/-- How many bytes of the call belong to a piece. -/
def share (i : ℕ) : ℕ := min x.unit.toNat (x.count.toNat - i * x.unit.toNat)

/-- Less is written than was asked for. -/
def Short (i : ℕ) : Prop := (x.answers i).count.toNat < x.share i

instance (i : ℕ) : Decidable (x.Short i) := inferInstanceAs (Decidable (_ < _))

/-- A piece has failed, or there is something behind a short piece. -/
def Bad : Prop :=
  (∃ i < x.pieces, (x.answers i).ename ≠ none) ∨
    ∃ i j, i < j ∧ j < x.pieces ∧ x.Short i ∧ (x.answers j).count ≠ 0

/-- How many bytes are written up to the first short piece. -/
def accepted : ℕ :=
  (((List.range x.pieces).filter fun i => ∀ j < i, ¬ x.Short j).map fun i =>
    (x.answers i).count.toNat).sum

/-- What the callback is to be called with: `-1` for an error, or the number of bytes. -/
def Right (c : UInt32) : Prop := (x.Bad → c = 0xFFFFFFFF) ∧ (¬ x.Bad → c.toNat = x.accepted)

/-- There is memory, something is written, the pieces can be counted and made, and are sent, and a
`u32` holds what they say. -/
structure Works : Prop where
  alloc : x.alloc = true
  unit : x.unit ≠ 0
  count : x.count ≠ 0
  fits : x.count ≤ x.unit ∨ x.pieces * x.unit.toNat < 2 ^ 31
  made : min x.count.toNat x.unit.toNat + 23 < 2 ^ 31
  sends : ∀ i < x.pieces, x.sends i = true
  holds : ¬ x.Bad → x.accepted < 2 ^ 32

end Call

/-- All of the bytes have been sent once, and the call has called back once. -/
def Npcwrite.Agrees (x : Call) (r : Npcwrite) : Prop :=
  r.fault = false ∧ r.pc = .returned 0 ∧ Tiles x 0 r.sent ∧ ∃ c, r.called = [c] ∧ x.Right c

/-! ## The pieces -/

section Pieces

variable {x : Call} {i : ℕ}

theorem unit_pos (known : x.unit ≠ 0) : 0 < x.unit.toNat := by
  have other : x.unit.toNat ≠ (0 : UInt32).toNat := fun is => known (UInt32.toNat_inj.mp is)
  exact Nat.pos_of_ne_zero other

/-- The pieces reach as far as the count, and each of them begins in front of it. -/
theorem pieces_mul (known : x.unit ≠ 0) : x.count.toNat ≤ x.pieces * x.unit.toNat ∧
    ∀ i < x.pieces, i * x.unit.toNat < x.count.toNat := by
  have same : x.count % x.unit = 0 ↔ x.count.toNat % x.unit.toNat = 0 := by
    rw [← UInt32.toNat_inj, UInt32.toNat_mod]
    rfl
  have pieces : x.pieces = x.count.toNat / x.unit.toNat +
      if x.count.toNat % x.unit.toNat = 0 then 0 else 1 := by
    simp only [Call.pieces, UInt32.toNat_div, same]
  rw [pieces]
  exact ParallelRead.ceil_mul (unit_pos known)

theorem pieces_lt (known : x.unit ≠ 0) : x.pieces < 2 ^ 32 := by
  have count := x.count.toNat_lt
  by_contra many
  have last := (pieces_mul known).2 (x.pieces - 1) (by omega)
  have less : (x.pieces - 1) * 1 ≤ (x.pieces - 1) * x.unit.toNat :=
    Nat.mul_le_mul_left _ (unit_pos known)
  omega

theorem pieces_pos (known : x.unit ≠ 0) : 0 < x.pieces ↔ 0 < x.count.toNat := by
  obtain ⟨reach, before⟩ := pieces_mul known
  constructor
  · intro some'
    have first := before 0 some'
    omega
  · intro more
    by_contra none'
    rw [show x.pieces = 0 by omega] at reach
    omega

/-- The count of the pieces is positive only if it is right. -/
theorem nreq_of_pos (known : x.unit ≠ 0) (more : 0 < x.nreq) : x.nreq = x.pieces := by
  have bound := pieces_lt known
  have value : (UInt32.ofNat x.pieces).toNat = x.pieces := UInt32.toNat_ofNat_of_lt' bound
  by_cases small : x.pieces < 2 ^ 31
  · rw [Call.nreq, cint_of_lt (by rw [value]; exact small), value]
  · have negative : x.nreq < 0 := by
      rw [Call.nreq, cint_of_ge (by rw [value]; omega), value]
      omega
    omega

theorem ofInt_cint (value : UInt32) : UInt32.ofInt (cint value) = value := by
  have bound := value.toNat_lt
  rw [← UInt32.toNat_inj, UInt32.ofInt, cint]
  split
  · rw [UInt32.toNat_ofNat_of_lt' (show _ < 2 ^ 32 by omega)]
    omega
  · rw [UInt32.toNat_ofNat_of_lt' (show _ < 2 ^ 32 by omega)]
    omega

theorem ofInt_nat32 (n : ℕ) : UInt32.ofInt n = .ofNat n := by
  rw [UInt32.ofInt, ← UInt32.toNat_inj, UInt32.toNat_ofNat', UInt32.toNat_ofNat']
  omega

theorem ofInt_nat64 (n : ℕ) : UInt64.ofInt n = .ofNat n := by
  rw [UInt64.ofInt, ← UInt64.toNat_inj, UInt64.toNat_ofNat', UInt64.toNat_ofNat']
  omega

/-- The first piece is as large as it should be, however large a unit is. -/
theorem first_piece (x : Call) : x.Fits 0 ∧ x.piece 0 = ⟨0, x.offset, x.size 0⟩ ∧
    (x.size 0).toNat = min x.unit.toNat x.count.toNat := by
  have bound := x.unit.toNat_lt
  refine ⟨?_, ?_, ?_⟩
  · simp only [Call.Fits, Call.iounit, cint]
    split <;> omega
  · have zero : UInt64.ofInt 0 = 0 := rfl
    simp [Call.piece, zero]
  · simp only [Call.size, Nat.cast_zero, zero_add, one_mul, zero_mul, Call.iounit, ofInt_cint]
    split_ifs with past
    · have past : x.count.toNat < x.unit.toNat := past
      have zero : UInt32.ofInt 0 = 0 := rfl
      rw [zero, UInt32.sub_zero]
      omega
    · have past : ¬ x.count.toNat < x.unit.toNat := past
      omega

/-- A piece is where it should be, and as large as it should be, if a unit is an `int`. -/
theorem piece_eq (known : x.unit ≠ 0) (below : i < x.pieces) (fits : x.Fits i)
    (single : i = 0 ∨ x.unit.toNat < 2 ^ 31) :
    (x.size i).toNat = x.share i ∧
      x.piece i = ⟨(i * x.unit.toNat : ℕ), x.offset + .ofNat (i * x.unit.toNat), x.size i⟩ := by
  obtain ⟨-, first, least⟩ := first_piece x
  rcases Nat.eq_zero_or_pos i with rfl | later
  · rw [first, least, Call.share]
    simp
  · have small := single.resolve_left (Nat.pos_iff_ne_zero.mp later)
    have before := (pieces_mul known).2 i below
    have mul : (i + 1) * x.unit.toNat = i * x.unit.toNat + x.unit.toNat := Nat.succ_mul _ _
    have bound := x.count.toNat_lt
    have iounit : x.iounit = x.unit.toNat := cint_of_lt small
    have start : (i : ℤ) * x.iounit = (i * x.unit.toNat : ℕ) := by
      rw [iounit]
      push_cast
      rfl
    have stop : ((i : ℤ) + 1) * x.iounit = ((i + 1) * x.unit.toNat : ℕ) := by
      rw [iounit]
      push_cast
      rfl
    have inside : (i + 1) * x.unit.toNat < 2 ^ 31 := by
      have less := fits.2
      rw [stop] at less
      exact_mod_cast less
    constructor
    · have next : (UInt32.ofNat ((i + 1) * x.unit.toNat)).toNat = (i + 1) * x.unit.toNat :=
        UInt32.toNat_ofNat_of_lt' (show _ < 2 ^ 32 by omega)
      have this' : (UInt32.ofNat (i * x.unit.toNat)).toNat = i * x.unit.toNat :=
        UInt32.toNat_ofNat_of_lt' (show _ < 2 ^ 32 by omega)
      rw [Call.size, start, stop, ofInt_nat32, ofInt_nat32, Call.share]
      split_ifs with past
      · have past : x.count.toNat < (UInt32.ofNat ((i + 1) * x.unit.toNat)).toNat := past
        rw [UInt32.toNat_sub_of_le _ _ (UInt32.le_iff_toNat_le.mpr (by omega)), this']
        omega
      · have past := mt UInt32.lt_iff_toNat_lt.mpr past
        omega
    · rw [Call.piece, start, ofInt_nat64]

/-- The Twrite of the piece is made and sent. -/
def Call.Fine (x : Call) (i : ℕ) : Prop := x.Fits i ∧ x.Made i ∧ x.sends i = true

theorem single_of_made (known : x.unit ≠ 0) (made : x.Made 0) (below : i < x.pieces) :
    i = 0 ∨ x.unit.toNat < 2 ^ 31 := by
  obtain ⟨-, -, least⟩ := first_piece x
  have made : (x.size 0).toNat + 23 < 2 ^ 31 := made
  rcases Nat.eq_zero_or_pos i with first | later
  · exact .inl first
  · have before := (pieces_mul known).2 i below
    have more : 1 * x.unit.toNat ≤ i * x.unit.toNat := Nat.mul_le_mul_right _ later
    exact .inr (by omega)

/-- Pieces that are sent are behind each other. -/
theorem tiles_of_fine {k : ℕ} (known : x.unit ≠ 0) (fine : ∀ j < x.pieces, x.Fine j)
    (all : i + k = x.pieces) :
    Tiles x (min (i * x.unit.toNat) x.count.toNat) ((List.range' i k).map x.piece) := by
  obtain ⟨reach, before⟩ := pieces_mul known
  have positive := unit_pos known
  induction k generalizing i with
  | zero =>
      obtain rfl : i = x.pieces := by omega
      exact Nat.min_eq_right reach
  | succ k ih =>
      have below : i < x.pieces := by omega
      have inside := before i below
      obtain ⟨size, piece⟩ := piece_eq known below (fine i below).1
        (single_of_made known (fine 0 (by omega)).2.1 below)
      have share : x.share i = min x.unit.toNat (x.count.toNat - i * x.unit.toNat) := rfl
      have mul : (i + 1) * x.unit.toNat = i * x.unit.toNat + x.unit.toNat := Nat.succ_mul _ _
      have next : i * x.unit.toNat + x.share i =
          min ((i + 1) * x.unit.toNat) x.count.toNat := by omega
      rw [List.range'_succ, List.map_cons, piece, Nat.min_eq_left inside.le]
      refine ⟨rfl, rfl, ?_, ?_⟩
      · show 0 < (x.size i).toNat
        omega
      · show Tiles x (i * x.unit.toNat + (x.size i).toNat) _
        rw [size, next]
        exact ih (by omega)

theorem fine_of_works (works : x.Works) (below : i < x.pieces) : x.Fine i := by
  have known := works.unit
  have made := works.made
  have before := (pieces_mul known).2 i below
  have positive := unit_pos known
  obtain ⟨fits, -, least⟩ := first_piece x
  have first : x.Made 0 := by
    show (x.size 0).toNat + 23 < 2 ^ 31
    omega
  rcases Nat.eq_zero_or_pos i with rfl | later
  · exact ⟨fits, first, works.sends 0 below⟩
  · have more : 1 * x.unit.toNat ≤ i * x.unit.toNat := Nat.mul_le_mul_right _ later
    have many : ¬ x.count ≤ x.unit := fun few => by
      have few : x.count.toNat ≤ x.unit.toNat := few
      omega
    have total := works.fits.resolve_left many
    have inside : (i + 1) * x.unit.toNat < 2 ^ 31 :=
      (Nat.mul_le_mul_right _ (Nat.succ_le_of_lt below)).trans_lt total
    have single := single_of_made known first below
    have iounit : x.iounit = x.unit.toNat := cint_of_lt (by omega)
    have fits : x.Fits i := by
      have product : ((i : ℤ) + 1) * x.iounit = ((i + 1) * x.unit.toNat : ℕ) := by
        rw [iounit]
        push_cast
        rfl
      rw [Call.Fits, product]
      omega
    have size := (piece_eq known below fits single).1
    have share : x.share i = min x.unit.toNat (x.count.toNat - i * x.unit.toNat) := rfl
    refine ⟨fits, ?_, works.sends i below⟩
    show (x.size i).toNat + 23 < 2 ^ 31
    omega

/-- What there is of `Works` if all pieces are sent. -/
theorem works_of_fine (some' : 0 < x.pieces)
    (fine : ∀ j < x.pieces, x.Fine j) :
    (x.count ≤ x.unit ∨ x.pieces * x.unit.toNat < 2 ^ 31) ∧
      min x.count.toNat x.unit.toNat + 23 < 2 ^ 31 := by
  obtain ⟨-, -, least⟩ := first_piece x
  have made : (x.size 0).toNat + 23 < 2 ^ 31 := (fine 0 some').2.1
  refine ⟨?_, by omega⟩
  by_cases few : x.count ≤ x.unit
  · exact .inl few
  · have many : ¬ x.count.toNat ≤ x.unit.toNat := few
    have iounit : x.iounit = x.unit.toNat := cint_of_lt (by omega)
    have last := (fine (x.pieces - 1) (by omega)).1.2
    have product : (((x.pieces - 1 : ℕ) : ℤ) + 1) * x.iounit = (x.pieces * x.unit.toNat : ℕ) := by
      rw [iounit]
      push_cast [some']
      ring
    rw [product] at last
    exact .inr (by omega)

/-! ## The verdict -/

/-- Behind a short piece there is nothing more, or the write is invalid. -/
theorem verdict_nocount (iounit count : UInt32) (calls : List Npcrcall) :
    ((∃ rc ∈ calls, rc.ename ≠ none ∨ rc.count ≠ 0) →
      argument (verdict iounit calls true count) = 0xFFFFFFFF) ∧
    (¬ (∃ rc ∈ calls, rc.ename ≠ none ∨ rc.count ≠ 0) →
      verdict iounit calls true count = .ok count) := by
  induction calls with
  | nil => simp [verdict]
  | cons rc calls ih =>
      simp only [verdict, List.exists_mem_cons_iff]
      cases named : rc.ename with
      | some ename => simp [argument]
      | none =>
          by_cases zero : rc.count = 0
          · simpa [zero] using ih
          · simp [zero, argument]

/-- From a piece on: one has failed, or there is something behind a short one. -/
def Call.BadFrom (x : Call) (i : ℕ) : Prop :=
  (∃ j, i ≤ j ∧ j < x.pieces ∧ (x.answers j).ename ≠ none) ∨
    ∃ j l, i ≤ j ∧ j < l ∧ l < x.pieces ∧ x.Short j ∧ (x.answers l).count ≠ 0

theorem verdict_from {k : ℕ} {count : UInt32} (known : x.unit ≠ 0) (all : i + k = x.pieces) :
    (x.BadFrom i →
      argument (verdict x.unit ((List.range' i k).map x.answers) false count) = 0xFFFFFFFF) ∧
    (¬ x.BadFrom i → verdict x.unit ((List.range' i k).map x.answers) false count =
      .ok (count + .ofNat ((List.range' i k).map fun j => (x.answers j).count.toNat).sum)) := by
  induction k generalizing i count with
  | zero =>
      have none' : ¬ x.BadFrom i := by
        rintro (⟨j, behind, below, -⟩ | ⟨j, l, behind, later, below, -⟩) <;> omega
      exact ⟨fun bad => absurd bad none', fun _ => by simp [verdict]⟩
  | succ k ih =>
      have below : i < x.pieces := by omega
      have mine {rc : Npcrcall} : rc ∈ (List.range' (i + 1) k).map x.answers ↔
          ∃ j, i + 1 ≤ j ∧ j < x.pieces ∧ x.answers j = rc := by
        rw [List.mem_map]
        constructor
        · rintro ⟨j, place, is⟩
          obtain ⟨behind, inside⟩ := List.mem_range'_1.mp place
          exact ⟨j, behind, by omega, is⟩
        · rintro ⟨j, behind, inside, is⟩
          exact ⟨j, List.mem_range'_1.mpr ⟨behind, by omega⟩, is⟩
      rw [List.range'_succ, List.map_cons, List.map_cons, List.sum_cons, verdict]
      cases named : (x.answers i).ename with
      | some ename =>
          have bad : x.BadFrom i := .inl ⟨i, le_rfl, below, by simp [named]⟩
          exact ⟨fun _ => rfl, fun fine => absurd bad fine⟩
      | none =>
          have other {j : ℕ} (behind : i ≤ j) (failed : (x.answers j).ename ≠ none) : i + 1 ≤ j :=
            Nat.lt_of_le_of_ne behind fun is => failed (is ▸ named)
          simp only [Bool.false_eq_true, if_false]
          by_cases short : (x.answers i).count < x.unit
          · have less : (x.answers i).count.toNat < x.unit.toNat := short
            have bad : (∃ rc ∈ (List.range' (i + 1) k).map x.answers,
                rc.ename ≠ none ∨ rc.count ≠ 0) ↔ x.BadFrom i := by
              constructor
              · rintro ⟨rc, member, wrong⟩
                obtain ⟨j, behind, inside, rfl⟩ := mine.mp member
                rcases wrong with failed | more
                · exact .inl ⟨j, Nat.le_of_succ_le behind, inside, failed⟩
                · have before := (pieces_mul known).2 (i + 1) (by omega)
                  have mul : (i + 1) * x.unit.toNat = i * x.unit.toNat + x.unit.toNat :=
                    Nat.succ_mul _ _
                  have share : x.share i = x.unit.toNat := by
                    rw [Call.share]
                    omega
                  exact .inr ⟨i, j, le_rfl, behind, inside, by rwa [Call.Short, share], more⟩
              · rintro (⟨j, behind, inside, failed⟩ | ⟨j, l, behind, later, inside, -, more⟩)
                · exact ⟨_, mine.mpr ⟨j, other behind failed, inside, rfl⟩, .inl failed⟩
                · exact ⟨_, mine.mpr ⟨l, by omega, inside, rfl⟩, .inr more⟩
            obtain ⟨wrong, right⟩ := verdict_nocount x.unit (count + (x.answers i).count)
              ((List.range' (i + 1) k).map x.answers)
            rw [bad] at wrong right
            simp only [short, decide_true]
            refine ⟨wrong, fun fine => ?_⟩
            have nothing : ((List.range' (i + 1) k).map fun j =>
                (x.answers j).count.toNat).sum = 0 := by
              refine List.sum_eq_zero fun n member => ?_
              obtain ⟨j, place, rfl⟩ := List.mem_map.mp member
              by_contra more
              refine fine (bad.mp ⟨_, List.mem_map_of_mem place, .inr fun zero => more ?_⟩)
              rw [zero]
              rfl
            rw [right fine, nothing, Nat.add_zero, UInt32.ofNat_toNat]
          · have enough : ¬ (x.answers i).count.toNat < x.unit.toNat := short
            have bad : x.BadFrom (i + 1) ↔ x.BadFrom i := by
              constructor
              · rintro (⟨j, behind, inside, failed⟩ | ⟨j, l, behind, later⟩)
                · exact .inl ⟨j, Nat.le_of_succ_le behind, inside, failed⟩
                · exact .inr ⟨j, l, Nat.le_of_succ_le behind, later⟩
              · rintro (⟨j, behind, inside, failed⟩ | ⟨j, l, behind, later, inside, short, more⟩)
                · exact .inl ⟨j, other behind failed, inside, failed⟩
                · refine .inr ⟨j, l, Nat.lt_of_le_of_ne behind fun is => ?_, later, inside, short,
                    more⟩
                  subst is
                  have short : (x.answers i).count.toNat < x.share i := short
                  rw [Call.share] at short
                  omega
            obtain ⟨wrong, right⟩ := @ih (i + 1) (count + (x.answers i).count) (by omega)
            rw [bad] at wrong right
            simp only [short, decide_false]
            refine ⟨wrong, fun fine => ?_⟩
            rw [right fine, UInt32.add_assoc, UInt32.ofNat_add, UInt32.ofNat_toNat]

theorem sum_filter {p : ℕ → Bool} {f : ℕ → ℕ} {l : List ℕ}
    (nothing : ∀ i ∈ l, p i = false → f i = 0) : ((l.filter p).map f).sum = (l.map f).sum := by
  induction l with
  | nil => rfl
  | cons i l ih =>
      have rest := ih fun j member => nothing j (List.mem_cons_of_mem i member)
      cases kept : p i with
      | true => rw [List.filter_cons_of_pos kept, List.map_cons, List.map_cons, List.sum_cons,
          List.sum_cons, rest]
      | false => rw [List.filter_cons_of_neg (by simp [kept]), rest, List.map_cons, List.sum_cons,
          nothing i List.mem_cons_self kept, Nat.zero_add]

/-- If nothing is bad, all that is written is up to the first short piece. -/
theorem accepted_eq (fine : ¬ x.Bad) :
    x.accepted = ((List.range x.pieces).map fun i => (x.answers i).count.toNat).sum := by
  refine sum_filter fun i member dropped => ?_
  have behind : ∃ j < i, x.Short j := by simpa using dropped
  obtain ⟨j, earlier, short⟩ := behind
  by_contra more
  refine fine (.inr ⟨j, i, earlier, List.mem_range.mp member, short, fun zero => more ?_⟩)
  rw [zero]
  rfl

/-- The callback is called with what it should be, if a `u32` can hold it. -/
theorem right_iff (known : x.unit ≠ 0) :
    x.Right (argument (verdict x.unit ((List.range x.pieces).map x.answers) false 0)) ↔
      (¬ x.Bad → x.accepted < 2 ^ 32) := by
  have bad : x.BadFrom 0 ↔ x.Bad := by
    simp only [Call.BadFrom, Call.Bad, Nat.zero_le, true_and]
  obtain ⟨wrong, right⟩ := @verdict_from x 0 x.pieces 0 known (by omega)
  rw [bad] at wrong right
  rw [List.range_eq_range']
  by_cases bad : x.Bad
  · exact iff_of_true ⟨fun _ => wrong bad, fun fine => absurd bad fine⟩ fun fine => absurd bad fine
  · rw [right bad, Call.Right, accepted_eq bad, List.range_eq_range']
    simp only [bad, false_implies, not_false_eq_true, true_implies, true_and, argument,
      UInt32.zero_add, UInt32.toNat_ofNat']
    exact Nat.mod_eq_iff_lt (by decide)

end Pieces

/-! ## Steps -/

namespace Npcwrite

section Steps

variable {x : Call} {r r' : Npcwrite} {e : Event} {i j : ℕ}

/-- Pieces have been sent, none has failed, and those that are not in flight are answered. -/
structure Sent (x : Call) (i : ℕ) (r : Npcwrite) : Prop where
  nreq : r.nreq = x.nreq
  within : i ≤ x.nreq.toNat
  fine : ∀ j < i, x.Fine j
  sent : r.sent = (List.range i).map x.piece
  once : r.flight.Nodup
  below : ∀ j ∈ r.flight, j < i
  counted : r.nresp + r.flight.length = i
  answered : ∀ j < i, j ∉ r.flight → r.calls j = x.answers j
  quiet : r.err = false ∧ r.held = false ∧ r.fault = false ∧ r.dangling = false
  open' : r.nresp < x.nreq ∨ x.nreq ≤ 0 → r.freed = false ∧ r.called = []
  ended : 0 < x.nreq → r.nresp = x.nreq → r.called =
    [argument (verdict x.unit ((List.range x.nreq.toNat).map x.answers) false 0)]

/-- `npc_writenb` has stopped behind some pieces, and the record will not be freed. -/
structure Broken (r : Npcwrite) : Prop where
  pc : r.pc = .stuck
  open' : r.freed = false ∧ r.dangling = false ∧ r.called = []
  stays : r.held = true ∨ r.nresp + r.flight.length < r.nreq

/-- How far a call can be. -/
inductive Stage (x : Call) (r : Npcwrite) : Prop
  | before (is : r = before)
  | undefined (zero : x.unit = 0) (fault : r.fault = true)
      (open' : r.dangling = false ∧ r.called = []) (pc : r.pc = .stuck) (flight : r.flight = [])
  | failed (alloc : x.alloc = false) (open' : r.dangling = false ∧ r.called = [])
      (pc : r.pc = .returned (-1)) (flight : r.flight = [])
  | sending (known : x.unit ≠ 0) (alloc : x.alloc = true) (i : ℕ) (pc : r.pc = .sending i)
      (sent : Sent x i r)
  | returned (known : x.unit ≠ 0) (alloc : x.alloc = true) (pc : r.pc = .returned 0)
      (sent : Sent x x.nreq.toNat r)
  | broken (known : x.unit ≠ 0) (i : ℕ) (inside : (i : ℤ) < x.nreq) (failed : ¬ x.Fine i)
      (broken : Broken r)

theorem npcWriteCb_pc : (r.npcWriteCb x i).pc = r.pc := by
  unfold npcWriteCb
  dsimp only
  split_ifs <;> rfl

theorem npcWriteCb_flight : (r.npcWriteCb x i).flight = r.flight.erase i := by
  unfold npcWriteCb
  dsimp only
  split_ifs <;> rfl

theorem length_erase (flying : j ∈ r.flight) :
    (r.flight.erase j).length + 1 = r.flight.length := by
  have some' : 0 < r.flight.length := List.length_pos_of_mem flying
  rw [List.length_erase_of_mem flying]
  omega

/-- A reply is noted, and the last one of them calls back. -/
theorem Sent.reply (sent : Sent x i r) (flying : j ∈ r.flight) : Sent x i (r.npcWriteCb x j) := by
  obtain ⟨err, held, fault, dangling⟩ := sent.quiet
  have nreq := sent.nreq
  have within := sent.within
  have counted := sent.counted
  have started := sent.below j flying
  have shorter := length_erase flying
  have less : r.nresp < x.nreq := by omega
  obtain ⟨freed, called⟩ := sent.open' (.inl less)
  have answered : ∀ k < i, k ∉ r.flight.erase j →
      Function.update r.calls j (x.answers j) k = x.answers k := by
    intro k below landed
    rw [Function.update_apply]
    split_ifs with is
    · rw [is]
    · exact sent.answered k below fun member => landed ((List.mem_erase_of_ne is).mpr member)
  have below : ∀ k ∈ r.flight.erase j, k < i := fun k member =>
    sent.below k (List.mem_of_mem_erase member)
  unfold npcWriteCb
  simp only [held, Bool.false_eq_true, if_false, dangling, freed, Bool.or_false, err]
  by_cases more : r.nreq - (r.nresp + 1) > 0
  · simp only [more, if_true]
    refine ⟨nreq, within, sent.fine, sent.sent, sent.once.erase j, below, ?_, answered,
      ⟨rfl, rfl, fault, rfl⟩, fun _ => ⟨rfl, called⟩, fun _ all => ?_⟩
    · dsimp only
      omega
    · dsimp only at all
      omega
  · simp only [more, if_false]
    have last : r.nresp + 1 = x.nreq := by omega
    have full : i = x.nreq.toNat := by omega
    have landed : r.flight.erase j = [] := List.length_eq_zero_iff.mp (by omega)
    refine ⟨nreq, within, sent.fine, sent.sent, sent.once.erase j, below, ?_, answered,
      ⟨rfl, rfl, fault, rfl⟩, fun open' => ?_, fun _ _ => ?_⟩
    · dsimp only
      omega
    · dsimp only at open'
      omega
    · dsimp only
      rw [called, List.nil_append, nreq]
      congr 3
      refine List.map_congr_left fun k member => ?_
      exact answered k (by rw [full]; exact List.mem_range.mp member) (by simp [landed])

theorem Broken.reply (broken : Broken r) (flying : i ∈ r.flight) : Broken (r.npcWriteCb x i) := by
  obtain ⟨pc, ⟨freed, dangling, called⟩, stays⟩ := broken
  have shorter := length_erase flying
  unfold npcWriteCb
  by_cases held : r.held = true
  · simp only [held, if_true]
    exact ⟨pc, ⟨freed, by simp [freed, dangling], called⟩, .inl rfl⟩
  · have left := stays.resolve_left held
    have more : r.nreq - (r.nresp + 1) > 0 := by omega
    simp only [held, Bool.false_eq_true, if_false, more, if_true]
    refine ⟨pc, ⟨freed, by simp [freed, dangling], called⟩, .inr ?_⟩
    dsimp only
    omega

theorem Stage.reply (stage : Stage x r) (flying : i ∈ r.flight) : Stage x (r.npcWriteCb x i) := by
  cases stage with
  | before is =>
      subst is
      cases flying
  | undefined zero fault open' pc flight =>
      rw [flight] at flying
      cases flying
  | failed alloc open' pc flight =>
      rw [flight] at flying
      cases flying
  | sending known alloc j pc sent =>
      exact .sending known alloc j (npcWriteCb_pc.trans pc) (sent.reply flying)
  | returned known alloc pc sent =>
      exact .returned known alloc (npcWriteCb_pc.trans pc) (sent.reply flying)
  | broken known j inside failed broken =>
      exact .broken known j inside failed (broken.reply flying)

/-- A piece is sent, or `npc_writenb` ends or stops. -/
theorem Sent.main (known : x.unit ≠ 0) (alloc : x.alloc = true) (sent : Sent x i r)
    (pc : r.pc = .sending i) (taken : r.npcWritenb x = some r') : Stage x r' := by
  obtain ⟨err, held, fault, dangling⟩ := sent.quiet
  have nreq := sent.nreq
  have within := sent.within
  have counted := sent.counted
  simp only [npcWritenb, pc] at taken
  by_cases inside : (i : ℤ) < x.nreq
  · obtain ⟨freed, called⟩ := sent.open' (.inl (by omega))
    simp only [inside, if_true, freed, dangling, Bool.or_false] at taken
    by_cases wrong : ¬ x.Fits i ∨ 2 ^ 31 ≤ (x.size i).toNat
    · simp only [wrong, if_true] at taken
      obtain rfl := Option.some.inj taken
      refine .broken known i inside (fun fine => ?_)
        ⟨rfl, ⟨rfl, rfl, called⟩, .inr ?_⟩
      · have made : (x.size i).toNat + 23 < 2 ^ 31 := fine.2.1
        rcases wrong with wide | large
        · exact wide fine.1
        · omega
      · dsimp only
        omega
    · simp only [wrong, if_false] at taken
      by_cases sends : x.Made i ∧ x.sends i = true
      · have fits : x.Fits i := by
          by_contra wide
          exact wrong (.inl wide)
        simp only [sends] at taken
        obtain rfl := Option.some.inj taken
        refine .sending known alloc (i + 1) rfl ⟨nreq, by omega, fun j below => ?_, ?_, ?_, ?_, ?_,
          fun j below landed => ?_, ⟨err, held, fault, rfl⟩, fun _ => ⟨rfl, called⟩,
          fun _ all => ?_⟩
        · rcases Nat.lt_succ_iff_lt_or_eq.mp below with before | rfl
          · exact sent.fine j before
          · exact ⟨fits, sends⟩
        · show r.sent ++ [x.piece i] = _
          rw [sent.sent, List.range_succ, List.map_append, List.map_singleton]
        · exact List.nodup_cons.mpr ⟨fun member => lt_irrefl _ (sent.below i member), sent.once⟩
        · intro j member
          rcases List.mem_cons.mp member with rfl | member
          · exact Nat.lt_succ_self _
          · exact Nat.lt_succ_of_lt (sent.below j member)
        · dsimp only
          rw [List.length_cons]
          push_cast
          omega
        · have other : j ≠ i := fun is => landed (is ▸ List.mem_cons_self)
          exact sent.answered j (by omega) fun member => landed (List.mem_cons_of_mem _ member)
        · dsimp only at all
          omega
      · simp only [sends, if_false] at taken
        obtain rfl := Option.some.inj taken
        exact .broken known i inside (fun fine => sends fine.2)
          ⟨rfl, ⟨rfl, rfl, called⟩, .inl rfl⟩
  · simp only [inside, if_false] at taken
    obtain rfl := Option.some.inj taken
    obtain rfl : i = x.nreq.toNat := by omega
    exact .returned known alloc rfl ⟨nreq, within, sent.fine, sent.sent, sent.once, sent.below,
      counted, sent.answered, sent.quiet, sent.open', sent.ended⟩

theorem Stage.main (stage : Stage x r) (taken : r.npcWritenb x = some r') : Stage x r' := by
  cases stage with
  | before is =>
      subst is
      simp only [npcWritenb, Npcwrite.before] at taken
      by_cases zero : x.unit = 0
      · simp only [zero, if_true] at taken
        obtain rfl := Option.some.inj taken
        exact .undefined zero rfl ⟨rfl, rfl⟩ rfl rfl
      · simp only [zero, if_false] at taken
        cases alloc : x.alloc with
        | false =>
            simp only [alloc, Bool.not_false, if_true] at taken
            obtain rfl := Option.some.inj taken
            exact .failed alloc ⟨rfl, rfl⟩ rfl rfl
        | true =>
            simp only [alloc, Bool.not_true, Bool.false_eq_true, if_false] at taken
            obtain rfl := Option.some.inj taken
            refine .sending zero alloc 0 rfl ⟨rfl, Nat.zero_le _, by simp, rfl, List.nodup_nil,
              by simp, rfl, by simp, ⟨rfl, rfl, rfl, rfl⟩, fun _ => ⟨rfl, rfl⟩,
              fun more all => ?_⟩
            dsimp only at all
            omega
  | undefined zero fault open' pc flight => simp [npcWritenb, pc] at taken
  | failed alloc open' pc flight => simp [npcWritenb, pc] at taken
  | sending known alloc i pc sent => exact sent.main known alloc pc taken
  | returned known alloc pc sent => simp [npcWritenb, pc] at taken
  | broken known i inside failed broken => simp [npcWritenb, broken.pc] at taken

theorem Stage.step (stage : Stage x r) (taken : r.step x e = some r') : Stage x r' := by
  cases e with
  | main => exact stage.main taken
  | reply i =>
      simp only [Npcwrite.step] at taken
      split_ifs at taken with flying
      exact Option.some.inj taken ▸ stage.reply flying

theorem stage_of_run
    (run : Transition.Reaches (fun r e => step x r e) (fun _ _ => True) before r) : Stage x r :=
  run.invariant (Stage x) (.before rfl) fun stage _ taken => stage.step taken

/-- A record that has been freed is not used, and there is no second call of the callback. -/
theorem Stage.once (stage : Stage x r) : r.dangling = false ∧ r.called.length ≤ 1 := by
  have sent {i : ℕ} (sent : Sent x i r) (within : i ≤ x.nreq.toNat) :
      r.dangling = false ∧ r.called.length ≤ 1 := by
    refine ⟨sent.quiet.2.2.2, ?_⟩
    have counted := sent.counted
    by_cases ended : 0 < x.nreq ∧ r.nresp = x.nreq
    · rw [sent.ended ended.1 ended.2]
      exact le_rfl
    · rw [(sent.open' (by omega)).2]
      exact Nat.zero_le 1
  cases stage with
  | before is => exact is ▸ ⟨rfl, Nat.zero_le 1⟩
  | undefined zero fault open' pc flight => exact ⟨open'.1, by rw [open'.2]; exact Nat.zero_le 1⟩
  | failed alloc open' pc flight => exact ⟨open'.1, by rw [open'.2]; exact Nat.zero_le 1⟩
  | sending known alloc i pc is => exact sent is is.within
  | returned known alloc pc is => exact sent is le_rfl
  | broken known i inside failed broken =>
      exact ⟨broken.open'.2.1, by rw [broken.open'.2.2]; exact Nat.zero_le 1⟩

/-! ### Runs end -/

/-- How many steps are left at most. -/
def left (x : Call) (r : Npcwrite) : ℕ :=
  r.flight.length + match r.pc with
  | .start => 2 * x.nreq.toNat + 2
  | .sending i => 2 * (x.nreq.toNat - i) + 1
  | .returned _ | .stuck => 0

/-- No run goes on for ever. -/
theorem left_lt (taken : r.step x e = some r') : left x r' < left x r := by
  cases e with
  | main =>
      simp only [Npcwrite.step, npcWritenb] at taken
      cases pc : r.pc with
      | start =>
          simp only [pc] at taken
          split_ifs at taken <;> obtain rfl := Option.some.inj taken <;> simp [left, pc]
      | sending i =>
          simp only [pc] at taken
          by_cases inside : (i : ℤ) < x.nreq
          · simp only [inside, if_true] at taken
            split_ifs at taken <;> obtain rfl := Option.some.inj taken <;> simp [left, pc]
            omega
          · simp only [inside, if_false] at taken
            obtain rfl := Option.some.inj taken
            simp [left, pc]
      | returned ret => simp [pc] at taken
      | stuck => simp [pc] at taken
  | reply i =>
      simp only [Npcwrite.step] at taken
      split_ifs at taken with flying
      obtain rfl := Option.some.inj taken
      have shorter := length_erase flying
      simp only [left, npcWriteCb_flight, npcWriteCb_pc]
      omega

/-! ### What comes of a call -/

theorem nreq_of_works (works : x.Works) : 0 < x.nreq := by
  have known := works.unit
  have positive := unit_pos known
  obtain ⟨reach, before⟩ := pieces_mul known
  have more : 0 < x.count.toNat := by
    have other : x.count.toNat ≠ (0 : UInt32).toNat := fun is =>
      works.count (UInt32.toNat_inj.mp is)
    exact Nat.pos_of_ne_zero other
  have some' := (pieces_pos known).mpr more
  have few : x.pieces < 2 ^ 31 := by
    rcases works.fits with single | small
    · have single : x.count.toNat ≤ x.unit.toNat := single
      by_contra many
      have second := before 1 (by omega)
      omega
    · have less : x.pieces * 1 ≤ x.pieces * x.unit.toNat := Nat.mul_le_mul_left _ positive
      omega
  have value : (UInt32.ofNat x.pieces).toNat = x.pieces :=
    UInt32.toNat_ofNat_of_lt' (pieces_lt known)
  rw [Call.nreq, cint_of_lt (by rw [value]; exact few), value]
  exact_mod_cast some'

/-- All pieces have been sent and are answered. -/
theorem Sent.agrees (known : x.unit ≠ 0) (alloc : x.alloc = true) (pc : r.pc = .returned 0)
    (sent : Sent x x.nreq.toNat r) (landed : r.flight = []) : r.Agrees x ↔ x.Works := by
  obtain ⟨err, held, fault, dangling⟩ := sent.quiet
  have counted := sent.counted
  rw [landed, List.length_nil] at counted
  by_cases more : 0 < x.nreq
  · have called := sent.ended more (by omega)
    have whole := nreq_of_pos known more
    have some' : 0 < x.pieces := by omega
    have pieces := sent.sent
    rw [whole, Int.toNat_natCast] at called pieces
    have fine : ∀ i < x.pieces, x.Fine i := fun i below => sent.fine i (by omega)
    have tiles := @tiles_of_fine x 0 x.pieces known fine (by omega)
    rw [Nat.zero_mul, Nat.zero_min, ← List.range_eq_range', ← pieces] at tiles
    constructor
    · rintro ⟨-, -, -, c, once, right⟩
      rw [called] at once
      obtain rfl := (List.cons.inj once).1
      obtain ⟨fits, made⟩ := works_of_fine some' fine
      have first := (pieces_pos known).mp some'
      exact ⟨alloc, known, fun zero => by simp [zero] at first, fits, made,
        fun i below => (fine i below).2.2, (right_iff known).mp right⟩
    · exact fun works => ⟨fault, pc, tiles, _, called, (right_iff known).mpr works.holds⟩
  · obtain ⟨-, called⟩ := sent.open' (.inr (by omega))
    refine iff_of_false ?_ fun works => more (nreq_of_works works)
    rintro ⟨-, -, -, c, once, -⟩
    rw [called] at once
    cases once

theorem Stage.agrees (stage : Stage x r) (complete : r.Complete x) : r.Agrees x ↔ x.Works := by
  have landed : r.flight = [] := by
    by_contra flying
    obtain ⟨i, member⟩ := List.exists_mem_of_ne_nil _ flying
    have stopped := complete (.reply i)
    simp [Npcwrite.step, member] at stopped
  cases stage with
  | before is =>
      have stopped := complete .main
      subst is
      simp only [Npcwrite.step, npcWritenb, Npcwrite.before] at stopped
      split_ifs at stopped
  | undefined zero fault open' pc flight =>
      refine iff_of_false ?_ fun works => works.unit zero
      rintro ⟨quiet, -⟩
      rw [fault] at quiet
      cases quiet
  | failed alloc open' pc flight =>
      refine iff_of_false ?_ fun works => ?_
      · rintro ⟨-, ended, -⟩
        rw [pc] at ended
        cases ended
      · have some' := works.alloc
        rw [alloc] at some'
        cases some'
  | sending known alloc i pc sent =>
      have stopped := complete .main
      simp only [Npcwrite.step, npcWritenb, pc] at stopped
      split_ifs at stopped
  | returned known alloc pc sent => exact sent.agrees known alloc pc landed
  | broken known i inside failed broken =>
      refine iff_of_false ?_ fun works => ?_
      · rintro ⟨-, ended, -⟩
        rw [broken.pc] at ended
        cases ended
      · have whole := nreq_of_pos known (nreq_of_works works)
        exact failed (fine_of_works works (by omega))

end Steps

/-- Whatever the order of the replies, a call is called back with what it should be, once and for
all of its bytes, if and only if it has what it needs. -/
theorem written_iff {x : Call} {r : Npcwrite}
    (run : Transition.Reaches (fun r e => step x r e) (fun _ _ => True) before r) :
    (r.dangling = false ∧ r.called.length ≤ 1) ∧ (r.Complete x → (r.Agrees x ↔ x.Works)) :=
  ⟨(stage_of_run run).once, (stage_of_run run).agrees⟩

theorem complete_of_returned {x : Call} {r : Npcwrite} {ret : ℤ} (pc : r.pc = .returned ret)
    (landed : r.flight = []) : r.Complete x := by
  intro e
  cases e with
  | main => simp [Npcwrite.step, npcWritenb, pc]
  | reply i => simp [Npcwrite.step, landed]

/-- A call that writes in pieces of two bytes, of which all are written. -/
def pairs (count : UInt32) : Call where
  msize := 26
  count
  offset := 0
  alloc := true
  sends := fun _ => true
  answers := fun i => ⟨none, 0, min 2 (count - 2 * .ofNat i)⟩

/-- Three bytes are written, and the second piece is answered first. -/
theorem written_iff_three : ∃ r : Npcwrite, (r.called = [3] ∧ r.sent = [⟨0, 0, 2⟩, ⟨2, 2, 1⟩]) ∧
    r.Agrees (pairs 3) := by
  have played : (Transition.play (fun r e => step (pairs 3) r e) (fun _ _ => True) before
      [.main, .main, .main, .main, .reply 1, .reply 0]).map
        (fun r => (r.pc, r.flight, r.called, r.sent)) =
          some (.returned 0, [], [3], [⟨0, 0, 2⟩, ⟨2, 2, 1⟩]) := by
    decide +kernel
  obtain ⟨r, is, fields⟩ := Option.map_eq_some_iff.mp played
  obtain ⟨pc, landed, called⟩ : r.pc = .returned 0 ∧ r.flight = [] ∧
      r.called = [3] ∧ r.sent = [⟨0, 0, 2⟩, ⟨2, 2, 1⟩] := by
    simpa using fields
  have works : (pairs 3).Works :=
    ⟨rfl, by decide, by decide, .inr (by decide), by decide, fun _ _ => rfl, fun _ => by
      decide +kernel⟩
  exact ⟨r, called, ((written_iff (Transition.reaches_of_play is)).2
    (complete_of_returned pc landed)).mpr works⟩

/-- Nothing is written, and nobody is called. -/
theorem not_written_all : ¬ ∀ (x : Call) (r : Npcwrite), x.alloc = true → (∀ i, x.sends i = true) →
    Transition.Reaches (fun r e => step x r e) (fun _ _ => True) before r →
      r.Complete x → r.Agrees x := by
  intro all
  have played : (Transition.play (fun r e => step (pairs 0) r e) (fun _ _ => True) before
      [.main, .main]).map (fun r => (r.pc, r.flight, r.called)) = some (.returned 0, [], []) := by
    decide +kernel
  obtain ⟨r, is, fields⟩ := Option.map_eq_some_iff.mp played
  obtain ⟨pc, landed, called⟩ : r.pc = .returned 0 ∧ r.flight = [] ∧ r.called = [] := by
    simpa using fields
  obtain ⟨-, -, -, c, once, -⟩ := all (pairs 0) r rfl (fun _ => rfl) (Transition.reaches_of_play is)
    (complete_of_returned pc landed)
  rw [called] at once
  cases once

end Npcwrite

end Npfs.ParallelWrite
