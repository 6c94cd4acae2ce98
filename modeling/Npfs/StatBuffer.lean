import Npfs.DirRead

/-!
# Stat records in buffers of any length

`np_serialize_stat` for every `int` that can be passed as the length of the buffer. The test in
front of the writing leaves out the two bytes of the record's own count, and the test behind it does
not see a last string that has been skipped at the very end.
-/

namespace Npfs

open LittleEndian Program

/-- `np_serialize_stat` on a buffer of `buflen` bytes, which holds `buf`: what it returns, and what
it leaves in the buffer; `none` if it writes elsewhere. -/
def npSerializeStatAt (wstat : Npwstat) (buf : List UInt8) (buflen : Int) (dotu : Bool) :
    Option (Int × List UInt8) :=
  let statsz := sizeWstat wstat dotu
  if statsz > buflen then
    some (0, buf)
  else
    (PutOp.execAll (bufPutWstat wstat (.ofNat statsz) dotu)
      (Cbuf.bufInit buf 0 buflen, default)).map fun (bufp, _) =>
        (if bufp.bufCheckOverflow then 0 else bufp.p - bufp.sp, bufp.mem)

/-- A complete record was written if there is room for one, and nothing was written elsewhere. -/
structure Serialized (wstat : Npwstat) (buf : List UInt8) (buflen : Int) (dotu : Bool) (n : Int)
    (mem : List UInt8) : Prop where
  inside : mem.length = buf.length
  refused : n = 0 ↔ buflen < 2 + sizeWstat wstat dotu
  size : n ≠ 0 → n = 2 + sizeWstat wstat dotu
  /-- The record is parsed back, whatever follows it. -/
  back : n ≠ 0 → ∀ rest old, ∃ stat,
    npDeserializeStat old (mem.take n.toNat ++ rest) 0 dotu = some (stat, n.toNat) ∧
      (RawStat.ofWstat wstat dotu).At (mem.take n.toNat ++ rest) dotu stat

/-- `np_serialize_stat` does what it is for. -/
def Serializes (wstat : Npwstat) (buf : List UInt8) (buflen : Int) (dotu : Bool) : Prop :=
  ∃ n mem, npSerializeStatAt wstat buf buflen dotu = some (n, mem) ∧
    Serialized wstat buf buflen dotu n mem

/-! ## Nothing is written elsewhere -/

/-- The window is the whole memory, and the cursor is not in front of it. -/
structure Cbuf.Whole (buf : Cbuf) : Prop where
  start : buf.sp = 0
  lower : 0 ≤ buf.p
  window : buf.ep = buf.mem.length

section Inside

variable {buf : Cbuf} {packing : Packing} {bytes : List UInt8}

theorem Cbuf.Whole.put (whole : buf.Whole) (room : buf.p + bytes.length ≤ buf.ep) :
    (buf.put bytes).Whole ∧ (buf.put bytes).mem.length = buf.mem.length := by
  obtain ⟨start, lower, window⟩ := whole
  have kept : (store buf.mem buf.p.toNat bytes).length = buf.mem.length := length_store (by omega)
  refine ⟨⟨start, ?_, ?_⟩, kept⟩
  · simp only [Cbuf.put]
    omega
  · exact window.trans (congrArg _ kept.symm)

theorem Cbuf.Whole.spoil (whole : buf.Whole) :
    buf.spoil.Whole ∧ buf.spoil.mem.length = buf.mem.length := by
  obtain ⟨start, lower, window⟩ := whole
  unfold Cbuf.spoil
  split_ifs
  · refine ⟨⟨start, ?_, window⟩, rfl⟩
    simp only
    omega
  · exact ⟨⟨start, lower, window⟩, rfl⟩

theorem bufPut_whole {β : Type} {val : β} {pval : Npfcall → β → Npfcall}
    (whole : packing.1.Whole) : (bufPut bytes val pval packing).1.Whole ∧
      (bufPut bytes val pval packing).1.mem.length = packing.1.mem.length := by
  by_cases room : packing.1.p + bytes.length ≤ packing.1.ep
  · rw [bufPut, bufCheckSize_of_room room]
    exact whole.put room
  · rw [bufPut, bufCheckSize_of_missing (not_le.mp room)]
    exact whole.spoil

theorem bufPutStr_whole (s : Option CStr) (ps : Npfcall → Npstr → Npfcall)
    (whole : packing.1.Whole) : ∃ next, bufPutStr s ps packing = some next ∧ next.1.Whole ∧
      next.1.mem.length = packing.1.mem.length := by
  obtain ⟨buf, fc⟩ := packing
  obtain ⟨text, textEq⟩ : ∃ text, CStr.bytes? s = text := ⟨_, rfl⟩
  by_cases room : buf.p + (2 + text.length) ≤ buf.ep
  case neg =>
    refine ⟨(buf.spoil, fc), ?_, whole.spoil⟩
    simp only [bufPutStr, textEq, bufCheckSize_of_missing (not_le.mp room)]
    rfl
  have count : buf.p + (bytes16 (.ofNat text.length)).length ≤ buf.ep := by
    rw [bytes16_length]
    omega
  obtain ⟨counted, kept⟩ := whole.put count
  have behind : (buf.put (bytes16 (.ofNat text.length))).p = buf.p + 2 := by
    simp [Cbuf.put]
  have same : (buf.put (bytes16 (.ofNat text.length))).ep = buf.ep := rfl
  obtain ⟨next, nextEq⟩ : ∃ next, buf.put (bytes16 (.ofNat text.length)) = next := ⟨_, rfl⟩
  rw [nextEq] at counted kept behind same
  have stored : bufPutInt16 (.ofNat text.length) null (buf, fc) = (next, fc) := by
    rw [bufPutInt16, bufPut, bufCheckSize_of_room count, ← nextEq]
    rfl
  have allocated : next.bufAlloc text.length = (some next.p, next.advance text.length) := by
    rw [Cbuf.bufAlloc, bufCheckSize_of_room (by omega)]
    rfl
  have copied : ∃ moved, (next.advance text.length).memmove (some next.p) text = some moved ∧
      moved.Whole ∧ moved.mem.length = next.mem.length := by
    have advanced : (next.advance text.length).Whole := by
      refine ⟨counted.start, ?_, counted.window⟩
      have lower := counted.lower
      simp only [Cbuf.advance]
      omega
    by_cases empty : text = []
    · exact ⟨_, if_pos empty, advanced, rfl⟩
    · have lower := counted.lower
      have window := counted.window
      have inside : 0 ≤ next.p ∧ next.p + text.length ≤ next.mem.length := by omega
      have length : (store next.mem next.p.toNat text).length = next.mem.length :=
        length_store (by omega)
      refine ⟨{ next.advance text.length with mem := store next.mem next.p.toNat text }, ?_,
        ⟨advanced.start, advanced.lower, ?_⟩, length⟩
      · rw [Cbuf.memmove, if_neg empty]
        exact if_pos inside
      · exact counted.window.trans (congrArg _ length.symm)
  obtain ⟨moved, copied, moves, length⟩ := copied
  refine ⟨(moved, ps fc ⟨.ofNat text.length, some next.p⟩), ?_, moves, length.trans kept⟩
  simp only [bufPutStr, textEq, bufCheckSize_of_room room, stored, allocated]
  rw [copied]
  rfl

/-- A statement of `buf_put_wstat` stores inside the memory. -/
theorem exec_whole {op : PutOp} (fits : op.Fits) (plain : ∀ count src guarded,
    op ≠ .data count src guarded) (whole : packing.1.Whole) : ∃ next, op.exec packing = some next ∧
      next.1.Whole ∧ next.1.mem.length = packing.1.mem.length := by
  cases op with
  | int8 | int16 | int32 | int64 => exact ⟨_, rfl, bufPut_whole whole⟩
  | str s ps => exact bufPutStr_whole s ps whole
  | alloc count => exact fits.elim
  | data count src guarded => exact absurd rfl (plain count src guarded)
  | assign change => exact ⟨(packing.1, change packing.2), rfl, whole, rfl⟩

theorem execAll_whole {ops : List PutOp} (fits : ∀ op ∈ ops, op.Fits)
    (plain : ∀ op ∈ ops, ∀ count src guarded, op ≠ .data count src guarded)
    (whole : packing.1.Whole) : ∃ last, PutOp.execAll ops packing = some last ∧ last.1.Whole ∧
      last.1.mem.length = packing.1.mem.length := by
  induction ops generalizing packing with
  | nil => exact ⟨packing, rfl, whole, rfl⟩
  | cons op ops ih =>
      obtain ⟨next, done, whole, kept⟩ := exec_whole (fits op (by simp)) (plain op (by simp)) whole
      obtain ⟨last, rest, whole, kept'⟩ := ih (fun other member => fits other (by simp [member]))
        (fun other member => plain other (by simp [member])) whole
      refine ⟨last, ?_, whole, kept'.trans kept⟩
      rw [PutOp.execAll, done]
      exact rest

end Inside

/-! ## When it does what it is for -/

section Iff

variable {wstat : Npwstat} {dotu : Bool} {buf : List UInt8} {buflen : Int}

theorem plain_bufPutWstat (wstat : Npwstat) (statsz : UInt16) (dotu : Bool) :
    ∀ op ∈ bufPutWstat wstat statsz dotu, ∀ count src guarded, op ≠ .data count src guarded := by
  cases dotu <;> simp [bufPutWstat, bufPutQid]

/-- On a buffer that is there it is `np_serialize_stat` as it is called. -/
theorem npSerializeStatAt_eq (fits : sizeWstat wstat dotu < 2 ^ 16) :
    ∃ mem, npSerializeStatAt wstat buf buf.length dotu =
        some (((npSerializeStat wstat buf dotu).1 : Int), mem) ∧
      (npSerializeStat wstat buf dotu).2 = mem ∧ mem.length = buf.length := by
  have start : (Cbuf.bufInit buf 0 buf.length).Whole :=
    ⟨rfl, le_rfl, by simp [Cbuf.bufInit]⟩
  obtain ⟨⟨last, fc⟩, done, whole, kept⟩ := @execAll_whole
    (Cbuf.bufInit buf 0 buf.length, default) _ (fits_bufPutWstat fits)
    (plain_bufPutWstat wstat (.ofNat (sizeWstat wstat dotu)) dotu) start
  by_cases large : sizeWstat wstat dotu > buf.length
  · refine ⟨buf, ?_, ?_, rfl⟩
    · rw [npSerializeStatAt, npSerializeStat, if_pos (by omega), if_pos large]
      rfl
    · rw [npSerializeStat, if_pos large]
  · refine ⟨last.mem, ?_, ?_, kept⟩
    · rw [npSerializeStatAt, npSerializeStat, if_neg (by omega), if_neg large, done]
      have lower : 0 ≤ last.p := whole.lower
      have first : last.sp = 0 := whole.start
      simp only [Option.map_some, Option.some.injEq, Prod.mk.injEq, and_true]
      split_ifs
      · rfl
      · omega
    · rw [npSerializeStat, if_neg large, done]

/-- The record is complete or refused, unless its last string is empty and all but the count of this
string fits into the buffer. -/
theorem serializes_iff (fits : sizeWstat wstat dotu < 2 ^ 16)
    (given : buf.length = buflen.toNat) : Serializes wstat buf buflen dotu ↔
      ¬ (dotu = false ∧ strlen? wstat.muid = 0 ∧ buflen = sizeWstat wstat dotu) := by
  have least := sizeWstat_ge wstat dotu
  by_cases negative : buflen < 0
  · -- No record is shorter than nothing.
    have large : sizeWstat wstat dotu > buflen := by omega
    refine iff_of_true ⟨0, buf, if_pos large, rfl, by omega, fun some => absurd rfl some,
      fun some => absurd rfl some⟩ ?_
    rintro ⟨-, -, exact⟩
    omega
  obtain rfl : buflen = buf.length := by omega
  obtain ⟨mem, done, left, kept⟩ := @npSerializeStatAt_eq wstat dotu buf fits
  have serializes : Serializes wstat buf buf.length dotu ↔
      Serialized wstat buf buf.length dotu (npSerializeStat wstat buf dotu).1 mem := by
    constructor
    · rintro ⟨n, mem', same, serialized⟩
      rw [done] at same
      obtain ⟨rfl, rfl⟩ := Prod.mk.inj (Option.some.inj same)
      exact serialized
    · exact fun serialized => ⟨_, mem, done, serialized⟩
  rw [serializes]
  by_cases room : 2 + sizeWstat wstat dotu ≤ buf.length
  · obtain ⟨size, taken⟩ := npSerializeStat_room fits room
    rw [left] at taken
    refine iff_of_true ⟨kept, by omega, fun _ => by omega, fun _ rest old => ?_⟩ ?_
    · rw [size, Int.toNat_natCast, taken, ← RawStat.wire_append]
      obtain ⟨stat, accepted, at'⟩ := @npDeserializeStat_raw
        ((RawStat.ofWstat wstat dotu).wire dotu rest) 0 dotu old _ rest (Nat.zero_le _) rfl
        (short_ofWstat fits)
      rw [wire_length] at accepted
      exact ⟨stat, accepted, at'⟩
    · rintro ⟨-, -, exact⟩
      omega
  · have cut : CutsShort wstat dotu buf ↔
        dotu = false ∧ strlen? wstat.muid = 0 ∧ (buf.length : Int) = sizeWstat wstat dotu := by
      rw [CutsShort, strlen?, List.length_eq_zero_iff, Nat.cast_inj]
    rw [← cut]
    rcases npSerializeStat_short fits (not_le.mp room) with ⟨none, whole⟩ | ⟨short, size, -⟩
    · refine iff_of_true ⟨kept, ?_, fun some => ?_, fun some => ?_⟩ whole
      · rw [none]
        omega
      · exact absurd (congrArg Nat.cast none) some
      · exact absurd (congrArg Nat.cast none) some
    · refine iff_of_false (fun serialized => ?_) fun whole => whole short
      have zero := serialized.refused.mpr (by omega)
      rw [size] at zero
      omega

/-- A record without strings. -/
def wstatEmpty : Npwstat := default

/-- 49 bytes are asked for, and there are 47. -/
theorem not_serializes_all : ¬ ∀ (wstat : Npwstat) (dotu : Bool) (buf : List UInt8) (buflen : Int),
    sizeWstat wstat dotu < 2 ^ 16 → buf.length = buflen.toNat →
      Serializes wstat buf buflen dotu := by
  intro all
  have size : sizeWstat wstatEmpty false = 47 := by decide
  have serializes := all wstatEmpty false (List.replicate 47 0) 47 (by decide) (by decide)
  obtain ⟨n, mem, done, serialized⟩ := serializes
  have returned : (npSerializeStatAt wstatEmpty (List.replicate 47 0) 47 false).map (·.1) =
      some 47 := by decide +kernel
  rw [done] at returned
  obtain rfl : n = 47 := Option.some.inj returned
  have zero := serialized.refused.mpr (by rw [size]; decide)
  cases zero

theorem serializes_forty_nine : Serializes wstatEmpty (List.replicate 49 0) 49 false :=
  (serializes_iff (by decide) (by decide)).mpr (by decide)

end Iff

end Npfs
