import Npfs.PacketSize

/-!
# Reading and writing by one request after another

`npc_readn` and `npc_writen` ask for what is left, and go on behind what the reply says.  Memory is
the bytes from `buf` on; what a server answers is a sequence of replies.
-/

namespace Npfs.ClientIo

/-- What `npc_rpc` makes of an answer: an error, or a reply.  The bytes from `rc->data` on are those
of an Rread. -/
inductive Reply where
  | error
  | counted (count : UInt32) (data : ℕ → UInt8)

/-- `rc->count`. -/
def Reply.said : Reply → ℕ
  | .error => 0
  | .counted count _ => count.toNat

/-- A request for `count` bytes at `buf + pos`. -/
structure Request where
  pos : ℕ
  offset : UInt64
  count : UInt32

/-- The result of a call, the memory behind it, and what was sent. -/
structure Done where
  ret : ℤ
  buf : ℕ → UInt8
  asked : List Request

/-- `memmove(buf + pos, data, l)`. -/
def memmove (buf : ℕ → UInt8) (pos : ℕ) (data : ℕ → UInt8) (l : ℕ) : ℕ → UInt8 := fun i =>
  if pos ≤ i ∧ i < pos + l then data (i - pos) else buf i

section Calls

variable (fid msize : UInt32) (heap : Malloc) (reply : Reply)

/-- `npc_read` at `buf + n`. -/
def npcRead (buf : ℕ → UInt8) (n count : UInt32) (offset : UInt64) : Done :=
  let count := if count > msize - IOHDRSZ then msize - IOHDRSZ else count
  if (npCreateTread fid offset count heap).isNone then ⟨-1, buf, []⟩
  else
    match reply with
    | .error => ⟨-1, buf, [⟨n.toNat, offset, count⟩]⟩
    | .counted l data =>
      let l := if l > count then count else l
      ⟨cint l, memmove buf n.toNat data l.toNat, [⟨n.toNat, offset, count⟩]⟩

/-- `npc_write` at `buf + n`. -/
def npcWrite (buf : ℕ → UInt8) (n count : UInt32) (offset : UInt64) : Done :=
  let count := if count > msize - IOHDRSZ then msize - IOHDRSZ else count
  let data := (List.range count.toNat).map fun i => buf (n.toNat + i)
  if (npCreateTwrite fid offset count data heap).isNone then ⟨-1, buf, []⟩
  else
    match reply with
    | .error => ⟨-1, buf, [⟨n.toNat, offset, count⟩]⟩
    | .counted l _ => ⟨cint l, buf, [⟨n.toNat, offset, count⟩]⟩

end Calls

/-- The loop of `npc_readn` and of `npc_writen`; `k` requests are answered. -/
def ioLoop (io : (k : ℕ) → (buf : ℕ → UInt8) → (n : UInt32) → Done) (count : UInt32) :
    (turns k : ℕ) → (buf : ℕ → UInt8) → (n : UInt32) → Option Done
  | 0, _, _, _ => none
  | turns + 1, k, buf, n =>
    if n < count then
      let call := io k buf n
      if call.ret < 0 then some { call with ret := -1 }
      else if call.ret = 0 then some { call with ret := cint n }
      else do
        let rest ← ioLoop io count turns (k + 1) call.buf (n + .ofNat call.ret.toNat)
        some { rest with asked := call.asked ++ rest.asked }
    else
      some ⟨cint n, buf, []⟩

variable (fid msize : UInt32) (heap : ℕ → Malloc) (replies : ℕ → Reply) (buf : ℕ → UInt8)
  (count : UInt32) (offset : UInt64)

/-- `npc_readn`. -/
def npcReadn : Option Done :=
  ioLoop (fun k buf n =>
    npcRead fid msize (heap k) (replies k) buf n (count - n) (offset + n.toUInt64))
    count (count.toNat + 1) 0 buf 0

/-- `npc_writen`. -/
def npcWriten : Option Done :=
  ioLoop (fun k buf n =>
    npcWrite fid msize (heap k) (replies k) buf n (count - n) (offset + n.toUInt64))
    count (count.toNat + 1) 0 buf 0

/-! ## What a call should do -/

/-- The answered parts of the requests follow each other from `start` to `stop`. -/
def Covers (offset : UInt64) (replies : ℕ → Reply) :
    (k start : ℕ) → List Request → (stop : ℕ) → Prop
  | _, start, [], stop => start = stop
  | k, start, r :: rest, stop =>
    r.pos = start ∧ r.offset = offset + .ofNat start ∧
      Covers offset replies (k + 1) (start + min r.count.toNat (replies k).said) rest stop

/-- From position `n` on, when `k` requests are answered: the buffer is not left, the result is `-1`
for an error only, and else it is the end of what is covered. -/
structure Copies (k n : ℕ) (call : Done) : Prop where
  inside : ∀ r ∈ call.asked, r.pos + r.count.toNat ≤ count.toNat
  outside : ∀ i, count.toNat ≤ i → call.buf i = buf i
  error_iff : call.ret = -1 ↔ ∃ j < call.asked.length, replies (k + j) = .error
  covers : call.ret ≠ -1 →
    ∃ stop ≤ count.toNat, call.ret = stop ∧ Covers offset replies k n call.asked stop

/-- The bytes of the answers are where they were asked for. -/
def Filled (k : ℕ) (call : Done) : Prop :=
  ∀ j r, call.asked[j]? = some r → ∀ l data, replies (k + j) = .counted l data →
    ∀ i < min r.count.toNat l.toNat, call.buf (r.pos + i) = data i

/-! ## When `npc_writen` does it -/

/-- What the first `k` replies say. -/
def total (k : ℕ) : ℕ := ((List.range k).map fun i => (replies i).said).sum

/-- A reply after which `npc_writen` goes on. -/
def Reply.Going : Reply → Prop
  | .error => False
  | .counted count _ => 0 < count.toNat ∧ count.toNat < 2 ^ 31

/-- There is a request number `k`. -/
def Goes (k : ℕ) : Prop := total replies k < count.toNat ∧ ∀ i < k, (replies i).Going

/-- The first request can be made, and then there is an error, or no reply says more than was
asked for. -/
def Honest : Prop :=
  min count.toNat (msize - IOHDRSZ).toNat + 23 < 2 ^ 31 ∧
    ((∃ k, Goes replies count k ∧ replies k = .error) ∨
      ∀ k, Goes replies count k → (replies k).said ≤
        min (count.toNat - total replies k) (msize - IOHDRSZ).toNat)

/-! ## The calls -/

section Calls

variable {fid msize : UInt32} {heap : Malloc} {reply : Reply} {buf : ℕ → UInt8}
  {n count : UInt32} {offset : UInt64}

theorem clamp_toNat (msize count : UInt32) :
    (if count > msize - IOHDRSZ then msize - IOHDRSZ else count).toNat =
      min count.toNat (msize - IOHDRSZ).toNat := by
  split
  · rename_i large
    have order : (msize - IOHDRSZ).toNat < count.toNat := large
    omega
  · rename_i small
    have order : ¬ (msize - IOHDRSZ).toNat < count.toNat := small
    omega

theorem npCreateTread_some (fid : UInt32) (offset : UInt64) (count : UInt32) (heap : Malloc) :
    ∃ tc, npCreateTread fid offset count heap = some tc := by
  obtain ⟨tc, created, -⟩ :=
    (BaseCall.tread fid offset count).fills_of_sized false trivial trivial heap
  exact ⟨tc, created⟩

theorem npCreateTwrite_some {data : List UInt8} (length : data.length = count.toNat)
    (small : count.toNat + 23 < 2 ^ 31) (fid : UInt32) (offset : UInt64) (heap : Malloc) :
    ∃ tc, npCreateTwrite fid offset count data heap = some tc := by
  obtain ⟨tc, created, -⟩ :=
    (BaseCall.twrite fid offset count data).fills_of_sized false length small heap
  exact ⟨tc, created⟩

/-- A packet that an `int` cannot count has no room for anything. -/
theorem npCreateTwrite_none {data : List UInt8} (large : ¬ count.toNat + 23 < 2 ^ 31)
    (int : count.toNat < 2 ^ 31) (fid : UInt32) (offset : UInt64) (heap : Malloc) :
    npCreateTwrite fid offset count data heap = none := by
  have total : (4 + 8 + 4 + count + 7 : UInt32).toNat = count.toNat + 23 := by
    rw [UInt32.toNat_add, UInt32.toNat_add]
    simp
    omega
  have window : cint (4 + 8 + 4 + count + 7) = (count.toNat + 23 : ℤ) - 2 ^ 32 := by
    rw [cint_of_ge (by omega), total]
    push_cast
    rfl
  have behind : (blankPacket heap (4 + 8 + 4 + count + 7)).ep <
      (blankPacket heap (4 + 8 + 4 + count + 7)).p := by
    simp only [blankPacket, Cbuf.bufInit, window]
    omega
  have untouched : npCreateCommon heap (4 + 8 + 4 + count) .twrite =
      (blankPacket heap (4 + 8 + 4 + count + 7), heap.fc) := by
    change bufPutHeader (4 + 8 + 4 + count + 7) .twrite
      (blankPacket heap (4 + 8 + 4 + count + 7), heap.fc) = _
    simp only [bufPutHeader, bufPutInt32, bufPutInt8, bufPutInt16, bufPut_behind behind]
  have missing : (blankPacket heap (4 + 8 + 4 + count + 7)).bufAlloc (cint count) =
      (none, blankPacket heap (4 + 8 + 4 + count + 7)) := by
    rw [bufAlloc_missing (by rw [cint_of_lt int]; omega), Cbuf.spoil, if_neg (by omega)]
  rw [npCreateTwrite, npCreate, untouched]
  generalize blankPacket heap (4 + 8 + 4 + count + 7) = packet at behind missing ⊢
  simp [putFidRange, PutOp.execAll, PutOp.exec, bufPutInt32, bufPutInt64, bufPut_behind behind,
    bufAllocData, missing, npPostCheck, Cbuf.bufCheckOverflow, behind]

theorem toNat_left (before : n < count) : (count - n).toNat = count.toNat - n.toNat :=
  UInt32.toNat_sub_of_le _ _ (UInt32.le_of_lt before)

/-- The request for what is left behind `n`. -/
structure Request.Behind (msize count : UInt32) (offset : UInt64) (n : ℕ) (r : Request) : Prop where
  pos : r.pos = n
  offset : r.offset = offset + .ofNat n
  count : r.count.toNat = min (count.toNat - n) (msize - IOHDRSZ).toNat

theorem behind_clamp (before : n < count) : Request.Behind msize count offset n.toNat
    ⟨n.toNat, offset + n.toUInt64, if count - n > msize - IOHDRSZ then msize - IOHDRSZ
      else count - n⟩ :=
  ⟨rfl, by simp, by rw [clamp_toNat, toNat_left before]⟩

theorem npcRead_cases (before : n < count) (int : count.toNat < 2 ^ 31) :
    ∃ r, r.Behind msize count offset n.toNat ∧
      let call := npcRead fid msize heap reply buf n (count - n) (offset + n.toUInt64)
      call.asked = [r] ∧
        (reply = .error ∧ call.ret = -1 ∧ call.buf = buf ∨
          ∃ l data, reply = .counted l data ∧ call.ret = (min r.count.toNat l.toNat : ℕ) ∧
            call.buf = memmove buf n.toNat data (min r.count.toNat l.toNat)) := by
  obtain ⟨tc, created⟩ := npCreateTread_some fid (offset + n.toUInt64)
    (if count - n > msize - IOHDRSZ then msize - IOHDRSZ else count - n) heap
  refine ⟨_, behind_clamp before, ?_⟩
  have clamped := clamp_toNat msize (count - n)
  have left := toNat_left before
  simp only [npcRead, created, Option.isNone_some, Bool.false_eq_true, if_false]
  generalize (if count - n > msize - IOHDRSZ then msize - IOHDRSZ else count - n) = c at *
  cases reply with
  | error => exact ⟨rfl, .inl ⟨rfl, rfl, rfl⟩⟩
  | counted l data =>
      have least : (if l > c then c else l).toNat = min c.toNat l.toNat := by
        split
        · rename_i large
          have order : c.toNat < l.toNat := large
          omega
        · rename_i small
          have order : ¬ c.toNat < l.toNat := small
          omega
      simp only [least]
      exact ⟨trivial, .inr ⟨l, data, rfl, by rw [cint_of_lt (by omega), least], rfl⟩⟩

theorem npcWrite_cases (before : n < count)
    (small : min (count.toNat - n.toNat) (msize - IOHDRSZ).toNat + 23 < 2 ^ 31) :
    ∃ r, r.Behind msize count offset n.toNat ∧
      let call := npcWrite fid msize heap reply buf n (count - n) (offset + n.toUInt64)
      call.asked = [r] ∧ call.buf = buf ∧
        (reply = .error ∧ call.ret = -1 ∨
          ∃ l data, reply = .counted l data ∧ call.ret = cint l) := by
  have clamped := clamp_toNat msize (count - n)
  have left := toNat_left before
  obtain ⟨tc, created⟩ := @npCreateTwrite_some
    (if count - n > msize - IOHDRSZ then msize - IOHDRSZ else count - n)
    ((List.range (if count - n > msize - IOHDRSZ then msize - IOHDRSZ else count - n).toNat).map
      fun i => buf (n.toNat + i))
    (by rw [List.length_map, List.length_range]) (by omega) fid (offset + n.toUInt64) heap
  refine ⟨_, behind_clamp before, ?_⟩
  simp only [npcWrite, created, Option.isNone_some, Bool.false_eq_true, if_false]
  cases reply with
  | error => exact ⟨rfl, rfl, .inl ⟨rfl, rfl⟩⟩
  | counted l data => exact ⟨rfl, rfl, .inr ⟨l, data, rfl, rfl⟩⟩

/-- The Twrite cannot be made. -/
theorem npcWrite_refused (int : count.toNat < 2 ^ 31)
    (large : ¬ min count.toNat (msize - IOHDRSZ).toNat + 23 < 2 ^ 31) :
    npcWrite fid msize heap reply buf n count offset = ⟨-1, buf, []⟩ := by
  have clamped := clamp_toNat msize count
  have none' := @npCreateTwrite_none
    (if count > msize - IOHDRSZ then msize - IOHDRSZ else count)
    ((List.range (if count > msize - IOHDRSZ then msize - IOHDRSZ else count).toNat).map
      fun i => buf (n.toNat + i)) (by omega) (by omega) fid offset heap
  simp only [npcWrite, none', Option.isNone_none, if_true]

end Calls

/-! ## `npc_readn` -/

section Loops

variable {fid msize : UInt32} {heap : ℕ → Malloc} {replies : ℕ → Reply} {buf : ℕ → UInt8}
  {count : UInt32} {offset : UInt64}

theorem memmove_outside {pos l i : ℕ} {data : ℕ → UInt8} (outside : ¬ (pos ≤ i ∧ i < pos + l)) :
    memmove buf pos data l i = buf i := if_neg outside

theorem memmove_inside {pos l i : ℕ} {data : ℕ → UInt8} (inside : i < l) :
    memmove buf pos data l (pos + i) = data i := by
  rw [memmove, if_pos ⟨by omega, by omega⟩, Nat.add_sub_cancel_left]

/-- An error is the answer to the first request, or to another one. -/
theorem failed_cons (replies : ℕ → Reply) (k : ℕ) (r : Request) (asked : List Request) :
    (∃ j < ([r] ++ asked).length, replies (k + j) = .error) ↔
      replies k = .error ∨ ∃ j < asked.length, replies (k + 1 + j) = .error := by
  have length : ([r] ++ asked).length = asked.length + 1 := rfl
  rw [length, Nat.exists_lt_succ_left]
  simp only [Nat.add_zero, Nat.add_assoc, Nat.add_comm 1]

/-- A loop that ends without a request. -/
theorem Copies.stay {k : ℕ} {n : UInt32} (inside : n.toNat ≤ count.toNat)
    (int : count.toNat < 2 ^ 31) :
    Copies replies buf count offset k n.toNat ⟨cint n, buf, []⟩ where
  inside := by simp
  outside _ _ := rfl
  error_iff := by
    have number : cint n = n.toNat := cint_of_lt (by omega)
    refine iff_of_false (fun wrong : cint n = -1 => by omega) ?_
    rintro ⟨j, before, -⟩
    exact absurd before (Nat.not_lt_zero j)
  covers _ := ⟨n.toNat, inside, cint_of_lt (by omega), rfl⟩

/-- A loop that ends with an error, or with a reply that says 0. -/
theorem Copies.stop {k : ℕ} {n : UInt32} {r : Request} {ret : ℤ}
    (behind : r.Behind msize count offset n.toNat) (before : n.toNat < count.toNat)
    (int : count.toNat < 2 ^ 31)
    (ends : replies k = .error ∧ ret = -1 ∨
      replies k ≠ .error ∧ min r.count.toNat (replies k).said = 0 ∧ ret = cint n) :
    Copies replies buf count offset k n.toNat ⟨ret, buf, [r]⟩ := by
  have bound := behind.count
  have number : cint n = n.toNat := cint_of_lt (by omega)
  have one := failed_cons replies k r []
  refine ⟨fun r' member => ?_, fun _ _ => rfl, ?_, fun fine => ?_⟩
  · obtain rfl := List.mem_singleton.mp member
    rw [behind.pos]
    omega
  · refine Iff.trans ?_ one.symm
    rcases ends with ⟨failed, rfl⟩ | ⟨answered, -, rfl⟩
    · exact iff_of_true rfl (.inl failed)
    · refine iff_of_false (fun wrong : cint n = -1 => by omega) ?_
      rintro (failed | ⟨j, before, -⟩)
      · exact answered failed
      · exact absurd before (Nat.not_lt_zero j)
  · rcases ends with ⟨-, failed⟩ | ⟨-, nothing, rfl⟩
    · exact absurd failed fine
    · refine ⟨n.toNat, before.le, number, behind.pos, behind.offset, ?_⟩
      rw [nothing]
      rfl

/-- A loop that goes on behind what was asked for and said. -/
theorem copies_cons {k n : ℕ} {r : Request} {rest : Done} {buf' : ℕ → UInt8}
    (behind : r.Behind msize count offset n) (before : n < count.toNat)
    (answered : replies k ≠ .error) (kept : ∀ i, count.toNat ≤ i → buf' i = buf i) :
    Copies replies buf count offset k n { rest with asked := [r] ++ rest.asked } ↔
      Copies replies buf' count offset (k + 1) (n + min r.count.toNat (replies k).said) rest := by
  have bound := behind.count
  have failed := (failed_cons replies k r rest.asked).trans (or_iff_right answered)
  constructor
  · intro copies
    refine ⟨fun r' member => copies.inside r' (List.mem_cons_of_mem r member), fun i outside => ?_,
      copies.error_iff.trans failed, fun fine => ?_⟩
    · exact (copies.outside i outside).trans (kept i outside).symm
    · obtain ⟨stop, inside, same, -, -, covers⟩ := copies.covers fine
      exact ⟨stop, inside, same, covers⟩
  · intro copies
    refine ⟨fun r' member => ?_, fun i outside => ?_, copies.error_iff.trans failed.symm,
      fun fine => ?_⟩
    · rcases List.mem_cons.mp member with rfl | member
      · rw [behind.pos]
        omega
      · exact copies.inside r' member
    · exact (copies.outside i outside).trans (kept i outside)
    · obtain ⟨stop, inside, same, covers⟩ := copies.covers fine
      exact ⟨stop, inside, same, behind.pos, behind.offset, covers⟩

theorem readn_from (int : count.toNat < 2 ^ 31) {turns k : ℕ} {n : UInt32}
    (enough : count.toNat < turns + n.toNat) (inside : n.toNat ≤ count.toNat) :
    ∃ call, ioLoop (fun k buf n =>
        npcRead fid msize (heap k) (replies k) buf n (count - n) (offset + n.toUInt64))
        count turns k buf n = some call ∧
      Copies replies buf count offset k n.toNat call ∧ Filled replies k call ∧
        ∀ i < n.toNat, call.buf i = buf i := by
  induction turns generalizing k buf n with
  | zero => omega
  | succ turns ih =>
      rw [ioLoop]
      by_cases before : n < count
      · rw [if_pos before]
        obtain ⟨r, behind, asked, result⟩ := @npcRead_cases fid msize (heap k) (replies k) buf n
          count offset before int
        have order : n.toNat < count.toNat := before
        have bound := behind.count
        generalize npcRead fid msize (heap k) (replies k) buf n (count - n)
          (offset + n.toUInt64) = call at asked result ⊢
        rcases result with ⟨failed, ret, kept⟩ | ⟨l, data, answered, ret, moved⟩
        · have negative : call.ret < 0 := by omega
          simp only [negative, if_true]
          refine ⟨_, rfl, ?_, ?_, ?_⟩
          · rw [asked, kept]
            exact .stop behind order int (.inl ⟨failed, rfl⟩)
          · rw [asked]
            intro j r' there l data answered
            cases j with
            | zero => rw [Nat.add_zero, failed] at answered; cases answered
            | succ j => cases there
          · rw [kept]
            exact fun _ _ => rfl
        · have said : (replies k).said = l.toNat := by rw [answered]; rfl
          have fine : replies k ≠ .error := by rw [answered]; exact Reply.noConfusion
          have positive : ¬ call.ret < 0 := by omega
          simp only [positive, if_false]
          by_cases nothing : call.ret = 0
          · simp only [nothing, if_true]
            have least : min r.count.toNat (replies k).said = 0 := by omega
            have same : call.buf = buf := by
              funext i
              rw [moved, memmove_outside (by omega)]
            refine ⟨_, rfl, ?_, ?_, fun i _ => congrFun same i⟩
            · rw [asked, same]
              exact .stop behind order int (.inr ⟨fine, least, rfl⟩)
            · rw [asked]
              intro j r' there l' data' answered' i inside
              cases j with
              | zero =>
                  obtain rfl := Option.some.inj there
                  rw [Nat.add_zero] at answered'
                  obtain ⟨rfl, rfl⟩ := Reply.counted.inj (answered.symm.trans answered')
                  omega
              | succ j => cases there
          · simp only [nothing, if_false]
            have next : (n + .ofNat call.ret.toNat).toNat =
                n.toNat + min r.count.toNat (replies k).said := by
              have taken : call.ret.toNat = min r.count.toNat (replies k).said := by omega
              rw [UInt32.toNat_add, taken, UInt32.toNat_ofNat_of_lt' (show _ < 2 ^ 32 by omega)]
              exact Nat.mod_eq_of_lt (by omega)
            obtain ⟨rest, run, copies, filled, kept⟩ := @ih call.buf (k + 1)
              (n + .ofNat call.ret.toNat) (by omega) (by omega)
            rw [next] at copies kept
            refine ⟨_, by rw [run]; rfl, ?_, ?_, ?_⟩
            · rw [asked]
              refine (copies_cons behind order fine fun i outside => ?_).mpr copies
              rw [moved, memmove_outside (by omega)]
            · rw [asked]
              intro j r' there l' data' answered' i inside
              cases j with
              | zero =>
                  obtain rfl := Option.some.inj there
                  rw [Nat.add_zero] at answered'
                  obtain ⟨rfl, rfl⟩ := Reply.counted.inj (answered.symm.trans answered')
                  show rest.buf _ = _
                  rw [behind.pos, kept _ (by omega), moved, memmove_inside inside]
              | succ j =>
                  have later : replies (k + 1 + j) = .counted l' data' := by
                    rw [← answered', Nat.add_assoc, Nat.add_comm 1]
                  exact filled j r' there l' data' later i inside
            · intro i front
              show rest.buf i = buf i
              rw [kept i (by omega), moved, memmove_outside (by omega)]
      · have order : ¬ n.toNat < count.toNat := before
        rw [if_neg before]
        refine ⟨_, rfl, .stay inside int, ?_, fun _ _ => rfl⟩
        intro j r there
        cases there

/-! ## `npc_writen` -/

theorem total_succ (k : ℕ) : total replies (k + 1) = total replies k + (replies k).said := by
  simp [total, List.range_succ]

theorem total_mono {k j : ℕ} (order : k ≤ j) : total replies k ≤ total replies j := by
  induction order with
  | refl => exact le_rfl
  | step _ ih =>
      rw [total_succ]
      omega

theorem Reply.going_iff (reply : Reply) : reply.Going ↔ 0 < reply.said ∧ reply.said < 2 ^ 31 := by
  cases reply with
  | error => exact iff_of_false id fun both => absurd both.1 (Nat.lt_irrefl 0)
  | counted => rfl

/-- A later request is behind a reply after which the loop goes on. -/
theorem Goes.later {k j : ℕ} (goes : Goes replies count j) (order : k ≤ j) :
    j = k ∨ (replies k).Going ∧ k + 1 ≤ j := by
  rcases Nat.eq_or_lt_of_le order with same | later
  · exact .inl same.symm
  · exact .inr ⟨goes.2 k later, later⟩

variable (msize replies count) in
/-- From request `k` on there is an error, or no reply says more than was asked for. -/
def HonestFrom (k : ℕ) : Prop :=
  (∃ j ≥ k, Goes replies count j ∧ replies j = .error) ∨
    ∀ j ≥ k, Goes replies count j → (replies j).said ≤
      min (count.toNat - total replies j) (msize - IOHDRSZ).toNat

variable (msize replies buf count offset) in
/-- What there is to say of the loop of `npc_writen` from request `k` on. -/
structure Follows (k : ℕ) (call : Done) : Prop where
  same : call.buf = buf
  inside : ∀ r ∈ call.asked, r.pos + r.count.toNat ≤ count.toNat
  failed_iff : (∃ j < call.asked.length, replies (k + j) = .error) ↔
    ∃ j ≥ k, Goes replies count j ∧ replies j = .error
  failed : (∃ j < call.asked.length, replies (k + j) = .error) → call.ret = -1
  silent : call.asked = [] → ∃ n : UInt32, n.toNat = total replies k ∧ call.ret = cint n
  first : ∀ r ∈ call.asked.head?, r.pos = total replies k
  copies_iff : total replies k ≤ count.toNat →
    (Copies replies buf count offset k (total replies k) call ↔ HonestFrom msize replies count k)

/-- A loop that ends behind what it should write. -/
theorem follows_stay (int : count.toNat < 2 ^ 31) {k : ℕ} {n : UInt32}
    (arrived : n.toNat = total replies k) (behind : ¬ n.toNat < count.toNat) :
    Follows msize replies buf count offset k ⟨cint n, buf, []⟩ := by
  have ends (j : ℕ) (order : j ≥ k) : ¬ Goes replies count j := fun goes => by
    have more := @total_mono replies k j order
    have less := goes.1
    omega
  have none' : ¬ ∃ j < ([] : List Request).length, replies (k + j) = .error := by
    rintro ⟨j, before, -⟩
    exact absurd before (Nat.not_lt_zero j)
  refine ⟨rfl, by simp, iff_of_false none' ?_, fun some => absurd some none',
    fun _ => ⟨n, arrived, rfl⟩, by simp, fun within => ?_⟩
  · rintro ⟨j, order, goes, -⟩
    exact ends j order goes
  · rw [← arrived] at within ⊢
    exact iff_of_true (.stay within int) (.inr fun j order goes => absurd goes (ends j order))

/-- A loop that ends with a reply. -/
theorem follows_stop (int : count.toNat < 2 ^ 31) {k : ℕ} {n : UInt32} {r : Request} {ret : ℤ}
    (arrived : n.toNat = total replies k) (behind : r.Behind msize count offset n.toNat)
    (goes : Goes replies count k)
    (ends : replies k = .error ∧ ret = -1 ∨
      replies k ≠ .error ∧ ((replies k).said = 0 ∧ ret = cint n ∨
        2 ^ 31 ≤ (replies k).said ∧ ret = -1)) :
    Follows msize replies buf count offset k ⟨ret, buf, [r]⟩ := by
  have before : n.toNat < count.toNat := arrived ▸ goes.1
  have bound := behind.count
  have halts : ¬ (replies k).Going := by
    rw [Reply.going_iff]
    rintro ⟨some, small⟩
    rcases ends with ⟨failed, -⟩ | ⟨-, ⟨nothing, -⟩ | ⟨large, -⟩⟩
    · rw [failed] at some
      exact absurd some (Nat.lt_irrefl 0)
    · omega
    · omega
  have last (j : ℕ) (order : j ≥ k) (goes : Goes replies count j) : j = k :=
    (goes.later order).resolve_right fun on => halts on.1
  have single : (∃ j < [r].length, replies (k + j) = .error) ↔ replies k = .error :=
    (failed_cons replies k r []).trans (or_iff_left fun ⟨j, before, _⟩ => by cases before)
  have only : (∃ j ≥ k, Goes replies count j ∧ replies j = .error) ↔ replies k = .error := by
    constructor
    · rintro ⟨j, order, there, failed⟩
      rwa [last j order there] at failed
    · exact fun failed => ⟨k, le_rfl, goes, failed⟩
  refine ⟨rfl, fun r' member => ?_, single.trans only.symm, fun some => ?_, fun none' => ?_,
    fun r' there => ?_, fun within => ?_⟩
  · obtain rfl := List.mem_singleton.mp member
    rw [behind.pos]
    omega
  · rcases ends with ⟨-, ret⟩ | ⟨fine, -⟩
    · exact ret
    · exact absurd (single.mp some) fine
  · cases none'
  · obtain rfl := Option.some.inj there
    rw [behind.pos, arrived]
  · rw [← arrived]
    rcases ends with ⟨failed, ret⟩ | ⟨fine, ⟨nothing, ret⟩ | ⟨large, ret⟩⟩
    · exact iff_of_true (.stop behind before int (.inl ⟨failed, ret⟩)) (.inl (only.mpr failed))
    · refine iff_of_true (.stop behind before int (.inr ⟨fine, by omega, ret⟩)) (.inr ?_)
      intro j order there
      rw [last j order there]
      omega
    · refine iff_of_false (fun copies => fine (single.mp (copies.error_iff.mp ret))) ?_
      rintro (failed | modest)
      · exact fine (only.mp failed)
      · have less := modest k le_rfl goes
        omega

/-- A loop that goes on behind a reply. -/
theorem follows_cons (int : count.toNat < 2 ^ 31) {k : ℕ} {n : ℕ} {r : Request} {rest : Done}
    (arrived : n = total replies k) (behind : r.Behind msize count offset n)
    (goes : Goes replies count k) (on : (replies k).Going)
    (follows : Follows msize replies buf count offset (k + 1) rest) :
    Follows msize replies buf count offset k { rest with asked := [r] ++ rest.asked } := by
  subst arrived
  have before := goes.1
  have bound := behind.count
  have sum := @total_succ replies k
  obtain ⟨some, small⟩ := (replies k).going_iff.mp on
  have fine : replies k ≠ .error := fun failed => by
    rw [failed] at on
    exact on
  have within (modest : (replies k).said ≤ r.count.toNat) :
      total replies (k + 1) ≤ count.toNat := by omega
  have shift := (failed_cons replies k r rest.asked).trans (or_iff_right fine)
  have later : (∃ j ≥ k, Goes replies count j ∧ replies j = .error) ↔
      ∃ j ≥ k + 1, Goes replies count j ∧ replies j = .error := by
    constructor
    · rintro ⟨j, order, there, failed⟩
      rcases there.later order with rfl | ⟨-, order⟩
      · exact absurd failed fine
      · exact ⟨j, order, there, failed⟩
    · rintro ⟨j, order, there, failed⟩
      exact ⟨j, Nat.le_of_succ_le order, there, failed⟩
  refine ⟨follows.same, fun r' member => ?_, (shift.trans follows.failed_iff).trans later.symm,
    fun some => follows.failed (shift.mp some), fun none' => (List.cons_ne_nil _ _ none').elim,
    fun r' there => ?_, fun _ => ?_⟩
  · rcases List.mem_cons.mp member with rfl | member
    · rw [behind.pos]
      omega
    · exact follows.inside r' member
  · obtain rfl := Option.some.inj there
    exact behind.pos
  · rw [copies_cons behind before fine fun _ _ => rfl]
    by_cases modest : (replies k).said ≤ r.count.toNat
    · have next : total replies k + min r.count.toNat (replies k).said = total replies (k + 1) := by
        rw [sum, Nat.min_eq_right modest]
      rw [next]
      refine (follows.copies_iff (within modest)).trans (or_congr later.symm ⟨?_, ?_⟩)
      · intro all j order there
        rcases there.later order with rfl | ⟨-, order⟩
        · omega
        · exact all j order there
      · exact fun all j order there => all j (Nat.le_of_succ_le order) there
    · have next : total replies k + min r.count.toNat (replies k).said =
          total replies k + r.count.toNat := by omega
      rw [next]
      constructor
      · intro copies
        refine .inl (later.mpr (follows.failed_iff.mp (by_contra fun none' => ?_)))
        obtain ⟨stop, inside, ret, covers⟩ :=
          copies.covers fun failed => none' (copies.error_iff.mp failed)
        cases asked : rest.asked with
        | nil =>
            rw [asked] at covers
            obtain ⟨n, arrived, number⟩ := follows.silent asked
            have stop : total replies k + r.count.toNat = stop := covers
            rw [ret, cint] at number
            split at number <;> omega
        | cons r' asked' =>
            rw [asked] at covers
            have there := follows.first r' (by rw [asked]; rfl)
            have position := covers.1
            omega
      · rintro (failed | all)
        · have answered := follows.failed_iff.mpr (later.mp failed)
          have ret := follows.failed answered
          exact ⟨follows.inside, fun i _ => congrFun follows.same i, iff_of_true ret answered,
            fun other => absurd ret other⟩
        · have less := all k le_rfl goes
          omega

theorem writen_from (int : count.toNat < 2 ^ 31)
    (small : min count.toNat (msize - IOHDRSZ).toNat + 23 < 2 ^ 31) {turns k : ℕ} {n : UInt32}
    (turn : 0 < turns) (enough : count.toNat < turns + n.toNat)
    (arrived : n.toNat = total replies k) (going : ∀ i < k, (replies i).Going) :
    ∃ call, ioLoop (fun k buf n =>
        npcWrite fid msize (heap k) (replies k) buf n (count - n) (offset + n.toUInt64))
        count turns k buf n = some call ∧ Follows msize replies buf count offset k call := by
  induction turns generalizing k n with
  | zero => omega
  | succ turns ih =>
      rw [ioLoop]
      by_cases before : n < count
      · rw [if_pos before]
        have order : n.toNat < count.toNat := before
        have goes : Goes replies count k := ⟨arrived ▸ order, going⟩
        obtain ⟨r, behind, asked, kept, result⟩ := @npcWrite_cases fid msize (heap k) (replies k)
          buf n count offset before (by omega)
        generalize npcWrite fid msize (heap k) (replies k) buf n (count - n)
          (offset + n.toUInt64) = call at asked kept result ⊢
        rcases result with ⟨failed, ret⟩ | ⟨l, data, answered, ret⟩
        · have negative : call.ret < 0 := by omega
          simp only [negative, if_true, asked, kept]
          exact ⟨_, rfl, follows_stop int arrived behind goes (.inl ⟨failed, rfl⟩)⟩
        · have said : (replies k).said = l.toNat := by rw [answered]; rfl
          have fine : replies k ≠ .error := by rw [answered]; exact Reply.noConfusion
          have bound := l.toNat_lt
          rw [cint] at ret
          split at ret
          · have positive : ¬ call.ret < 0 := by omega
            simp only [positive, if_false]
            by_cases nothing : call.ret = 0
            · simp only [nothing, if_true, asked, kept]
              exact ⟨_, rfl, follows_stop int arrived behind goes
                (.inr ⟨fine, .inl ⟨by omega, rfl⟩⟩)⟩
            · simp only [nothing, if_false, asked, kept]
              have taken : call.ret.toNat = l.toNat := by omega
              have on : (replies k).Going := (replies k).going_iff.mpr (by omega)
              have next : (n + .ofNat call.ret.toNat).toNat = total replies (k + 1) := by
                rw [UInt32.toNat_add, taken, UInt32.ofNat_toNat, total_succ, ← arrived, said]
                exact Nat.mod_eq_of_lt (by omega)
              have still : ∀ i < k + 1, (replies i).Going := by
                intro i earlier
                rcases Nat.lt_succ_iff_lt_or_eq.mp earlier with earlier | rfl
                · exact going i earlier
                · exact on
              obtain ⟨rest, run, follows⟩ := @ih (k + 1) (n + .ofNat call.ret.toNat) (by omega)
                (by rw [next, total_succ]; omega) next still
              exact ⟨_, by rw [run]; rfl, follows_cons int arrived behind goes on follows⟩
          · have negative : call.ret < 0 := by omega
            simp only [negative, if_true, asked, kept]
            exact ⟨_, rfl, follows_stop int arrived behind goes
              (.inr ⟨fine, .inr ⟨by omega, rfl⟩⟩)⟩
      · rw [if_neg before]
        exact ⟨_, rfl, follows_stay int arrived before⟩

end Loops

/-- `npc_readn` does what it should whatever the server answers, and `npc_writen` exactly when the
server is honest. -/
theorem copies_iff_honest (fid msize : UInt32) (heap : ℕ → Malloc) (replies : ℕ → Reply)
    (buf : ℕ → UInt8) (count : UInt32) (offset : UInt64) (int : count.toNat < 2 ^ 31) :
    (∃ call, npcReadn fid msize heap replies buf count offset = some call ∧
      Copies replies buf count offset 0 0 call ∧ Filled replies 0 call) ∧
    ((∃ call, npcWriten fid msize heap replies buf count offset = some call ∧
      Copies replies buf count offset 0 0 call) ↔ Honest msize replies count) := by
  refine ⟨?_, ?_⟩
  · obtain ⟨call, run, copies, filled, -⟩ := @readn_from fid msize heap replies buf count offset int
      (count.toNat + 1) 0 0 (by simp) (by simp)
    exact ⟨call, run, copies, filled⟩
  · by_cases small : min count.toNat (msize - IOHDRSZ).toNat + 23 < 2 ^ 31
    · obtain ⟨call, run, follows⟩ := @writen_from fid msize heap replies buf count offset int small
        (count.toNat + 1) 0 0 (Nat.succ_pos _) (by simp) rfl (by simp)
      have honest : HonestFrom msize replies count 0 ↔ Honest msize replies count := by
        simp only [HonestFrom, Honest, ge_iff_le, Nat.zero_le, true_and, true_implies]
        exact (and_iff_right small).symm
      rw [← honest, ← follows.copies_iff (Nat.zero_le _), npcWriten, run]
      constructor
      · rintro ⟨call', same, copies⟩
        exact Option.some.inj same ▸ copies
      · exact fun copies => ⟨call, rfl, copies⟩
    · refine iff_of_false ?_ fun honest => small honest.1
      rintro ⟨call, run, copies⟩
      have before : (0 : UInt32) < count := by
        rw [UInt32.lt_iff_toNat_lt, UInt32.toNat_zero]
        omega
      rw [npcWriten, ioLoop, if_pos before] at run
      simp only [UInt32.sub_zero, npcWrite_refused int small] at run
      obtain rfl := Option.some.inj run
      obtain ⟨j, none', -⟩ := copies.error_iff.mp rfl
      exact absurd none' (Nat.not_lt_zero j)

/-- A server that refuses everything. -/
theorem copies_iff_honest_error : ∃ call,
    npcWriten 0 8216 (fun _ => ⟨default, fun _ => 0⟩) (fun _ => .error) (fun _ => 0) 1 0 =
      some call ∧ Copies (fun _ => .error) (fun _ => 0) 1 0 0 0 call :=
  (copies_iff_honest 0 8216 (fun _ => ⟨default, fun _ => 0⟩) (fun _ => .error) (fun _ => 0) 1 0
    (by decide)).2.mpr ⟨by decide, .inl ⟨0, ⟨by decide, fun _ before => by cases before⟩, rfl⟩⟩

/-- Two bytes are said to be written of one. -/
theorem not_copies_all : ¬ ∀ (fid msize : UInt32) (heap : ℕ → Malloc) (replies : ℕ → Reply)
    (buf : ℕ → UInt8) (count : UInt32) (offset : UInt64), count.toNat < 2 ^ 31 →
    ∃ call, npcWriten fid msize heap replies buf count offset = some call ∧
      Copies replies buf count offset 0 0 call := by
  intro all
  obtain ⟨call, run, copies⟩ := all 0 8216 (fun _ => ⟨default, fun _ => 0⟩)
    (fun _ => .counted 2 fun _ => 0) (fun _ => 0) 1 0 (by decide)
  obtain ⟨call', run', follows⟩ := @writen_from 0 8216 (fun _ => ⟨default, fun _ => 0⟩)
    (fun _ => .counted 2 fun _ => 0) (fun _ => 0) 1 0 (by decide) (by decide) 2 0 0 (by decide)
    (by decide) rfl (by simp)
  obtain rfl := Option.some.inj (run.symm.trans run')
  rcases (follows.copies_iff (Nat.zero_le _)).mp copies with ⟨j, -, -, failed⟩ | modest
  · cases failed
  · have goes : Goes (fun _ => .counted 2 fun _ => 0) 1 0 :=
      ⟨by decide, fun _ before => by cases before⟩
    exact absurd (modest 0 le_rfl goes) (by decide)

end Npfs.ClientIo
