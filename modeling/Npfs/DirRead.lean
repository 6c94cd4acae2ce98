import Npfs.StatRecord

/-!
# Reading a directory on the client

`npc_dirread` behind its call of `npc_read`: a first pass over the stat records of the reply
measures the block that a second pass fills with the entries and their strings.
-/

namespace Npfs

/-! ## The two passes -/

/-- `sizeof(Npwstat)` with pointers of 64 bits. -/
def sizeofNpwstat : Nat := 104

/-- `npc_wstatlen`. -/
def npcWstatlen (st : Npstat) : Nat :=
  sizeofNpwstat + st.name.len.toNat + st.uid.len.toNat + st.gid.len.toNat + st.muid.len.toNat +
    st.extension.len.toNat + 5

/-- An `Npwstat` that `npc_stat2wstat` has filled in.  A string is its offset in the block. -/
structure Copy where
  size : UInt16
  type : UInt16
  dev : UInt32
  qid : Npqid
  mode : UInt32
  atime : UInt32
  mtime : UInt32
  length : UInt64
  name : Nat
  uid : Nat
  gid : Nat
  muid : Nat
  extension : Nat
  nUid : UInt32
  nGid : UInt32
  nMuid : UInt32

/-- `npc_strcopy`: the block and where its strings end; `none` if it reads through `NULL` or writes
behind the block. -/
def npcStrcopy (buf : List UInt8) (str : Npstr) (block : List UInt8) (p : Nat) :
    Option (List UInt8 × Nat) :=
  let len := str.len.toNat
  if (str.str = none ∧ 0 < len) ∨ block.length < p + len + 1 then
    none
  else
    let text := (buf.drop (str.str.getD 0).toNat).take len
    some (store block p (text ++ [0]), p + len + 1)

/-- `npc_stat2wstat`. -/
def npcStat2wstat (buf : List UInt8) (st : Npstat) (block : List UInt8) (sbuf : Nat) :
    Option (Copy × List UInt8 × Nat) := do
  let name := sbuf
  let (block, sbuf) ← npcStrcopy buf st.name block sbuf
  let uid := sbuf
  let (block, sbuf) ← npcStrcopy buf st.uid block sbuf
  let gid := sbuf
  let (block, sbuf) ← npcStrcopy buf st.gid block sbuf
  let muid := sbuf
  let (block, sbuf) ← npcStrcopy buf st.muid block sbuf
  let extension := sbuf
  let (block, sbuf) ← npcStrcopy buf st.extension block sbuf
  return ({
    size := st.size, type := st.type, dev := st.dev, qid := st.qid, mode := st.mode,
    atime := st.atime, mtime := st.mtime, length := st.length,
    name, uid, gid, muid, extension, nUid := st.nUid, nGid := st.nGid, nMuid := st.nMuid },
    block, sbuf)

section Passes

variable (dotu : Bool) (buf : List UInt8) (n : Nat)

/-- The first loop, of at most `fuel` rounds: the number of the records and `slen`. `stat` is reused
for each record. -/
def dirSizes : (fuel : Nat) → (i count slen : Nat) → Npstat → Option (Nat × Nat × Npstat)
  | 0, _, _, _, _ => none
  | fuel + 1, i, count, slen, stat =>
    if i < n then
      match npDeserializeStat stat buf i dotu with
      | none => none
      | some (stat, statsz) =>
        dirSizes fuel (i + statsz) (count + 1) (slen + npcWstatlen stat) stat
    else
      some (count, slen, stat)

/-- The state of the second loop. -/
structure Filling where
  block : List UInt8
  /-- Where the next string goes. -/
  sbuf : Nat
  /-- The array at the start of the block. -/
  statp : List Copy

/-- The second loop; `none` if it leaves the block or its array. -/
def dirCopies (count : Nat) : (fuel : Nat) → (i : Nat) → Npstat → Filling → Option (Nat × Filling)
  | 0, _, _, _ => none
  | fuel + 1, i, stat, filling =>
    if i < n then
      match npDeserializeStat stat buf i dotu with
      | none => some (i, filling)
      | some (stat, statsz) =>
        let m := filling.statp.length
        if m < count ∧ (m + 1) * sizeofNpwstat ≤ filling.block.length then
          match npcStat2wstat buf stat filling.block filling.sbuf with
          | none => none
          | some (copy, block, sbuf) =>
            dirCopies count fuel (i + statsz) stat ⟨block, sbuf, filling.statp ++ [copy]⟩
        else
          none
    else
      some (i, filling)

end Passes

/-- `malloc(slen)`: an `int` that has become negative is far too large.  `memory` is what the block
holds before, if there is one. -/
def mallocBlock (memory : Option (Nat → UInt8)) (slen : Nat) : Option (List UInt8) :=
  let size := slen % 2 ^ 32
  if size < 2 ^ 31 then memory.map fun byte => (List.range size).map byte else none

/-- How `npc_dirread` ends. -/
inductive DirRead where
  /-- It returns an error. -/
  | failed
  /-- It uses memory that it does not have. -/
  | wild
  /-- It returns `count` entries.  The records ended at `upto`. -/
  | read (count : Nat) (filling : Filling) (upto : Nat)

/-- `npc_dirread` when `npc_read` has read `reply` into a buffer that goes on with `stale`.  `stack`
is what `stat` holds at the start.  Without memory for the block the function goes on as with it,
and releases `buf` twice. -/
def npcDirread (dotu : Bool) (reply stale : List UInt8) (stack : Npstat)
    (memory : Option (Nat → UInt8)) : DirRead :=
  let buf := reply ++ stale
  let n := reply.length
  match dirSizes dotu buf n (n + 1) 0 0 0 stack with
  | none => .failed
  | some (count, slen, stat) =>
    match mallocBlock memory slen with
    | none => .wild
    | some block =>
      match dirCopies dotu buf n count (n + 1) 0 stat ⟨block, count * sizeofNpwstat, []⟩ with
      | none => .wild
      | some (upto, filling) => .read count filling upto

/-! ## Copying strings into the block -/

/-- A string of the block, with its terminator. -/
def CStrAt (block : List UInt8) (p : Nat) (text : List UInt8) : Prop :=
  (block.drop p).take (text.length + 1) = text ++ [0]

/-- The entry is the record that the server sent. -/
structure Copy.Of (block : List UInt8) (dotu : Bool) (copy : Copy) (wstat : Npwstat) : Prop where
  size : copy.size.toNat = sizeWstat wstat dotu
  type : copy.type = wstat.type
  dev : copy.dev = wstat.dev
  qid : copy.qid = wstat.qid
  mode : copy.mode = wstat.mode
  atime : copy.atime = wstat.atime
  mtime : copy.mtime = wstat.mtime
  length : copy.length = wstat.length
  name : CStrAt block copy.name (CStr.bytes? wstat.name)
  uid : CStrAt block copy.uid (CStr.bytes? wstat.uid)
  gid : CStrAt block copy.gid (CStr.bytes? wstat.gid)
  muid : CStrAt block copy.muid (CStr.bytes? wstat.muid)
  extension : CStrAt block copy.extension (if dotu then CStr.bytes? wstat.extension else [])
  nUid : dotu = true → copy.nUid = wstat.nUid
  nGid : dotu = true → copy.nGid = wstat.nGid
  nMuid : dotu = true → copy.nMuid = wstat.nMuid

/-- The string of a record, which may be one that was not read. -/
structure TextAt (buf : List UInt8) (str : Npstr) (text : List UInt8) : Prop where
  length : str.len.toNat = text.length
  null : str.str = none → text = []
  bytes : (buf.drop (str.str.getD 0).toNat).take text.length = text

theorem StrAt.textAt {buf : List UInt8} {str : Npstr} {text : List UInt8}
    (strAt : StrAt buf str text) : TextAt buf str text := by
  obtain ⟨length, start, ptr, -, bytes⟩ := strAt
  exact ⟨length, by simp [ptr], by simpa [ptr] using bytes⟩

theorem textAt_zero (buf : List UInt8) : TextAt buf npStrzero [] := ⟨rfl, fun _ => rfl, rfl⟩

/-- The block is filled further, from `p` to `q`. -/
structure Grows (p : Nat) (block : List UInt8) (q : Nat) (block' : List UInt8) : Prop where
  length : block'.length = block.length
  front : block.take p <+: block'.take q

section Strings

variable {buf block block' : List UInt8} {str : Npstr} {text : List UInt8} {p q : Nat}

theorem Grows.trans {r : Nat} {block'' : List UInt8} (first : Grows p block q block')
    (second : Grows q block' r block'') : Grows p block r block'' :=
  ⟨second.length.trans first.length, first.front.trans second.front⟩

/-- What is in place stays while the block is filled further. -/
theorem CStrAt.mono {place : Nat} (front : block <+: block') (at' : CStrAt block place text) :
    CStrAt block' place text := by
  obtain ⟨rest, rfl⟩ := front
  have length := congrArg List.length at'
  simp only [List.length_take, List.length_drop, List.length_append, List.length_singleton]
    at length
  rw [CStrAt, List.drop_append_of_le_length (by omega), List.take_append_of_le_length]
  · exact at'
  · rw [List.length_drop]
    omega

theorem store_grows (room : p + text.length + 1 ≤ block.length) :
    Grows p block (p + text.length + 1) (store block p (text ++ [0])) ∧
      CStrAt ((store block p (text ++ [0])).take (p + text.length + 1)) p text := by
  have place : (block.take p).length = p := by
    rw [List.length_take]
    omega
  have taken : (store block p (text ++ [0])).take (p + text.length + 1) =
      block.take p ++ (text ++ [0]) := by
    rw [store, List.take_append_of_le_length, List.take_of_length_le]
    all_goals simp only [List.length_append, place, List.length_singleton]; omega
  rw [taken]
  refine ⟨⟨?_, ?_⟩, ?_⟩
  · simp only [store, List.length_append, List.length_take, List.length_drop, List.length_singleton]
    omega
  · rw [taken]
    exact List.prefix_append _ _
  · rw [CStrAt, List.drop_append_of_le_length place.ge, List.drop_of_length_le place.le,
      List.nil_append, List.take_of_length_le (by simp)]

/-- A string that fits is copied behind what is in place. -/
theorem npcStrcopy_text (block : List UInt8) (p : Nat) (at' : TextAt buf str text)
    (room : p + text.length + 1 ≤ block.length) :
    ∃ block' q, npcStrcopy buf str block p = some (block', q) ∧ q = p + text.length + 1 ∧
      Grows p block q block' ∧ CStrAt (block'.take q) p text := by
  obtain ⟨length, null, bytes⟩ := at'
  have found : ¬ ((str.str = none ∧ 0 < str.len.toNat) ∨
      block.length < p + str.len.toNat + 1) := by
    rintro (⟨none, some⟩ | outside)
    · rw [length, null none] at some
      exact lt_irrefl _ some
    · omega
  refine ⟨_, _, ?_, rfl, store_grows room⟩
  simp only [npcStrcopy]
  rw [if_neg found, length, bytes]

/-- Whatever is copied ends inside the block. -/
theorem npcStrcopy_some (copied : npcStrcopy buf str block p = some (block', q)) :
    q = p + str.len.toNat + 1 ∧ q ≤ block.length ∧ block'.length ≤ block.length := by
  simp only [npcStrcopy] at copied
  split_ifs at copied with outside
  obtain ⟨rfl, rfl⟩ := Prod.mk.inj (Option.some.inj copied)
  have inside := not_lt.mp (not_or.mp outside).2
  refine ⟨rfl, inside, ?_⟩
  simp only [store, List.length_append, List.length_take, List.length_drop, List.length_singleton]
  omega

end Strings

/-! ## Copying records -/

section Records

variable {dotu : Bool} {buf block block' : List UInt8} {st : Npstat} {wstat : Npwstat} {sbuf : Nat}

theorem Copy.Of.mono {copy : Copy} (front : block <+: block') (of : copy.Of block dotu wstat) :
    copy.Of block' dotu wstat where
  __ := of
  name := of.name.mono front
  uid := of.uid.mono front
  gid := of.gid.mono front
  muid := of.muid.mono front
  extension := of.extension.mono front

theorem npcStat2wstat_of (at' : (RawStat.ofWstat wstat dotu).At buf dotu st)
    (fits : sizeWstat wstat dotu < 2 ^ 16)
    (room : sbuf + npcWstatlen st ≤ block.length + sizeofNpwstat) :
    ∃ copy block' sbuf', npcStat2wstat buf st block sbuf = some (copy, block', sbuf') ∧
      sbuf' + sizeofNpwstat = sbuf + npcWstatlen st ∧ Grows sbuf block sbuf' block' ∧
        copy.Of (block'.take sbuf') dotu wstat := by
  obtain ⟨size, type, dev, qid, mode, atime, mtime, length, name, uid, gid, muid, plain, extension,
    nUid, nGid, nMuid⟩ := at'
  have last : TextAt buf st.extension (if dotu then CStr.bytes? wstat.extension else []) := by
    cases dotu with
    | false => exact plain rfl ▸ textAt_zero buf
    | true => exact (extension rfl).textAt
  have name := name.textAt
  have uid := uid.textAt
  have gid := gid.textAt
  have muid := muid.textAt
  simp only [npcWstatlen, name.length, uid.length, gid.length, muid.length, last.length] at room ⊢
  obtain ⟨block₁, q₁, copy₁, next₁, grows₁, at₁⟩ := npcStrcopy_text block sbuf name (by omega)
  have length₁ := grows₁.length
  obtain ⟨block₂, q₂, copy₂, next₂, grows₂, at₂⟩ := npcStrcopy_text block₁ q₁ uid (by omega)
  have length₂ := grows₂.length
  obtain ⟨block₃, q₃, copy₃, next₃, grows₃, at₃⟩ := npcStrcopy_text block₂ q₂ gid (by omega)
  have length₃ := grows₃.length
  obtain ⟨block₄, q₄, copy₄, next₄, grows₄, at₄⟩ := npcStrcopy_text block₃ q₃ muid (by omega)
  have length₄ := grows₄.length
  obtain ⟨block₅, q₅, copy₅, next₅, grows₅, at₅⟩ := npcStrcopy_text block₄ q₄ last (by omega)
  let copy : Copy := {
    size := st.size, type := st.type, dev := st.dev, qid := st.qid, mode := st.mode,
    atime := st.atime, mtime := st.mtime, length := st.length, name := sbuf, uid := q₁, gid := q₂,
    muid := q₃, extension := q₄, nUid := st.nUid, nGid := st.nGid, nMuid := st.nMuid }
  have behind₄ := grows₄.trans grows₅
  have behind₃ := grows₃.trans behind₄
  have behind₂ := grows₂.trans behind₃
  refine ⟨copy, block₅, q₅, ?_, ?_, grows₁.trans behind₂, ?_⟩
  · simp only [npcStat2wstat, copy₁, copy₂, copy₃, copy₄, copy₅, Option.bind_eq_bind,
      Option.bind_some]
    rfl
  · omega
  · exact {
      size := (congrArg UInt16.toNat size).trans (UInt16.toNat_ofNat_of_lt' fits)
      type, dev, qid, mode, atime, mtime, length
      name := at₁.mono behind₂.front
      uid := at₂.mono behind₃.front
      gid := at₃.mono behind₄.front
      muid := at₄.mono grows₅.front
      extension := at₅
      nUid, nGid, nMuid }

/-- Whatever is copied ends inside the block. -/
theorem npcStat2wstat_some {copy : Copy} {q : Nat}
    (copied : npcStat2wstat buf st block sbuf = some (copy, block', q)) :
    q + sizeofNpwstat = sbuf + npcWstatlen st ∧ q ≤ block.length ∧
      block'.length ≤ block.length := by
  simp only [npcStat2wstat, Option.bind_eq_bind, Option.bind_eq_some_iff, Prod.exists] at copied
  obtain ⟨block₁, q₁, copy₁, block₂, q₂, copy₂, block₃, q₃, copy₃, block₄, q₄, copy₄, block₅, q₅,
    copy₅, done⟩ := copied
  obtain ⟨next₁, -, length₁⟩ := npcStrcopy_some copy₁
  obtain ⟨next₂, -, length₂⟩ := npcStrcopy_some copy₂
  obtain ⟨next₃, -, length₃⟩ := npcStrcopy_some copy₃
  obtain ⟨next₄, -, length₄⟩ := npcStrcopy_some copy₄
  obtain ⟨next₅, inside, length₅⟩ := npcStrcopy_some copy₅
  simp only [Option.pure_def, Option.some.injEq, Prod.mk.injEq] at done
  obtain ⟨-, rfl, rfl⟩ := done
  refine ⟨?_, by omega, by omega⟩
  simp only [npcWstatlen]
  omega

end Records

/-! ## The records that are accepted -/

section Chain

variable {dotu : Bool} {buf : List UInt8} {n : Nat}

variable (dotu buf n) in
/-- The records that `np_deserialize_stat` accepts from `i` on, each with its start and its size, up
to one that ends at `n` or behind it. -/
inductive Records : (i : Nat) → Npstat → List (Nat × Npstat × Nat) → (upto : Nat) → Npstat → Prop
  | stop {i : Nat} {stat : Npstat} (done : n ≤ i) : Records i stat [] i stat
  | record {i size upto : Nat} {stat next last : Npstat} {records : List (Nat × Npstat × Nat)}
      (more : i < n) (accepted : npDeserializeStat stat buf i dotu = some (next, size))
      (rest : Records (i + size) next records upto last) :
      Records i stat ((i, next, size) :: records) upto last

/-- The size of the block. -/
def blockSize (records : List (Nat × Npstat × Nat)) : Nat :=
  (records.map fun record => npcWstatlen record.2.1).sum

theorem blockSize_ge (records : List (Nat × Npstat × Nat)) :
    records.length * sizeofNpwstat ≤ blockSize records := by
  induction records with
  | nil => exact (Nat.zero_mul _).le
  | cons record records ih =>
    simp only [blockSize, List.map_cons, List.sum_cons, List.length_cons] at ih ⊢
    simp only [sizeofNpwstat, npcWstatlen] at ih ⊢
    omega

theorem Records.unique {i upto upto' : Nat} {stat last last' : Npstat}
    {records records' : List (Nat × Npstat × Nat)}
    (first : Records dotu buf n i stat records upto last)
    (second : Records dotu buf n i stat records' upto' last') :
    records = records' ∧ upto = upto' ∧ last = last' := by
  induction first generalizing records' with
  | stop done =>
    cases second with
    | stop => exact ⟨rfl, rfl, rfl⟩
    | record more => omega
  | record more accepted rest ih =>
    cases second with
    | stop => omega
    | record more' accepted' rest' =>
      obtain ⟨rfl, rfl⟩ := Prod.mk.inj (Option.some.inj (accepted.symm.trans accepted'))
      obtain ⟨rfl, rfl, rfl⟩ := ih rest'
      exact ⟨rfl, rfl, rfl⟩

/-- The fields that a parser of 9P2000 leaves as they were. -/
def renew (dotu : Bool) (old stat : Npstat) : Npstat :=
  if dotu then stat else { stat with nUid := old.nUid, nGid := old.nGid, nMuid := old.nMuid }

theorem npcWstatlen_renew (old stat : Npstat) : npcWstatlen (renew dotu old stat) =
    npcWstatlen stat := by
  cases dotu <;> rfl

theorem npDeserializeStat_renew (old old' : Npstat) (i : Nat) :
    npDeserializeStat old' buf i dotu =
      (npDeserializeStat old buf i dotu).map fun result =>
        (renew dotu old' result.1, result.2) := by
  have parser : bufGetStat old' dotu =
      bufGetStat old dotu >>= fun stat => .done (renew dotu old' stat) := by
    cases dotu <;> rfl
  simp only [npDeserializeStat, parser, Program.run_bind, Program.run_done]
  split_ifs <;> rfl

/-- What is accepted, and where it ends, does not depend on what was there before. -/
theorem Records.restart {i upto : Nat} {stat last : Npstat} {records : List (Nat × Npstat × Nat)}
    (run : Records dotu buf n i stat records upto last) (stat' : Npstat) :
    ∃ records' last', Records dotu buf n i stat' records' upto last' := by
  induction run generalizing stat' with
  | stop done => exact ⟨[], stat', .stop done⟩
  | @record i size upto stat next last records more accepted rest ih =>
    obtain ⟨records', last', run⟩ := ih (renew dotu stat' next)
    refine ⟨_, last', .record more ?_ run⟩
    rw [npDeserializeStat_renew stat, accepted]
    rfl

theorem Records.blockSize_restart {i upto upto' : Nat} {stat stat' last last' : Npstat}
    {records records' : List (Nat × Npstat × Nat)}
    (run : Records dotu buf n i stat records upto last)
    (again : Records dotu buf n i stat' records' upto' last') :
    records'.length = records.length ∧ blockSize records' = blockSize records := by
  induction run generalizing stat' records' with
  | stop done =>
    cases again with
    | stop => exact ⟨rfl, rfl⟩
    | record more => omega
  | @record i size upto stat next last records more accepted rest ih =>
    cases again with
    | stop => omega
    | record more' accepted' rest' =>
      rw [npDeserializeStat_renew stat, accepted] at accepted'
      obtain ⟨rfl, rfl⟩ := Prod.mk.inj (Option.some.inj accepted')
      obtain ⟨same, size⟩ := ih rest'
      refine ⟨congrArg (· + 1) same, ?_⟩
      simp only [blockSize, List.map_cons, List.sum_cons, npcWstatlen_renew] at size ⊢
      rw [size]

/-- The first loop passes over the records that are accepted. -/
theorem dirSizes_iff (inside : n ≤ buf.length) {fuel i count slen : Nat} {stat : Npstat}
    (enough : n < i + fuel) (positive : 0 < fuel) {total size : Nat} {last : Npstat} :
    dirSizes dotu buf n fuel i count slen stat = some (total, size, last) ↔
      ∃ records upto, Records dotu buf n i stat records upto last ∧
        total = count + records.length ∧ size = slen + blockSize records := by
  induction fuel generalizing i count slen stat with
  | zero => exact absurd positive (lt_irrefl 0)
  | succ fuel ih =>
    rw [dirSizes]
    by_cases more : i < n
    · rw [if_pos more]
      cases accepted : npDeserializeStat stat buf i dotu with
      | none =>
        constructor
        · nofun
        · rintro ⟨records, upto, run, -⟩
          cases run with
          | stop done => omega
          | record _ accepted' => exact nomatch accepted.symm.trans accepted'
      | some result =>
        obtain ⟨next, statsz⟩ := result
        obtain ⟨forward, -, -⟩ := npDeserializeStat_some (by omega) accepted
        rw [ih (by omega) (by omega)]
        constructor
        · rintro ⟨records, upto, rest, rfl, rfl⟩
          refine ⟨_, upto, .record more accepted rest, ?_, ?_⟩
          · rw [List.length_cons]
            omega
          · simp only [blockSize, List.map_cons, List.sum_cons]
            omega
        · rintro ⟨records, upto, run, rfl, rfl⟩
          cases run with
          | stop done => omega
          | record _ accepted' rest =>
            obtain ⟨rfl, rfl⟩ := Prod.mk.inj (Option.some.inj (accepted.symm.trans accepted'))
            refine ⟨_, upto, rest, ?_, ?_⟩
            · rw [List.length_cons]
              omega
            · simp only [blockSize, List.map_cons, List.sum_cons]
              omega
    · rw [if_neg more]
      constructor
      · intro same
        simp only [Option.some.injEq, Prod.mk.injEq] at same
        obtain ⟨rfl, rfl, rfl⟩ := same
        exact ⟨[], i, .stop (not_lt.mp more), rfl, rfl⟩
      · rintro ⟨records, upto, run, rfl, rfl⟩
        cases run with
        | stop => rfl
        | record more' => exact absurd more' more

/-- The second loop copies the records that were sent. -/
theorem dirCopies_of (inside : n ≤ buf.length) {count fuel i upto : Nat} {stat last : Npstat}
    {records : List (Nat × Npstat × Nat)} {wstats : List Npwstat} {filling : Filling}
    (run : Records dotu buf n i stat records upto last) (enough : n < i + fuel)
    (positive : 0 < fuel)
    (sent : List.Forall₂ (fun record wstat =>
      (RawStat.ofWstat wstat dotu).At buf dotu record.2.1) records wstats)
    (fits : ∀ wstat ∈ wstats, sizeWstat wstat dotu < 2 ^ 16)
    (array : filling.statp.length + records.length ≤ count)
    (whole : count * sizeofNpwstat ≤ filling.block.length)
    (room : filling.sbuf + blockSize records =
      filling.block.length + records.length * sizeofNpwstat)
    {before : List Npwstat} (copied : List.Forall₂ (Copy.Of (filling.block.take filling.sbuf) dotu)
      filling.statp before) :
    ∃ filling', dirCopies dotu buf n count fuel i stat filling = some (upto, filling') ∧
      filling'.sbuf = filling'.block.length ∧
        List.Forall₂ (Copy.Of filling'.block dotu) filling'.statp (before ++ wstats) := by
  induction run generalizing fuel wstats filling before with
  | stop done =>
    obtain rfl := List.forall₂_nil_left_iff.mp sent
    obtain ⟨fuel, rfl⟩ := Nat.exists_eq_succ_of_ne_zero positive.ne'
    have full : filling.sbuf = filling.block.length := by
      simpa [blockSize] using room
    rw [full, List.take_length] at copied
    refine ⟨filling, ?_, full, by rwa [List.append_nil]⟩
    rw [dirCopies, if_neg (not_lt.mpr done)]
  | @record i size upto stat next last records more accepted rest ih =>
    obtain ⟨wstat, wstats, at', behind, rfl⟩ := List.forall₂_cons_left_iff.mp sent
    obtain ⟨fuel, rfl⟩ := Nat.exists_eq_succ_of_ne_zero positive.ne'
    have least := blockSize_ge records
    have total : blockSize ((i, next, size) :: records) =
        npcWstatlen next + blockSize records := rfl
    rw [total] at room
    rw [List.length_cons] at array room
    obtain ⟨forward, -, -⟩ := npDeserializeStat_some (by omega) accepted
    simp only [sizeofNpwstat] at least whole room
    obtain ⟨copy, block, sbuf, done, next', grows, of⟩ := @npcStat2wstat_of dotu buf filling.block
      next wstat filling.sbuf at' (fits wstat List.mem_cons_self) (by rw [sizeofNpwstat]; omega)
    have length := grows.length
    rw [sizeofNpwstat] at next'
    have slot : filling.statp.length < count ∧
        (filling.statp.length + 1) * sizeofNpwstat ≤ filling.block.length := by
      rw [sizeofNpwstat]
      omega
    obtain ⟨last', copies, full, entries⟩ := @ih fuel wstats ⟨block, sbuf, filling.statp ++ [copy]⟩
      (by omega) (by omega) behind (fun wstat member => fits wstat (List.mem_cons_of_mem _ member))
      (by simp only [List.length_append, List.length_singleton]; omega)
      (by simp only [sizeofNpwstat]; omega) (by simp only [sizeofNpwstat]; omega)
      (before ++ [wstat])
      (List.rel_append (copied.imp fun _ _ of => of.mono grows.front) (.cons of .nil))
    refine ⟨last', ?_, full, by rwa [List.append_assoc] at entries⟩
    simp only [dirCopies, if_pos more, accepted, if_pos slot, done]
    exact copies

/-- The second loop stays in the block, or is stopped. -/
theorem dirCopies_some {count fuel i upto upto' : Nat} {stat last : Npstat}
    (inside : n ≤ buf.length) {records : List (Nat × Npstat × Nat)} {filling filling' : Filling}
    (run : Records dotu buf n i stat records upto last) (enough : n < i + fuel)
    (positive : 0 < fuel)
    (done : dirCopies dotu buf n count fuel i stat filling = some (upto', filling')) :
    upto' = upto ∧ (records ≠ [] → filling.sbuf + blockSize records ≤
      filling.block.length + records.length * sizeofNpwstat) := by
  induction run generalizing fuel filling with
  | stop stopped =>
    obtain ⟨fuel, rfl⟩ := Nat.exists_eq_succ_of_ne_zero positive.ne'
    rw [dirCopies, if_neg (not_lt.mpr stopped)] at done
    exact ⟨(Prod.mk.inj (Option.some.inj done)).1.symm, nofun⟩
  | @record i size upto stat next last records more accepted rest ih =>
    obtain ⟨fuel, rfl⟩ := Nat.exists_eq_succ_of_ne_zero positive.ne'
    obtain ⟨forward, -, -⟩ := npDeserializeStat_some (by omega) accepted
    have total : blockSize ((i, next, size) :: records) =
        npcWstatlen next + blockSize records := rfl
    simp only [dirCopies, if_pos more, accepted] at done
    split_ifs at done with slot
    split at done
    · cases done
    · rename_i copy block sbuf copied
      obtain ⟨next', within, shorter⟩ := npcStat2wstat_some copied
      obtain ⟨same, bound⟩ := ih (by omega) (by omega) done
      refine ⟨same, fun _ => ?_⟩
      simp only [sizeofNpwstat] at next' bound ⊢
      rw [total, List.length_cons]
      cases records with
      | nil =>
        simp only [blockSize, List.map_nil, List.sum_nil, List.length_nil]
        omega
      | cons record records =>
        have rest := bound (List.cons_ne_nil _ _)
        omega

end Chain

/-! ## What it is for -/

/-- The server has written the records of `wstats`, and nothing else. -/
def Sent (dotu : Bool) (wstats : List Npwstat) (reply : List UInt8) : Prop :=
  (∀ wstat ∈ wstats, sizeWstat wstat dotu < 2 ^ 16) ∧
    ∃ buf, serializeStats dotu wstats buf = some reply

/-- The records that were sent come back, and nothing else does. -/
structure DirStream (dotu : Bool) (reply stale : List UInt8) (stack : Npstat)
    (memory : Option (Nat → UInt8)) : Prop where
  back : ∀ wstats, Sent dotu wstats reply → ∃ filling,
    npcDirread dotu reply stale stack memory = .read wstats.length filling reply.length ∧
      filling.sbuf = filling.block.length ∧
        List.Forall₂ (Copy.Of filling.block dotu) filling.statp wstats
  refused : (¬ ∃ wstats, Sent dotu wstats reply) →
    npcDirread dotu reply stale stack memory = .failed

/-! ## When it does that -/

/-- The strings have no byte that is taken for their end. -/
structure RawStat.NoNul (raw : RawStat) (dotu : Bool) : Prop where
  name : 0 ∉ raw.name
  uid : 0 ∉ raw.uid
  gid : 0 ∉ raw.gid
  muid : 0 ∉ raw.muid
  extension : dotu = true → 0 ∉ raw.extension

/-- The record lies in the first `n` bytes, with all its fields, and its size is right. -/
def WholeRecord (dotu : Bool) (buf : List UInt8) (n : Nat) (record : Nat × Npstat × Nat) : Prop :=
  ∃ (raw : RawStat) (rest : List UInt8), buf.drop record.1 = raw.wire dotu rest ∧ raw.Short dotu ∧
    record.1 + (raw.wire dotu []).length ≤ n ∧
      raw.size.toNat + 2 = (raw.wire dotu []).length ∧ raw.NoNul dotu

/-- `np_serialize_stat` has left out the count of an empty last string. -/
def CutReply (dotu : Bool) (reply : List UInt8) : Prop :=
  ∃ wstats, (∀ wstat ∈ wstats, sizeWstat wstat dotu < 2 ^ 16) ∧ CutList wstats dotu reply

/-- Unless `np_deserialize_stat` refuses one of the records. -/
structure DirFits (dotu : Bool) (reply stale : List UInt8) (stack : Npstat)
    (memory : Option (Nat → UInt8)) : Prop where
  /-- A record that was cut short ends the buffer. -/
  cut : CutReply dotu reply → stale = []
  whole : ¬ CutReply dotu reply → ∀ records upto last,
    Records dotu (reply ++ stale) reply.length 0 stack records upto last →
      ∀ record ∈ records, WholeRecord dotu (reply ++ stale) reply.length record
  /-- There is memory for the block, and an `int` for its size. -/
  block : ∀ records upto last,
    Records dotu (reply ++ stale) reply.length 0 stack records upto last →
      memory.isSome ∧ blockSize records < 2 ^ 31

section Proof

variable {dotu : Bool} {buf : List UInt8} {n : Nat}

theorem noNul_ofWstat (wstat : Npwstat) : (RawStat.ofWstat wstat dotu).NoNul dotu := by
  have clean (s : Option CStr) : 0 ∉ CStr.bytes? s := by
    cases s with
    | none => exact List.not_mem_nil
    | some s => exact s.noNul
  exact ⟨clean _, clean _, clean _, clean _, fun _ => clean _⟩

theorem short_ofWstat {wstat : Npwstat} (fits : sizeWstat wstat dotu < 2 ^ 16) :
    (RawStat.ofWstat wstat dotu).Short dotu := by
  simp only [sizeWstat, strlen?] at fits
  refine ⟨?_, ?_, ?_, ?_, fun extended => ?_⟩
  · change (CStr.bytes? wstat.name).length < _
    omega
  · change (CStr.bytes? wstat.uid).length < _
    omega
  · change (CStr.bytes? wstat.gid).length < _
    omega
  · change (CStr.bytes? wstat.muid).length < _
    omega
  · rw [if_pos extended] at fits
    change (CStr.bytes? wstat.extension).length < _
    omega

/-- The records of `wstats` are accepted where their bytes are. -/
theorem records_wires {wstats : List Npwstat}
    (fits : ∀ wstat ∈ wstats, sizeWstat wstat dotu < 2 ^ 16) {i : Nat} {rest : List UInt8}
    (bytes : buf.drop i = wires dotu wstats ++ rest) (inside : i ≤ buf.length)
    (within : i + (wires dotu wstats).length ≤ n) (stat : Npstat) :
    ∃ records next, List.Forall₂ (fun record wstat =>
        (RawStat.ofWstat wstat dotu).At buf dotu record.2.1) records wstats ∧
      (∀ record ∈ records, WholeRecord dotu buf n record) ∧
      ∀ {all upto last}, Records dotu buf n i stat all upto last ↔ ∃ more, all = records ++ more ∧
        Records dotu buf n (i + (wires dotu wstats).length) next more upto last := by
  induction wstats generalizing i stat with
  | nil => exact ⟨[], stat, .nil, by simp, by simp [wires]⟩
  | cons wstat wstats ih =>
    have fit := fits wstat List.mem_cons_self
    rw [wires_cons, List.append_assoc] at bytes
    rw [wires_cons, List.length_append] at within
    have first : buf.drop i = (RawStat.ofWstat wstat dotu).wire dotu
      (wires dotu wstats ++ rest) := by
      rw [RawStat.wire_append]
      exact bytes
    have positive := @wire_length wstat dotu
    obtain ⟨next, accepted, at'⟩ :=
      @npDeserializeStat_raw buf i dotu stat _ _ inside first (short_ofWstat fit)
    have behind : buf.drop (i + ((RawStat.ofWstat wstat dotu).wire dotu []).length) =
        wires dotu wstats ++ rest := by
      rw [← List.drop_drop, bytes, List.drop_left]
    have inside' : i + ((RawStat.ofWstat wstat dotu).wire dotu []).length ≤ buf.length := by
      have length := congrArg List.length bytes
      rw [List.length_drop, List.length_append] at length
      omega
    obtain ⟨records, last, sent, whole, run⟩ := ih
      (fun wstat member => fits wstat (List.mem_cons_of_mem _ member)) behind inside'
      (by omega) next
    have counted : (UInt16.ofNat (sizeWstat wstat dotu)).toNat = sizeWstat wstat dotu :=
      UInt16.toNat_ofNat_of_lt' fit
    refine ⟨(i, next, ((RawStat.ofWstat wstat dotu).wire dotu []).length) :: records, last,
      .cons at' sent, ?_, ?_⟩
    · refine List.forall_mem_cons.mpr ⟨⟨_, _, first, short_ofWstat fit, by omega, ?_,
        noNul_ofWstat wstat⟩, whole⟩
      change (UInt16.ofNat (sizeWstat wstat dotu)).toNat + 2 = _
      omega
    · intro all upto last
      rw [wires_cons, List.length_append, ← Nat.add_assoc]
      constructor
      · intro whole
        cases whole with
        | stop done => omega
        | record more accepted' behind =>
          obtain ⟨rfl, rfl⟩ := Prod.mk.inj (Option.some.inj (accepted.symm.trans accepted'))
          obtain ⟨more, rfl, rest⟩ := run.mp behind
          exact ⟨more, rfl, rest⟩
      · rintro ⟨more, rfl, rest⟩
        exact .record (by omega) accepted (run.mpr ⟨more, rfl, rest⟩)

/-- A record with the right size is written for some `Npwstat`. -/
theorem exists_wstat {raw : RawStat} (counted : raw.size.toNat + 2 = (raw.wire dotu []).length)
    (clean : raw.NoNul dotu) : ∃ wstat : Npwstat, sizeWstat wstat dotu < 2 ^ 16 ∧
      (RawStat.ofWstat wstat dotu).wire dotu [] = raw.wire dotu [] := by
  let wstat : Npwstat := {
    type := raw.type, dev := raw.dev, qid := raw.qid, mode := raw.mode, atime := raw.atime,
    mtime := raw.mtime, length := raw.length
    name := some ⟨raw.name, clean.name⟩
    uid := some ⟨raw.uid, clean.uid⟩
    gid := some ⟨raw.gid, clean.gid⟩
    muid := some ⟨raw.muid, clean.muid⟩
    extension := if extended : dotu = true then some ⟨raw.extension, clean.extension extended⟩
      else none
    nUid := raw.nUid, nGid := raw.nGid, nMuid := raw.nMuid }
  have same : (RawStat.ofWstat wstat dotu).wire dotu [] =
      RawStat.wire { raw with size := .ofNat (sizeWstat wstat dotu) } dotu [] := by
    cases dotu <;> rfl
  have length : (RawStat.wire { raw with size := .ofNat (sizeWstat wstat dotu) } dotu []).length =
      (raw.wire dotu []).length := by
    cases dotu <;> simp [RawStat.wire, RawStat.front, RawStat.extra]
  have size : sizeWstat wstat dotu = raw.size.toNat := by
    have whole := @wire_length wstat dotu
    rw [same, length, ← counted] at whole
    omega
  refine ⟨wstat, size ▸ raw.size.toNat_lt, ?_⟩
  rw [same, size, UInt16.ofNat_toNat]

/-- Whole records up to `n` are what is sent for some list. -/
theorem exists_wires {i upto : Nat} {stat last : Npstat} {records : List (Nat × Npstat × Nat)}
    (run : Records dotu buf n i stat records upto last) (inside : n ≤ buf.length) (before : i ≤ n)
    (whole : ∀ record ∈ records, WholeRecord dotu buf n record) :
    ∃ wstats : List Npwstat, (∀ wstat ∈ wstats, sizeWstat wstat dotu < 2 ^ 16) ∧
      (buf.drop i).take (n - i) = wires dotu wstats := by
  induction run with
  | stop done =>
    refine ⟨[], by simp, ?_⟩
    rw [Nat.sub_eq_zero_of_le done]
    rfl
  | @record i size upto stat next last records more accepted rest ih =>
    obtain ⟨raw, tail, bytes, short, within, counted, clean⟩ := whole _ List.mem_cons_self
    obtain ⟨wstat, fit, same⟩ := exists_wstat counted clean
    obtain ⟨stat', accepted', -⟩ :=
      @npDeserializeStat_raw buf i dotu stat raw tail (by omega) bytes short
    obtain ⟨rfl, rfl⟩ := Prod.mk.inj (Option.some.inj (accepted.symm.trans accepted'))
    simp only at within bytes
    obtain ⟨wstats, fits, behind⟩ := ih within fun record member =>
      whole record (List.mem_cons_of_mem _ member)
    refine ⟨wstat :: wstats, List.forall_mem_cons.mpr ⟨fit, fits⟩, ?_⟩
    rw [RawStat.wire_append] at bytes
    have rest : buf.drop (i + (raw.wire dotu []).length) = tail := by
      rw [← List.drop_drop, bytes, List.drop_left]
    rw [rest] at behind
    rw [wires_cons, same, bytes, show n - i = (raw.wire dotu []).length +
      (n - (i + (raw.wire dotu []).length)) by omega, List.take_length_add_append, behind]

/-- Everything that was sent comes back from any start, if nothing was cut short in front of other
bytes. -/
theorem exists_records {reply stale : List UInt8} {wstats : List Npwstat}
    (fits : ∀ wstat ∈ wstats, sizeWstat wstat dotu < 2 ^ 16)
    (sent : reply = wires dotu wstats ∨ CutList wstats dotu reply ∧ stale = [])
    (stat : Npstat) : ∃ records last,
      Records dotu (reply ++ stale) reply.length 0 stat records reply.length last ∧
        List.Forall₂ (fun record wstat =>
          (RawStat.ofWstat wstat dotu).At (reply ++ stale) dotu record.2.1) records wstats := by
  rcases sent with rfl | ⟨⟨front, wstat, rfl, rfl, empty, rfl⟩, rfl⟩
  · obtain ⟨records, next, sent, -, run⟩ := @records_wires dotu (wires dotu wstats ++ stale)
      (wires dotu wstats).length wstats fits 0 stale rfl (Nat.zero_le _) (Nat.zero_add _).le stat
    refine ⟨records, next, ?_, sent⟩
    have stop := run.mpr ⟨[], rfl, .stop (Nat.zero_add _).ge⟩
    rwa [List.append_nil, Nat.zero_add] at stop
  · have fit := fits wstat (by simp)
    have short := @short_ofWstat false wstat fit
    have length := front_length empty
    have positive : 0 < sizeWstat wstat false := by
      rw [sizeWstat]
      omega
    rw [List.append_nil]
    obtain ⟨records, next, sent, -, run⟩ := @records_wires false
      (wires false front ++ (RawStat.ofWstat wstat false).front []) _ front
      (fun wstat member => fits wstat (by simp [member])) 0
      ((RawStat.ofWstat wstat false).front []) rfl (Nat.zero_le _)
      (show 0 + _ ≤ (wires false front ++ (RawStat.ofWstat wstat false).front []).length by
        rw [List.length_append]
        omega) stat
    obtain ⟨last, accepted, at'⟩ := @npDeserializeStat_cut
      (wires false front ++ (RawStat.ofWstat wstat false).front [])
        (wires false front).length next _
      (by simp) (by rw [List.drop_left]) short empty
    simp only [Nat.zero_add] at run
    refine ⟨_, last, run.mpr ⟨_, rfl, .record ?_ accepted ?_⟩, List.rel_append sent
      (.cons at' .nil)⟩
    · rw [List.length_append]
      omega
    · rw [← List.length_append]
      exact .stop le_rfl

variable {reply stale : List UInt8} {stack : Npstat} {memory : Option (Nat → UInt8)}

theorem npcDirread_failed : npcDirread dotu reply stale stack memory = .failed ↔
    ¬ ∃ records upto last, Records dotu (reply ++ stale) reply.length 0 stack records
      upto last := by
  have sizes {total size last} := @dirSizes_iff dotu (reply ++ stale) reply.length (by simp)
    (reply.length + 1) 0 0 0 stack (by omega) (Nat.succ_pos _) total size last
  simp only [npcDirread]
  cases found : dirSizes dotu (reply ++ stale) reply.length (reply.length + 1) 0 0 0 stack with
  | none =>
    refine iff_of_true rfl fun ⟨records, upto, last, run⟩ => ?_
    have same := sizes.mpr ⟨records, upto, run, rfl, rfl⟩
    exact nomatch found.symm.trans same
  | some result =>
    obtain ⟨total, size, last⟩ := result
    obtain ⟨records, upto, run, -⟩ := sizes.mp found
    refine iff_of_false ?_ fun none => none ⟨records, upto, last, run⟩
    dsimp only
    split
    · nofun
    · split <;> nofun

theorem mallocBlock_some {slen : Nat} {block : List UInt8}
    (malloc : mallocBlock memory slen = some block) :
    memory.isSome ∧ block.length = slen % 2 ^ 32 ∧ block.length < 2 ^ 31 := by
  simp only [mallocBlock] at malloc
  split_ifs at malloc with small
  obtain ⟨byte, rfl, rfl⟩ := Option.map_eq_some_iff.mp malloc
  rw [List.length_map, List.length_range]
  exact ⟨rfl, rfl, small⟩

theorem mallocBlock_of {slen : Nat} (given : memory.isSome) (small : slen < 2 ^ 31) :
    ∃ block, mallocBlock memory slen = some block ∧ block.length = slen := by
  obtain ⟨byte, rfl⟩ := Option.isSome_iff_exists.mp given
  have same : slen % 2 ^ 32 = slen := Nat.mod_eq_of_lt (small.trans (by decide))
  refine ⟨(List.range slen).map byte, ?_, by rw [List.length_map, List.length_range]⟩
  simp only [mallocBlock, same, if_pos small, Option.map_some]

/-- What was sent comes back, if there is a block for it. -/
theorem npcDirread_sent {wstats : List Npwstat}
    (fits : ∀ wstat ∈ wstats, sizeWstat wstat dotu < 2 ^ 16)
    (sent : reply = wires dotu wstats ∨ CutList wstats dotu reply ∧ stale = [])
    (block : ∀ records upto last,
      Records dotu (reply ++ stale) reply.length 0 stack records upto last →
        memory.isSome ∧ blockSize records < 2 ^ 31) :
    ∃ filling, npcDirread dotu reply stale stack memory =
        .read wstats.length filling reply.length ∧
      filling.sbuf = filling.block.length ∧
        List.Forall₂ (Copy.Of filling.block dotu) filling.statp wstats := by
  obtain ⟨records, last, run, found⟩ := @exists_records dotu reply stale wstats fits sent stack
  obtain ⟨records', last', again, found'⟩ := @exists_records dotu reply stale wstats fits sent last
  obtain ⟨same, size⟩ := run.blockSize_restart again
  obtain ⟨given, small⟩ := block _ _ _ run
  obtain ⟨bytes, malloc, length⟩ := mallocBlock_of given small
  have counted := found.length_eq
  have least := blockSize_ge records
  have sizes := (@dirSizes_iff dotu (reply ++ stale) reply.length (by simp) (reply.length + 1) 0 0 0
    stack (by omega) (Nat.succ_pos _) _ _ last).mpr ⟨records, _, run, rfl, rfl⟩
  simp only [Nat.zero_add] at sizes
  obtain ⟨filling, copies, full, entries⟩ := @dirCopies_of dotu (reply ++ stale) reply.length
    (by simp) records.length (reply.length + 1) 0 _ last last' records' wstats
    ⟨bytes, records.length * sizeofNpwstat, []⟩ again (by omega) (Nat.succ_pos _) found' fits
    (by simp [same]) (by simp only [length]; exact least)
    (by simp only [length, size, same]; omega) [] .nil
  refine ⟨filling, ?_, full, entries⟩
  rw [← counted]
  simp only [npcDirread, sizes, malloc, copies]

/-- Entries are returned only from a block that is large enough. -/
theorem npcDirread_read {count upto : Nat} {filling : Filling}
    (read : npcDirread dotu reply stale stack memory = .read count filling upto) :
    ∃ records last, Records dotu (reply ++ stale) reply.length 0 stack records upto last ∧
      memory.isSome ∧ blockSize records < 2 ^ 31 := by
  simp only [npcDirread] at read
  split at read
  · cases read
  rename_i total size stat found
  split at read
  · cases read
  rename_i block malloc
  split at read
  · cases read
  rename_i upto' filling' copies
  obtain ⟨records, upto'', run, rfl, rfl⟩ := (dirSizes_iff (by simp) (by omega)
    (Nat.succ_pos _)).mp found
  obtain ⟨given, length, small⟩ := mallocBlock_some malloc
  obtain ⟨records', last', again⟩ := run.restart stat
  obtain ⟨same, size⟩ := run.blockSize_restart again
  obtain ⟨rfl, bound⟩ := dirCopies_some (by simp) again (by omega) (Nat.succ_pos _) copies
  obtain ⟨rfl, rfl, rfl⟩ := DirRead.read.inj read
  refine ⟨records, stat, run, given, ?_⟩
  cases records' with
  | nil =>
    rw [← size]
    exact (by decide : 0 < 2 ^ 31)
  | cons record records' =>
    have inside := bound (List.cons_ne_nil _ _)
    rw [size, same] at inside
    simp only [Nat.zero_add] at inside length
    omega

/-- A reply that was cut short in front of other bytes is not taken for what it is. -/
theorem npcDirread_cut {count : Nat} {filling : Filling} (cut : CutReply dotu reply)
    (read : npcDirread dotu reply stale stack memory = .read count filling reply.length) :
    stale = [] := by
  obtain ⟨records, final, run, -⟩ := npcDirread_read read
  obtain ⟨_, fits, front, last, rfl, rfl, empty, rfl⟩ := cut
  have fit := fits last (by simp)
  by_contra stale'
  have bytes : (wires false front ++ (RawStat.ofWstat last false).front []) ++ stale =
      wires false front ++ (RawStat.ofWstat last false).front stale := by
    rw [(RawStat.ofWstat last false).front_append stale, List.append_assoc]
  rw [bytes, List.length_append] at run
  obtain ⟨first, next, -, -, split⟩ := @records_wires false
    (wires false front ++ (RawStat.ofWstat last false).front stale)
    ((wires false front).length + ((RawStat.ofWstat last false).front []).length) front
    (fun wstat member => fits wstat (by simp [member])) 0
    ((RawStat.ofWstat last false).front stale) rfl (Nat.zero_le _) (by omega) stack
  obtain ⟨more, rfl, behind⟩ := split.mp run
  have length := front_length empty
  have positive : 0 < sizeWstat last false := by
    rw [sizeWstat]
    omega
  obtain ⟨n, total⟩ : ∃ n, (wires false front).length +
      ((RawStat.ofWstat last false).front []).length = n := ⟨_, rfl⟩
  rw [Nat.zero_add, total] at behind
  cases behind with
  | stop done => omega
  | record more accepted rest =>
    have overrun := npDeserializeStat_behind (by simp) (by rw [List.drop_left])
      (short_ofWstat fit) stale' accepted
    cases rest with
    | stop => omega
    | record => omega

/-- The reply comes back as it was sent, or is refused, exactly if it fits. -/
theorem dirStream_iff : DirStream dotu reply stale stack memory ↔
    DirFits dotu reply stale stack memory := by
  constructor
  · rintro ⟨back, refused⟩
    have unstale (cut : CutReply dotu reply) : stale = [] := by
      obtain ⟨wstats, fits, cut'⟩ := cut
      obtain ⟨filling, read, -⟩ := back wstats ⟨fits, reply, serializeStats_cut fits cut'⟩
      exact npcDirread_cut ⟨wstats, fits, cut'⟩ read
    have sent {records upto last}
        (run : Records dotu (reply ++ stale) reply.length 0 stack records upto last) :
        ∃ wstats, Sent dotu wstats reply := by
      by_contra none
      exact npcDirread_failed.mp (refused none) ⟨records, upto, last, run⟩
    refine ⟨unstale, fun uncut records upto last run => ?_, fun records upto last run => ?_⟩
    · obtain ⟨wstats, fits, buf, done⟩ := sent run
      have whole : reply = wires dotu wstats :=
        (serializeStats_some fits done).resolve_right fun cut => uncut ⟨wstats, fits, cut⟩
      subst whole
      obtain ⟨records', next, -, whole, run'⟩ := @records_wires dotu (wires dotu wstats ++ stale)
        (wires dotu wstats).length wstats fits 0 stale rfl (Nat.zero_le _) (Nat.zero_add _).le stack
      obtain ⟨rfl, -, -⟩ := run.unique (run'.mpr ⟨[], rfl, .stop (Nat.zero_add _).ge⟩)
      rwa [List.append_nil]
    · obtain ⟨wstats, fits, buf, done⟩ := sent run
      obtain ⟨filling, read, -⟩ := back wstats ⟨fits, buf, done⟩
      obtain ⟨records', last', run', given, small⟩ := npcDirread_read read
      obtain ⟨rfl, -, -⟩ := run.unique run'
      exact ⟨given, small⟩
  · rintro ⟨cut, whole, block⟩
    refine ⟨fun wstats ⟨fits, buf, done⟩ => ?_, fun none => ?_⟩
    · refine npcDirread_sent fits ?_ block
      exact (serializeStats_some fits done).imp_right fun cut' => ⟨cut', cut ⟨wstats, fits, cut'⟩⟩
    · refine npcDirread_failed.mpr fun ⟨records, upto, last, run⟩ => none ?_
      by_cases cut' : CutReply dotu reply
      · obtain ⟨wstats, fits, cut'⟩ := cut'
        exact ⟨wstats, fits, reply, serializeStats_cut fits cut'⟩
      · obtain ⟨wstats, fits, same⟩ := exists_wires run (by simp) (Nat.zero_le _)
          (whole cut' records upto last run)
        rw [List.drop_zero, Nat.sub_zero, List.take_left] at same
        refine ⟨wstats, fits, wires dotu wstats, ?_⟩
        have written := serializeStats_wires fits [] (le_refl (wires dotu wstats).length)
        rw [List.append_nil] at written
        rw [written, same]
        simp [serializeStats]

end Proof

/-- Of one byte and 48 that were in the buffer before an entry is made. -/
theorem not_dirStream_all : ¬ ∀ (dotu : Bool) (reply stale : List UInt8) (stack : Npstat)
    (memory : Option (Nat → UInt8)), DirStream dotu reply stale stack memory := by
  intro all
  have unsent : ¬ ∃ wstats, Sent false wstats [0] := by
    rintro ⟨wstats, fits, buf, done⟩
    rcases serializeStats_some fits done with whole | ⟨front, last, rfl, -, empty, cut⟩
    · cases wstats with
      | nil => cases whole
      | cons wstat wstats =>
        have length := congrArg List.length whole
        have least := sizeWstat_ge wstat false
        rw [wires_cons, List.length_append, wire_length, List.length_singleton] at length
        omega
    · have length := congrArg List.length cut
      have least := sizeWstat_ge last false
      rw [List.length_append, front_length empty, List.length_singleton] at length
      omega
  have failed := (all false [0] (List.replicate 48 0) default (some fun _ => 0)).refused unsent
  let zero : RawStat := ⟨0, 0, 0, ⟨0, 0, 0⟩, 0, 0, 0, 0, [], [], [], [], [], 0, 0, 0⟩
  obtain ⟨stat, accepted, -⟩ := @npDeserializeStat_raw ([0] ++ List.replicate 48 0) 0 false default
    zero [] (Nat.zero_le _) (by decide) ⟨by decide, by decide, by decide, by decide, by decide⟩
  exact npcDirread_failed.mp failed ⟨_, _, stat, .record (by decide) accepted (.stop (by decide))⟩

end Npfs
