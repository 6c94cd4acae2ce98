import Mathlib.Data.List.GetD
import Npfs.Bitmap
import Npfs.Transition

/-!
# The identifiers of the client

`libnpclient/pool.c`: tags and fid numbers are the bits of a bitmap that grows when all of them are
taken. A pool of identifiers below `maxid` starts with 256 of them, and its last growth rounds up to
whole bytes.
-/

namespace Npfs

/-! ## The pool -/

/-- `m2id`: the lowest bit that a byte does not have. -/
def m2id : List UInt8 := [
  0, 1, 0, 2, 0, 1, 0, 3,
  0, 1, 0, 2, 0, 1, 0, 4,
  0, 1, 0, 2, 0, 1, 0, 3,
  0, 1, 0, 2, 0, 1, 0, 5,
  0, 1, 0, 2, 0, 1, 0, 3,
  0, 1, 0, 2, 0, 1, 0, 4,
  0, 1, 0, 2, 0, 1, 0, 3,
  0, 1, 0, 2, 0, 1, 0, 6,
  0, 1, 0, 2, 0, 1, 0, 3,
  0, 1, 0, 2, 0, 1, 0, 4,
  0, 1, 0, 2, 0, 1, 0, 3,
  0, 1, 0, 2, 0, 1, 0, 5,
  0, 1, 0, 2, 0, 1, 0, 3,
  0, 1, 0, 2, 0, 1, 0, 4,
  0, 1, 0, 2, 0, 1, 0, 3,
  0, 1, 0, 2, 0, 1, 0, 7,
  0, 1, 0, 2, 0, 1, 0, 3,
  0, 1, 0, 2, 0, 1, 0, 4,
  0, 1, 0, 2, 0, 1, 0, 3,
  0, 1, 0, 2, 0, 1, 0, 5,
  0, 1, 0, 2, 0, 1, 0, 3,
  0, 1, 0, 2, 0, 1, 0, 4,
  0, 1, 0, 2, 0, 1, 0, 3,
  0, 1, 0, 2, 0, 1, 0, 6,
  0, 1, 0, 2, 0, 1, 0, 3,
  0, 1, 0, 2, 0, 1, 0, 4,
  0, 1, 0, 2, 0, 1, 0, 3,
  0, 1, 0, 2, 0, 1, 0, 5,
  0, 1, 0, 2, 0, 1, 0, 3,
  0, 1, 0, 2, 0, 1, 0, 4,
  0, 1, 0, 2, 0, 1, 0, 3,
  0, 1, 0, 2, 0, 1, 0, 0]

/-- An `Npcpool`; `msize` is the length of `map`. -/
structure Npcpool where
  maxid : UInt32
  map : List UInt8

namespace Npcpool

def msize (p : Npcpool) : Nat := p.map.length

/-- The number of bits of so many bytes. The `int` wraps around in the comparison with the `u32`. -/
def bits (bytes : Nat) : UInt32 := .ofNat (bytes * 8)

/-- The search for a byte with a free bit. -/
def search (p : Npcpool) : Nat := p.map.findIdx (· != 0xFF)

/-- The test in front of `realloc`. -/
def wants (p : Npcpool) : Bool := p.search ≥ p.msize && bits p.msize < p.maxid

/-- The number of bytes that `realloc` is asked for. -/
def target (p : Npcpool) : Nat :=
  let n := p.msize + 32
  if bits n > p.maxid then (p.maxid / 8).toNat + 1 else n

/-- The bitmap grows, if there is memory. -/
def grow (p : Npcpool) (memory : Bool) : Npcpool :=
  if p.wants && memory then
    { p with map := p.map ++ List.replicate (p.target - p.msize) 0 }
  else
    p

end Npcpool

/-- `npc_create_pool`. -/
def npcCreatePool (maxid : UInt32) : Npcpool := ⟨maxid, List.replicate 32 0⟩

/-- One round of `npc_get_id`: it returns an identifier, or waits. Whether there is memory is
decided by `realloc`. -/
def npcGetId (p : Npcpool) (memory : Bool) : Option UInt32 × Npcpool :=
  let i := p.search
  let p := p.grow memory
  if i ≥ p.msize then
    (none, p)
  else
    let ret := m2id.getD (p.map.getD i 0).toNat 0
    let map := p.map.modify i (· ||| 1 <<< ret)
    (some (ret.toUInt32 + Npcpool.bits i), { p with map })

/-- `npc_put_id`. -/
def npcPutId (p : Npcpool) (id : UInt32) : Npcpool :=
  { p with map := p.map.modify (id / 8).toNat (· &&& ~~~(1 <<< (id % 8).toUInt8)) }

/-! ## Runs -/

/-- A pool in use. -/
structure IdRun where
  pool : Npcpool
  /-- The identifiers that were obtained and not yet put. -/
  outstanding : Finset UInt32
  /-- For each thread that waits, whether it was refused memory. -/
  waiting : List Bool
  /-- The identifiers that were returned, each with those that were outstanding. -/
  log : List (Finset UInt32 × UInt32)

/-- A thread is in a round of `npc_get_id`, or calls `npc_put_id`. -/
inductive IdStep where
  | get (memory : Bool)
  | put (id : UInt32)

namespace IdRun

def start (maxid : UInt32) : IdRun := ⟨npcCreatePool maxid, ∅, [], []⟩

/-- A thread takes the lock.  Who puts an identifier wakes the threads that wait. -/
def next (r : IdRun) : IdStep → Option IdRun
  | .get memory => match npcGetId r.pool memory with
    | (some id, pool) =>
      some { r with
        pool
        outstanding := insert id r.outstanding
        log := r.log ++ [(r.outstanding, id)] }
    | (none, pool) => some { r with pool, waiting := (r.pool.wants && !memory) :: r.waiting }
  | .put id =>
    if id ∈ r.outstanding then
      some { r with pool := npcPutId r.pool id, outstanding :=
        r.outstanding.erase id, waiting := [] }
    else
      none

/-- What the pool is for. -/
structure Lawful (r : IdRun) : Prop where
  fresh : ∀ got ∈ r.log, got.2 ∉ got.1 ∧ got.2 < r.pool.maxid
  /-- A thread that was not refused memory waits only while all identifiers are outstanding. -/
  waits : false ∈ r.waiting → ∀ id < r.pool.maxid, id ∈ r.outstanding
  /-- The identifiers that cannot be obtained are the outstanding ones. -/
  taken : ∀ k, Bitmap.holds r.pool.map k ↔ ∃ id ∈ r.outstanding, id.toNat = k

/-- Not all identifiers are outstanding, or their number is a multiple of 256. -/
def Fits (r : IdRun) : IdStep → Prop
  | .get _ => (∃ id < r.pool.maxid, id ∉ r.outstanding) ∨
      256 ∣ r.pool.maxid.toNat ∧ r.pool.maxid ≠ 0
  | .put _ => True

end IdRun

/-! ## The search -/

theorem m2id_checked : m2id.zipIdx.all (fun entry => entry.2 = 255 || entry.1.toNat < 8 &&
    !entry.2.testBit entry.1.toNat && (List.range entry.1.toNat).all entry.2.testBit) = true := by
  decide +kernel

theorem m2id_lowest : ∀ byte < 255, (m2id.getD byte 0).toNat < 8 ∧
    byte.testBit (m2id.getD byte 0).toNat = false ∧
      ∀ j < (m2id.getD byte 0).toNat, byte.testBit j = true := by
  intro byte below
  have inside : byte < m2id.length := below.trans (by decide +kernel)
  have entry := List.all_eq_true.mp m2id_checked (m2id[byte], byte)
    (List.mk_mem_zipIdx_iff_getElem?.mpr (List.getElem?_eq_getElem inside))
  rw [List.getD_eq_getElem _ _ inside]
  simpa [below.ne, and_assoc] using entry

theorem full_byte : ∀ byte < 256, (∀ r < 8, byte.testBit r = true) → byte = 255 := by
  decide +kernel

/-- The table finds the lowest bit that is free. -/
theorem m2id_eq {byte r : Nat} (small : byte < 256) (bit : r < 8) (free : byte.testBit r = false)
    (below : ∀ j < r, byte.testBit j = true) : (m2id.getD byte 0).toNat = r := by
  have short : byte < 255 := by
    refine lt_of_le_of_ne (Nat.le_of_lt_succ small) fun full => ?_
    subst full
    have set : ∀ r < 8, Nat.testBit 255 r = true := by decide
    rw [set r bit] at free
    cases free
  obtain ⟨-, clear, lower⟩ := m2id_lowest byte short
  rcases lt_trichotomy (m2id.getD byte 0).toNat r with less | same | more
  · rw [below _ less] at clear
    cases clear
  · exact same
  · rw [lower r more] at free
    cases free

section Search

variable {p : Npcpool} {k : Nat} {memory : Bool}

theorem holds_byte (map : List UInt8) (i : Nat) {r : Nat} (small : r < 8) :
    Bitmap.holds map (i * 8 + r) = (map.getD i 0).toNat.testBit r := by
  have byte : (i * 8 + r) / 8 = i := by omega
  have bit : (i * 8 + r) % 8 = r := by omega
  rw [Bitmap.holds, byte, bit]

/-- The byte of a free number is the first that is not full, if all numbers below are taken. -/
theorem search_eq (inside : k < 8 * p.map.length) (free : Bitmap.holds p.map k = false)
    (below : ∀ j < k, Bitmap.holds p.map j = true) : p.search = k / 8 := by
  have byte : k / 8 < p.map.length := by omega
  refine (List.findIdx_eq byte).mpr ⟨?_, fun j less => ?_⟩
  · rw [bne_iff_ne]
    intro full
    have set : ∀ r < 8, (255 : Nat).testBit r = true := by decide
    rw [Bitmap.holds, List.getD_eq_getElem _ _ byte, full] at free
    exact Bool.false_ne_true (free.symm.trans (set _ (Nat.mod_lt _ (by decide))))
  · have there : j < p.map.length := less.trans byte
    have full : (p.map[j]).toNat = 255 := by
      refine full_byte _ (p.map[j]).toNat_lt fun r small => ?_
      rw [← List.getD_eq_getElem p.map 0 there, ← holds_byte p.map j small]
      exact below _ (by omega)
    simp [UInt8.toNat_inj.mp (full.trans (by decide : 255 = (0xFF : UInt8).toNat))]

theorem npcGetId_lowest (inside : k < 8 * p.map.length) (free : Bitmap.holds p.map k = false)
    (below : ∀ j < k, Bitmap.holds p.map j = true) :
    npcGetId p memory = (some (.ofNat k), { p with map := Bitmap.mark p.map k }) := by
  have found := search_eq inside free below
  have byte : k / 8 < p.map.length := by omega
  have kept : p.grow memory = p := by
    simp [Npcpool.grow, Npcpool.wants, found, Npcpool.msize, byte]
  have bit : (m2id.getD (p.map.getD (k / 8) 0).toNat 0).toNat = k % 8 := by
    refine m2id_eq (UInt8.toNat_lt _) (Nat.mod_lt _ (by decide)) free fun j less => ?_
    rw [← holds_byte _ _ (by omega)]
    exact below _ (by omega)
  have ret : m2id.getD (p.map.getD (k / 8) 0).toNat 0 = UInt8.ofNat (k % 8) := by
    rw [← bit, UInt8.ofNat_toNat]
  simp only [npcGetId, found, kept, Npcpool.msize, ge_iff_le, not_le.mpr byte, if_false, ret]
  refine Prod.ext (congrArg some ?_) rfl
  apply UInt32.toNat_inj.mp
  simp only [Npcpool.bits, UInt32.toNat_add, UInt32.toNat_ofNat', UInt8.toNat_toUInt32,
    UInt8.toNat_ofNat']
  omega

theorem search_full (full : ∀ j < 8 * p.map.length, Bitmap.holds p.map j = true) :
    p.search = p.msize := by
  refine List.findIdx_eq_length.mpr fun byte member => ?_
  obtain ⟨i, there, rfl⟩ := List.mem_iff_getElem.mp member
  have whole : (p.map[i]).toNat = 255 := by
    refine full_byte _ (p.map[i]).toNat_lt fun r small => ?_
    rw [← List.getD_eq_getElem p.map 0 there, ← holds_byte p.map i small]
    exact full _ (by omega)
  simp [UInt8.toNat_inj.mp (whole.trans (by decide : 255 = (0xFF : UInt8).toNat))]

theorem wants_full (full : ∀ j < 8 * p.map.length, Bitmap.holds p.map j = true) :
    p.wants = decide (Npcpool.bits p.msize < p.maxid) := by
  simp [Npcpool.wants, search_full full]

theorem npcGetId_grows (full : ∀ j < 8 * p.map.length, Bitmap.holds p.map j = true)
    (wants : p.wants = true) (longer : p.msize < p.target) :
    npcGetId p true = (some (Npcpool.bits p.msize), { p with
      map := Bitmap.mark (p.map ++ List.replicate (p.target - p.msize) 0) (8 * p.msize) }) := by
  have byte : (p.map ++ List.replicate (p.target - p.msize) 0).getD p.msize 0 = 0 := by
    simp only [Npcpool.msize, List.getD_eq_getElem?_getD, List.getElem?_append,
      List.getElem?_replicate, lt_irrefl, if_false]
    split <;> rfl
  have length : ¬ p.msize + (p.target - p.msize) ≤ p.msize := by omega
  have place : 8 * p.msize / 8 = p.msize ∧ 8 * p.msize % 8 = 0 := by omega
  simp only [npcGetId, Npcpool.grow, wants, search_full full, Bool.and_self, if_true]
  rw [if_neg (by simpa [Npcpool.msize] using length), byte]
  simp only [Bitmap.mark, place]
  refine Prod.ext (congrArg some ?_) rfl
  exact UInt32.zero_add _

theorem npcGetId_waits (full : ∀ j < 8 * p.map.length, Bitmap.holds p.map j = true)
    (stays : (p.wants && memory) = false) : npcGetId p memory = (none, p) := by
  simp [npcGetId, Npcpool.grow, stays, search_full full]

/-- A full bitmap of less than `maxid` bits grows. -/
theorem target_gt (less : 8 * p.msize < p.maxid.toNat) : p.msize < p.target := by
  simp only [Npcpool.target]
  split_ifs
  · rw [UInt32.toNat_div]
    simp
    omega
  · omega

theorem toNat_bits (small : 8 * p.msize < 2 ^ 32) :
    (Npcpool.bits p.msize).toNat = 8 * p.msize := by
  simp only [Npcpool.bits, UInt32.toNat_ofNat']
  omega

/-- A thread waits when all numbers are taken and the bitmap does not grow, or it gets the lowest
number that is free, which may be the first one behind the bitmap. -/
theorem npcGetId_cases (memory : Bool) (small : 8 * p.msize < 2 ^ 32 ∨
      ∃ id : UInt32, Bitmap.holds p.map id.toNat = false) :
    (npcGetId p memory = (none, p) ∧ (p.wants && memory) = false ∧
        ∀ j < 8 * p.map.length, Bitmap.holds p.map j = true) ∨
      ∃ id map, npcGetId p memory = (some id, { p with map }) ∧
        Bitmap.holds p.map id.toNat = false ∧ (∀ j < id.toNat, Bitmap.holds p.map j = true) ∧
        (∀ k, Bitmap.holds map k = (decide (k = id.toNat) || Bitmap.holds p.map k)) ∧
        (id.toNat < 8 * p.msize ∧ map.length = p.msize ∨
          id.toNat = 8 * p.msize ∧ 8 * p.msize < p.maxid.toNat ∧ map.length = p.target) := by
  by_cases full : ∀ j < 8 * p.map.length, Bitmap.holds p.map j = true
  · have limit : 8 * p.msize < 2 ^ 32 := by
      rcases small with small | ⟨id, free⟩
      · exact small
      · have behind : 8 * p.msize ≤ id.toNat := by
          by_contra inside
          exact Bool.false_ne_true (free.symm.trans (full _ (not_le.mp inside)))
        exact behind.trans_lt id.toNat_lt
    have value := toNat_bits limit
    by_cases grows : (p.wants && memory) = true
    · obtain ⟨wants, rfl⟩ := Bool.and_eq_true_iff.mp grows
      have less : 8 * p.msize < p.maxid.toNat := by
        rwa [wants_full full, decide_eq_true_eq, UInt32.lt_iff_toNat_lt, value] at wants
      have longer := target_gt less
      refine .inr ⟨_, _, npcGetId_grows full wants longer, ?_, fun j => ?_, fun k => ?_, ?_⟩
      · rw [value]
        exact Bitmap.holds_of_ge le_rfl
      · rw [value]
        exact full j
      · rw [value, Bitmap.holds_mark (by simp [Npcpool.msize] at longer ⊢; omega),
          Bitmap.holds_append_zeros]
      · refine .inr ⟨value, less, ?_⟩
        simp only [Npcpool.msize] at longer
        simp only [Bitmap.length_mark, List.length_append, List.length_replicate, Npcpool.msize]
        omega
    · rw [Bool.not_eq_true] at grows
      exact .inl ⟨npcGetId_waits full grows, grows, full⟩
  · have exists_free : ∃ k, k < 8 * p.map.length ∧ Bitmap.holds p.map k = false := by
      simpa using full
    classical
    obtain ⟨inside, free⟩ := Nat.find_spec exists_free
    have lowest := fun j => @Nat.find_min _ _ exists_free j
    generalize Nat.find exists_free = k at inside free lowest
    have below : ∀ j < k, Bitmap.holds p.map j = true := fun j less => by
      simpa [less.trans inside] using lowest j less
    have limit : k < 2 ^ 32 := by
      rcases small with small | ⟨id, unused⟩
      · exact inside.trans small
      · refine lt_of_le_of_lt (not_lt.mp fun beyond => ?_) id.toNat_lt
        exact Bool.false_ne_true (unused.symm.trans (below _ beyond))
    have value : (UInt32.ofNat k).toNat = k := Nat.mod_eq_of_lt limit
    refine .inr ⟨_, _, npcGetId_lowest inside free below, ?_, fun j => ?_, fun j => ?_, ?_⟩
    · rwa [value]
    · rw [value]
      exact below j
    · rw [value, Bitmap.holds_mark inside]
    · rw [value]
      exact .inl ⟨inside, Bitmap.length_mark _ _⟩

theorem npcPutId_eq (p : Npcpool) (id : UInt32) :
    npcPutId p id = { p with map := Bitmap.clear p.map id.toNat } := by
  have byte : (id / 8).toNat = id.toNat / 8 := UInt32.toNat_div id 8
  have bit : (id % 8).toUInt8 = UInt8.ofNat (id.toNat % 8) := by
    apply UInt8.toNat_inj.mp
    simp
  rw [npcPutId, Bitmap.clear, byte, bit]

end Search

/-! ## Every run -/

namespace IdRun

variable {r r' : IdRun}

/-- What holds in every run whose steps fit. -/
structure Sound (r : IdRun) : Prop where
  lawful : r.Lawful
  /-- A multiple of 256 is reached exactly. -/
  multiple : 256 ∣ r.pool.maxid.toNat → r.pool.maxid ≠ 0 →
    32 ∣ r.pool.msize ∧ 8 * r.pool.msize ≤ r.pool.maxid.toNat

theorem sound_start (maxid : UInt32) : (start maxid).Sound := by
  have empty (k : Nat) : Bitmap.holds (start maxid).pool.map k = false := Bitmap.holds_zeros 32
  refine ⟨⟨by simp [start], by simp [start], fun k => ?_⟩, fun multiple some => ?_⟩
  · rw [empty k]
    simp [start]
  have positive : maxid.toNat ≠ 0 := fun zero => some (UInt32.toNat_inj.mp zero)
  have least : 256 ≤ maxid.toNat := Nat.le_of_dvd (Nat.pos_of_ne_zero positive) multiple
  simpa [start, npcCreatePool, Npcpool.msize] using least

theorem Lawful.not_holds (lawful : r.Lawful) {id : UInt32} (free : id ∉ r.outstanding) :
    Bitmap.holds r.pool.map id.toNat = false := by
  rw [← Bool.not_eq_true, lawful.taken]
  rintro ⟨other, member, same⟩
  exact free (UInt32.toNat_inj.mp same ▸ member)

/-- An identifier has been returned that was free, and the bitmap marks it. -/
theorem Lawful.got (lawful : r.Lawful) {pool : Npcpool} {id : UInt32}
    (same : pool.maxid = r.pool.maxid)
    (small : id < r.pool.maxid) (free : Bitmap.holds r.pool.map id.toNat = false)
    (marked : ∀ k, Bitmap.holds pool.map k = (decide (k = id.toNat) || Bitmap.holds r.pool.map k)) :
    Lawful { r with
      pool
      outstanding := insert id r.outstanding
      log := r.log ++ [(r.outstanding, id)] } := by
  have absent : id ∉ r.outstanding := fun member =>
    Bool.false_ne_true (free.symm.trans ((lawful.taken _).mpr ⟨id, member, rfl⟩))
  refine ⟨fun got member => ?_, fun waits other below => ?_, fun k => ?_⟩
  · rw [same]
    rcases List.mem_append.mp member with member | member
    · exact lawful.fresh got member
    · obtain rfl := List.mem_singleton.mp member
      exact ⟨absent, small⟩
  · rw [same] at below
    exact Finset.mem_insert_of_mem (lawful.waits waits other below)
  · rw [marked, Bool.or_eq_true, decide_eq_true_eq, lawful.taken, Finset.exists_mem_insert,
      eq_comm]

/-- The bitmap marks all its numbers, and there is an identifier that is free. -/
theorem Lawful.short (lawful : r.Lawful)
    (full : ∀ j < 8 * r.pool.map.length, Bitmap.holds r.pool.map j = true) {id : UInt32}
    (below : id < r.pool.maxid) (free : id ∉ r.outstanding) :
    8 * r.pool.msize ≤ id.toNat ∧ r.pool.wants = true := by
  have behind : 8 * r.pool.msize ≤ id.toNat := by
    by_contra inside
    exact Bool.false_ne_true ((lawful.not_holds free).symm.trans (full _ (not_le.mp inside)))
  refine ⟨behind, ?_⟩
  rw [wants_full full, decide_eq_true_eq, UInt32.lt_iff_toNat_lt]
  have bound := id.toNat_lt
  rw [UInt32.lt_iff_toNat_lt] at below
  simp only [Npcpool.bits, UInt32.toNat_ofNat']
  omega

theorem target_multiple {p : Npcpool} (multiple : 256 ∣ p.maxid.toNat) (whole : 32 ∣ p.msize)
    (less : 8 * p.msize < p.maxid.toNat) :
    p.target = p.msize + 32 ∧ 8 * (p.msize + 32) ≤ p.maxid.toNat := by
  have bound := p.maxid.toNat_lt
  have room : 8 * (p.msize + 32) ≤ p.maxid.toNat := by omega
  refine ⟨?_, room⟩
  unfold Npcpool.target
  refine if_neg (UInt32.not_lt.mpr (UInt32.le_iff_toNat_le.mpr ?_))
  simp only [Npcpool.bits, UInt32.toNat_ofNat']
  omega

theorem next_got {memory : Bool} {id : UInt32} {pool : Npcpool}
    (got : npcGetId r.pool memory = (some id, pool)) : r.next (.get memory) = some { r with
      pool
      outstanding := insert id r.outstanding
      log := r.log ++ [(r.outstanding, id)] } := by
  simp only [next, got]

theorem sound_get {memory : Bool} (sound : r.Sound) (fits : r.Fits (.get memory))
    (taken : r.next (.get memory) = some r') : r'.Sound := by
  obtain ⟨lawful, multiple⟩ := sound
  have small : 8 * r.pool.msize < 2 ^ 32 ∨
      ∃ id : UInt32, Bitmap.holds r.pool.map id.toNat = false := by
    rcases fits with ⟨id, -, unused⟩ | ⟨divides, some⟩
    · exact .inr ⟨id, lawful.not_holds unused⟩
    · exact .inl ((multiple divides some).2.trans_lt r.pool.maxid.toNat_lt)
  rcases npcGetId_cases memory small with ⟨waits, stays, full⟩ |
    ⟨id, map, got, free, lowest, marked, length⟩
  · simp only [next, waits] at taken
    obtain rfl := Option.some.inj taken
    refine ⟨⟨lawful.fresh, fun waits id less => ?_, lawful.taken⟩, multiple⟩
    rcases List.mem_cons.mp waits with now | before
    · by_contra unused
      have wants := (lawful.short full less unused).2
      simp only [wants, Bool.true_and] at now stays
      rw [stays] at now
      cases now
    · exact lawful.waits before id less
  · obtain rfl := Option.some.inj ((next_got got).symm.trans taken)
    refine ⟨lawful.got rfl ?_ free marked, fun divides some => ?_⟩
    · rw [UInt32.lt_iff_toNat_lt]
      rcases fits with ⟨other, less, unused⟩ | ⟨divides, some⟩
      · refine lt_of_le_of_lt (not_lt.mp fun beyond => ?_) (UInt32.lt_iff_toNat_lt.mp less)
        exact Bool.false_ne_true ((lawful.not_holds unused).symm.trans (lowest _ beyond))
      · rcases length with ⟨inside, -⟩ | ⟨same, less, -⟩
        · exact inside.trans_le (multiple divides some).2
        · exact same.trans_lt less
    · have counted : 256 ∣ r.pool.maxid.toNat := divides
      obtain ⟨whole, room⟩ := multiple counted some
      change 32 ∣ map.length ∧ 8 * map.length ≤ r.pool.maxid.toNat
      rcases length with ⟨-, length⟩ | ⟨-, less, length⟩
      · rw [length]
        exact ⟨whole, room⟩
      · obtain ⟨target, room⟩ := target_multiple counted whole less
        rw [length, target]
        omega

theorem sound_next {step : IdStep} (sound : r.Sound) (fits : r.Fits step)
    (taken : r.next step = some r') : r'.Sound := by
  cases step with
  | get memory => exact sound_get sound fits taken
  | put id =>
    simp only [next] at taken
    split_ifs at taken with member
    obtain rfl := Option.some.inj taken
    obtain ⟨lawful, multiple⟩ := sound
    have marked : Bitmap.holds r.pool.map id.toNat = true := (lawful.taken _).mpr ⟨id, member, rfl⟩
    have inside : id.toNat < 8 * r.pool.map.length := by
      by_contra outside
      rw [Bitmap.holds_of_ge (not_lt.mp outside)] at marked
      cases marked
    refine ⟨⟨?_, by simp, fun k => ?_⟩, ?_⟩
    · rw [npcPutId_eq]
      exact lawful.fresh
    · simp only [npcPutId_eq, Bitmap.holds_clear inside, Bool.and_eq_true, decide_eq_true_eq,
        lawful.taken, Finset.mem_erase]
      constructor
      · rintro ⟨other, id', member', rfl⟩
        exact ⟨id', ⟨fun same => other (congrArg _ same), member'⟩, rfl⟩
      · rintro ⟨id', ⟨other, member'⟩, rfl⟩
        exact ⟨fun same => other (UInt32.toNat_inj.mp same), id', member', rfl⟩
    · simpa [npcPutId_eq, Npcpool.msize] using multiple

/-- In every run in which an identifier below `maxid` is free whenever one is asked for, or their
number is a multiple of 256, the pool does what it is for. -/
theorem lawful_of_run {maxid : UInt32} (run : Transition.Reaches next Fits (start maxid) r) :
    r.Lawful :=
  (run.invariant Sound (sound_start maxid) fun sound fits taken =>
    sound_next sound fits taken).lawful

/-- The first tag of a pool of tags. -/
theorem lawful_of_run_tag : ∃ r, next (start 65535) (.get true) = some r ∧ r.Lawful := by
  have unused : Fits (start 65535) (.get true) := .inl ⟨0, by decide, Finset.notMem_empty 0⟩
  have free : Bitmap.holds (start 65535).pool.map 0 = false := Bitmap.holds_zeros 32
  have found := @npcGetId_lowest (start 65535).pool 0 true (by decide) free (by simp)
  have taken := next_got found
  exact ⟨_, taken, lawful_of_run (.step .start unused taken)⟩

/-! ## One identifier too many -/

/-- The identifiers below `k` are outstanding. -/
def Filled (r : IdRun) (k : Nat) : Prop := ∀ id, id ∈ r.outstanding ↔ id.toNat < k

theorem Filled.holds (lawful : r.Lawful) {k : Nat} (filled : r.Filled k) (small : k < 2 ^ 32)
    {j : Nat} (less : j < k) : Bitmap.holds r.pool.map j = true := by
  have value : (UInt32.ofNat j).toNat = j := Nat.mod_eq_of_lt (less.trans small)
  refine (lawful.taken j).mpr ⟨.ofNat j, (filled _).mpr ?_, value⟩
  rwa [value]

/-- The next identifier is `k`, if there is a byte for it or the bitmap is shorter than `maxid`. -/
theorem Filled.get (lawful : r.Lawful) {k : Nat} (filled : r.Filled k) (small : k < 2 ^ 32)
    (room : k < 8 * r.pool.msize ∨ k < r.pool.maxid.toNat) :
    ∃ pool, npcGetId r.pool true = (some (.ofNat k), pool) ∧ pool.maxid = r.pool.maxid := by
  by_cases inside : k < 8 * r.pool.map.length
  · have free : Bitmap.holds r.pool.map k = false := by
      rw [← Bool.not_eq_true, lawful.taken]
      rintro ⟨id, member, rfl⟩
      exact lt_irrefl _ ((filled id).mp member)
    exact ⟨_, npcGetId_lowest inside free fun j less => filled.holds lawful small less, rfl⟩
  · have full : ∀ j < 8 * r.pool.map.length, Bitmap.holds r.pool.map j = true := fun j less =>
      filled.holds lawful small (less.trans_le (not_lt.mp inside))
    have same : k = 8 * r.pool.msize := by
      refine le_antisymm (not_lt.mp fun less => ?_) (not_lt.mp inside)
      have marked := filled.holds lawful small less
      rw [Bitmap.holds_of_ge (by rfl)] at marked
      cases marked
    have less : 8 * r.pool.msize < r.pool.maxid.toNat := by
      rw [← same]
      exact room.resolve_left fun inside' => inside inside'
    have wants : r.pool.wants = true := by
      rw [wants_full full, decide_eq_true_eq, UInt32.lt_iff_toNat_lt]
      exact (Nat.mod_le _ _).trans_lt (by omega)
    rw [same, Nat.mul_comm]
    exact ⟨_, npcGetId_grows full wants (target_gt less), rfl⟩

theorem Filled.insert {k : Nat} (filled : r.Filled k) (small : k < 2 ^ 32) {pool : Npcpool}
    {log : List (Finset UInt32 × UInt32)} :
    Filled { r with pool, outstanding := insert (.ofNat k) r.outstanding, log } (k + 1) := by
  intro id
  have value : (UInt32.ofNat k).toNat = k := Nat.mod_eq_of_lt small
  rw [Finset.mem_insert, filled id, ← UInt32.toNat_inj, value]
  omega

/-- All identifiers below `maxid` can be outstanding. -/
theorem exists_filled (maxid : UInt32) : ∀ k ≤ maxid.toNat, ∃ r,
    Transition.Reaches next Fits (start maxid) r ∧ r.pool.maxid = maxid ∧ r.Filled k := by
  intro k
  induction k with
  | zero => exact fun _ => ⟨start maxid, .start, rfl, fun id => by simp [start]⟩
  | succ k ih =>
    intro most
    obtain ⟨r, run, same, filled⟩ := ih (by omega)
    have sound := run.invariant Sound (sound_start maxid) fun sound fits taken =>
      sound_next sound fits taken
    have small : k < 2 ^ 32 := most.trans maxid.toNat_lt.le
    have below : k < r.pool.maxid.toNat := by rwa [same]
    have value : (UInt32.ofNat k).toNat = k := Nat.mod_eq_of_lt small
    obtain ⟨pool, got, kept⟩ := filled.get sound.lawful small (.inr below)
    have unused : r.Fits (.get true) := by
      refine .inl ⟨.ofNat k, UInt32.lt_iff_toNat_lt.mpr (by rwa [value]), fun member => ?_⟩
      have less := (filled _).mp member
      rw [value] at less
      exact lt_irrefl k less
    exact ⟨_, .step run unused (next_got got), kept.trans same, filled.insert small⟩

/-- The last byte has bits for identifiers that are not below `maxid`. -/
theorem exists_maxid {maxid : UInt32} (odd : ¬ 8 ∣ maxid.toNat) : ∃ r,
    Transition.Reaches next (fun _ _ => True) (start maxid) r ∧
      r.pool.maxid = maxid ∧ ∃ got ∈ r.log, got.2 = maxid := by
  obtain ⟨r, run, same, filled⟩ := exists_filled maxid maxid.toNat le_rfl
  have lawful := (run.invariant Sound (sound_start maxid) fun sound fits taken =>
    sound_next sound fits taken).lawful
  have room : maxid.toNat < 8 * r.pool.msize := by
    refine lt_of_le_of_ne (not_lt.mp fun short => ?_) fun same => odd ⟨_, same⟩
    have marked := filled.holds lawful maxid.toNat_lt short
    rw [Bitmap.holds_of_ge (by rfl)] at marked
    cases marked
  obtain ⟨pool, got, kept⟩ := filled.get lawful maxid.toNat_lt (.inl room)
  refine ⟨_, .step (run.mono fun _ _ _ => trivial) trivial (next_got got), kept.trans same, ?_⟩
  exact ⟨_, List.mem_append_right _ (List.mem_singleton_self _), UInt32.ofNat_toNat⟩

/-- `NOTAG` is returned when all tags are outstanding. -/
theorem not_lawful_all : ¬ ∀ (maxid : UInt32) (r : IdRun),
    Transition.Reaches next (fun _ _ => True) (start maxid) r → r.Lawful := by
  intro all
  obtain ⟨r, run, same, got, member, tag⟩ := @exists_maxid 65535 (by decide)
  have below := ((all 65535 r run).fresh got member).2
  rw [same, tag] at below
  exact UInt32.lt_irrefl _ below

end IdRun

end Npfs
