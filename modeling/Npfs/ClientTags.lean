import Npfs.ClientPool
import Npfs.ClientRequests

/-!
# The tags of the client

A request gets its tag from the pool before it is queued, unless it is a Tversion. The tag is put
back by the reader behind the callback, if the request was not flushed, and by
`npc_cancel_fid_requests` behind the callbacks of the requests that it has taken out.
-/

namespace Npfs

/-- `NOTAG`. -/
def notag : UInt16 := 0xFFFF

/-- The client, its tags, and the requests that threads hold without the lock. -/
structure TagRun where
  client : Client
  /-- `fs->tagpool`. -/
  pool : Npcpool
  /-- The tags that were obtained and not put. -/
  outstanding : Finset UInt32
  /-- A tag was put that was not outstanding, or not in the bitmap. -/
  misused : Bool
  /-- `req->tc->type == Tversion`. -/
  version : ℕ → Bool
  /-- The requests that are not queued yet. -/
  made : List ℕ
  /-- The requests that the reader has taken out, and `npc_cancel_fid_requests`. -/
  answered : List ℕ
  cancelled : List ℕ
  /-- The requests that were left when the reader ended. -/
  aborted : List ℕ

/-- What the threads do. -/
inductive TagStep where
  /-- `npc_rpcnb` in front of its section, with a request that is placed at an address, and with what
  `realloc` decides. -/
  | get (req : ℕ) (fid : UInt32) (version memory : Bool)
  | queue (req : ℕ)
  | write
  | read (tag : UInt16)
  /-- `npc_read_proc` calls back, and is done with the request. -/
  | reply (req : ℕ)
  /-- The section of `npc_cancel_fid_requests`, with what `malloc` decides. -/
  | cancel (fid : UInt32) (memory : Bool)
  /-- `npc_cancel_fid_requests` calls back, and is done with the request. -/
  | refuse (req : ℕ)
  | close
  | lost
  /-- The reader, at its end, calls back, and is done with the request. -/
  | abort (req : ℕ)

namespace TagRun

def start : TagRun where
  client := Client.start
  pool := npcCreatePool notag.toUInt32
  outstanding := ∅
  misused := false
  version _ := false
  made := []
  answered := []
  cancelled := []
  aborted := []

/-- `npc_put_id(fs->tagpool, tag)`. -/
def put (s : TagRun) (tag : UInt16) : TagRun :=
  let id := tag.toUInt32
  { s with
    pool := npcPutId s.pool id
    outstanding := s.outstanding.erase id
    misused := s.misused || !decide (id ∈ s.outstanding ∧ (id / 8).toNat < s.pool.msize) }

/-- The requests that are in use. -/
def used (s : TagRun) : List ℕ :=
  s.made ++ s.client.queued ++ s.client.taken ++ s.answered ++ s.cancelled ++ s.aborted

/-- `npc_reqalloc`, and what is assigned to the request. -/
def make (s : TagRun) (req : ℕ) (tag : UInt16) (fid : UInt32) (version : Bool) : TagRun :=
  { s with
    client := { s.client with fs := { s.client.fs with
      tag := Function.update s.client.fs.tag req tag
      fid := Function.update s.client.fs.fid req fid } }
    version := Function.update s.version req version
    made := req :: s.made }

/-- Take a step. -/
def step (s : TagRun) : TagStep → Option TagRun
  | .get req fid version memory =>
    if s.client.fs.trans = false ∨ req ∈ s.used then none
    else if version then some (s.make req notag fid true)
    else
      match npcGetId s.pool memory with
      | (some id, pool) =>
        some (({ s with pool, outstanding := insert id s.outstanding } : TagRun).make req
          id.toUInt16 fid false)
      | (none, pool) => some { s with pool }
  | .queue req =>
    if req ∈ s.made then
      (s.client.step (.rpcnb req (s.client.fs.tag req) (s.client.fs.fid req))).map fun client =>
        { s with client, made := s.made.erase req }
    else none
  | .write => (s.client.step .write).map fun client => { s with client }
  | .read tag =>
    (s.client.step (.read tag)).map fun client =>
      { s with client, answered := (s.client.found tag).toList ++ s.answered }
  | .reply req =>
    if req ∈ s.answered then
      let s := if s.client.fs.flushed req then s else s.put (s.client.fs.tag req)
      some { s with answered := s.answered.erase req }
    else none
  | .cancel fid memory => do
    let client ← s.client.step (.cancel fid)
    let (fs, ureqs, _) ← s.client.fs.npcCancelFidRequests s.client.turns fid
    let removed ← LinkedChain.walk fs.links.next s.client.turns ureqs
    return { s with client, cancelled := (if memory then removed else []) ++ s.cancelled }
  | .refuse req =>
    if req ∈ s.cancelled then
      let s := s.put (s.client.fs.tag req)
      some { s with cancelled := s.cancelled.erase req }
    else none
  | .close => (s.client.step .close).map fun client => { s with client }
  | .lost => do
    let client ← s.client.step .lost
    let unsent ← LinkedChain.walk s.client.fs.links.next s.client.turns s.client.fs.unsentFirst
    let pend ← LinkedChain.walk s.client.fs.links.next s.client.turns s.client.fs.pendFirst
    return { s with client, aborted := unsent ++ pend ++ s.aborted }
  | .abort req =>
    if req ∈ s.aborted then some { s with aborted := s.aborted.erase req } else none

/-- All requests are completed. -/
def Idle (s : TagRun) : Prop :=
  s.client.queued = [] ∧ s.client.taken = [] ∧ s.made = [] ∧ s.answered = [] ∧ s.cancelled = [] ∧
    s.aborted = []

/-- The tags are put back once each. -/
structure Conserved (s : TagRun) : Prop where
  /-- Each tag that was put was outstanding, and had its bit in the bitmap. -/
  proper : s.misused = false
  returned : s.Idle → s.outstanding = ∅ ∧ ∀ k, Bitmap.holds s.pool.map k = false

/-- No Tversion is answered or cancelled; no pending request is cancelled, nor an unsent one without
memory, nor the first unsent one while it has a back link; and the reader ends when only a Tversion
is pending. -/
def Careful (s : TagRun) : TagStep → Prop
  | .reply req => s.version req = false
  | .refuse req => s.version req = false
  | .cancel fid memory => (∀ req ∈ s.client.taken, s.client.fs.fid req ≠ fid) ∧
      (memory = true ∨ ∀ req ∈ s.client.queued, s.client.fs.fid req ≠ fid) ∧
      ∀ req ∈ s.client.fs.unsentFirst, s.client.fs.fid req = fid →
        s.client.fs.links.prev req = none
  | .lost => s.client.fs.unsentFirst = none ∧ ∀ req ∈ s.client.taken, s.version req
  | _ => True

end TagRun

/-! ## The pool of tags -/

/-- A pool below `NOTAG` has whole steps of growth. -/
structure Npcpool.Whole (p : Npcpool) : Prop where
  maxid : p.maxid = notag.toUInt32
  steps : 32 ∣ p.msize
  most : p.msize ≤ 8192

section Pool

variable {p : Npcpool}

theorem whole_create : (npcCreatePool notag.toUInt32).Whole :=
  ⟨rfl, by decide, by decide⟩

theorem Npcpool.Whole.put (whole : p.Whole) (id : UInt32) : (npcPutId p id).Whole := by
  obtain ⟨maxid, steps, most⟩ := whole
  rw [npcPutId_eq]
  exact ⟨maxid, by simpa [msize] using steps, by simpa [msize] using most⟩

/-- A thread waits, or gets a tag that was free. -/
theorem npcGetId_tag (whole : p.Whole) (memory : Bool) : npcGetId p memory = (none, p) ∨
    ∃ id map, npcGetId p memory = (some id, { p with map }) ∧ id.toNat < 2 ^ 16 ∧
      Bitmap.holds p.map id.toNat = false ∧ Npcpool.Whole { p with map } ∧
      ∀ k, Bitmap.holds map k = (decide (k = id.toNat) || Bitmap.holds p.map k) := by
  obtain ⟨maxid, steps, most⟩ := whole
  have limit : p.maxid.toNat = 65535 := by rw [maxid]; rfl
  rcases npcGetId_cases memory (.inl (by omega : 8 * p.msize < 2 ^ 32)) with ⟨waits, -⟩ |
    ⟨id, map, got, free, -, marked, length⟩
  · exact .inl waits
  · have sized : 32 ∣ map.length ∧ map.length ≤ 8192 := by
      rcases length with ⟨-, same⟩ | ⟨-, less, longer⟩
      · rw [same]
        exact ⟨steps, most⟩
      · have target : p.target = p.msize + 32 := by
          have next : (Npcpool.bits (p.msize + 32)).toNat = 8 * (p.msize + 32) := by
            simp only [Npcpool.bits, UInt32.toNat_ofNat']
            omega
          simp only [Npcpool.target, gt_iff_lt, UInt32.lt_iff_toNat_lt, next, limit]
          split_ifs
          · rw [UInt32.toNat_div, limit]
            simp only [UInt32.reduceToNat]
            omega
          · rfl
        rw [longer, target]
        omega
    refine .inr ⟨id, map, got, ?_, free, ⟨maxid, sized.1, sized.2⟩, marked⟩
    rcases length with ⟨inside, -⟩ | ⟨same, less, -⟩ <;> omega

end Pool

namespace TagRun

variable {s s' : TagRun} {before before' : Option ℕ} {req : ℕ}
  {kept : Multiset UInt32}

/-! ## The ledger of the tags -/

/-- The outstanding tags are the ones in `kept`, and the bitmap has their bits. -/
structure Ledger (s : TagRun) (kept : Multiset UInt32) : Prop where
  tags : s.outstanding.val = kept
  whole : s.pool.Whole
  bits : ∀ k, Bitmap.holds s.pool.map k ↔ ∃ id ∈ s.outstanding, id.toNat = k
  proper : s.misused = false

theorem Ledger.put {tag : UInt16} (ledger : s.Ledger (tag.toUInt32 ::ₘ kept)) :
    (s.put tag).Ledger kept := by
  obtain ⟨tags, whole, bits, proper⟩ := ledger
  have member : tag.toUInt32 ∈ s.outstanding := by
    rw [← Finset.mem_val, tags]
    exact Multiset.mem_cons_self _ _
  have bit : Bitmap.holds s.pool.map tag.toUInt32.toNat := (bits _).mpr ⟨_, member, rfl⟩
  have inside : tag.toUInt32.toNat < 8 * s.pool.map.length := by
    by_contra outside
    rw [Bitmap.holds_of_ge (not_lt.mp outside)] at bit
    cases bit
  refine ⟨?_, whole.put _, fun k => ?_, ?_⟩
  · rw [TagRun.put, Finset.erase_val, tags, Multiset.erase_cons_head]
  · rw [TagRun.put, npcPutId_eq, Bitmap.holds_clear inside, Bool.and_eq_true, decide_eq_true_eq,
      bits]
    constructor
    · rintro ⟨other, id, known, rfl⟩
      exact ⟨id, Finset.mem_erase.mpr ⟨fun same => other (congrArg _ same), known⟩, rfl⟩
    · rintro ⟨id, known, rfl⟩
      obtain ⟨other, known⟩ := Finset.mem_erase.mp known
      exact ⟨fun same => other (UInt32.toNat_inj.mp same), id, known, rfl⟩
  · have byte : (tag.toUInt32 / 8).toNat < s.pool.msize := by
      rw [UInt32.toNat_div, Npcpool.msize]
      simp only [UInt32.reduceToNat]
      omega
    simp only [TagRun.put, proper, Bool.false_or, Bool.not_eq_false', decide_eq_true_eq]
    exact ⟨member, byte⟩

/-- A thread waits, or gets a tag that nobody has. -/
theorem Ledger.get (ledger : s.Ledger kept) (memory : Bool) : npcGetId s.pool memory =
      (none, s.pool) ∨
    ∃ id pool, npcGetId s.pool memory = (some id, pool) ∧ id.toUInt16.toUInt32 = id ∧
      Ledger { s with pool, outstanding := insert id s.outstanding } (id ::ₘ kept) := by
  obtain ⟨tags, whole, bits, proper⟩ := ledger
  refine (npcGetId_tag whole memory).imp_right ?_
  rintro ⟨id, map, got, small, free, whole', marked⟩
  have fresh : id ∉ s.outstanding := fun known =>
    Bool.false_ne_true (free.symm.trans ((bits _).mpr ⟨id, known, rfl⟩))
  refine ⟨id, _, got, ?_, ?_, whole', fun k => ?_, proper⟩
  · apply UInt32.toNat_inj.mp
    rw [UInt16.toNat_toUInt32, UInt32.toNat_toUInt16, Nat.mod_eq_of_lt small]
  · rw [Finset.insert_val_of_notMem fresh, tags]
  · rw [marked, Bool.or_eq_true, decide_eq_true_eq, bits, Finset.exists_mem_insert, eq_comm]

/-! ## The invariant -/

/-- The requests that may have a tag. -/
def places (s : TagRun) : Multiset ℕ :=
  ↑s.made + ↑s.client.queued + ↑s.client.taken + ↑s.answered + ↑s.cancelled

/-- The tags that some requests have. -/
def held (version : ℕ → Bool) (tag : ℕ → UInt16) (reqs : Multiset ℕ) : Multiset UInt32 :=
  (reqs.filter fun req => version req = false).map fun req => (tag req).toUInt32

/-- The tags that requests have. -/
def ids (s : TagRun) : Multiset UInt32 := held s.version s.client.fs.tag s.places

/-- The outstanding tags are the ones that requests have, and no request is flushed. -/
structure Sound (s : TagRun) (before : Option ℕ) : Prop where
  client : s.client.Sound before
  unflushed : ∀ req, s.client.fs.flushed req = false
  ledger : s.Ledger s.ids

theorem sound_start : start.Sound none where
  client := Client.sound_start
  unflushed _ := rfl
  ledger := by
    refine ⟨rfl, whole_create, fun k => ?_, rfl⟩
    have empty : Bitmap.holds start.pool.map k = false := Bitmap.holds_zeros 32
    simp only [empty]
    simp [start]

/-- A request is at another place. -/
theorem Sound.moved (sound : s.Sound before) (client : s'.client.Sound before')
    (places : s'.places = s.places) (tag : s'.client.fs.tag = s.client.fs.tag)
    (flushed : s'.client.fs.flushed = s.client.fs.flushed) (version : s'.version = s.version)
    (outstanding : s'.outstanding = s.outstanding) (pool : s'.pool = s.pool)
    (misused : s'.misused = s.misused) : s'.Sound before' := by
  obtain ⟨tags, whole, bits, proper⟩ := sound.ledger
  refine ⟨client, fun req => flushed ▸ sound.unflushed req, ?_, pool ▸ whole, fun k => ?_,
    misused ▸ proper⟩
  · rw [outstanding, tags, ids, ids, places, tag, version]
  · rw [pool, outstanding, bits]

/-- A list without one of its elements. -/
theorem erase_add {l : List ℕ} (member : req ∈ l) :
    (↑(l.erase req) : Multiset ℕ) + {req} = ↑l := by
  rw [← Multiset.coe_erase, add_comm, Multiset.singleton_add, Multiset.cons_erase member]

section Held

variable {version : ℕ → Bool} {tag : ℕ → UInt16} {reqs : Multiset ℕ}

theorem held_cons (tagged : version req = false) :
    held version tag (req ::ₘ reqs) = (tag req).toUInt32 ::ₘ held version tag reqs := by
  rw [held, held, Multiset.filter_cons_of_pos (p := fun req => version req = false) reqs tagged,
    Multiset.map_cons]

theorem held_cons_of_version (version' : version req = true) :
    held version tag (req ::ₘ reqs) = held version tag reqs := by
  have untagged : ¬ version req = false := by simp [version']
  rw [held, held, Multiset.filter_cons_of_neg (p := fun req => version req = false) reqs untagged]

theorem held_add_of_version {l : List ℕ} (versions : ∀ q ∈ l, version q = true) :
    held version tag (↑l + reqs) = held version tag reqs := by
  induction l with
  | nil => rw [Multiset.coe_nil, zero_add]
  | cons req rest ih =>
      rw [← Multiset.cons_coe, Multiset.cons_add,
        held_cons_of_version (versions req List.mem_cons_self)]
      exact ih fun q member => versions q (List.mem_cons_of_mem _ member)

/-- The fields of other requests do not matter. -/
theorem held_congr {version' : ℕ → Bool} {tag' : ℕ → UInt16}
    (same : ∀ q ∈ reqs, version' q = version q ∧ tag' q = tag q) :
    held version' tag' reqs = held version tag reqs := by
  have filtered : (reqs.filter fun q => version' q = false) =
      reqs.filter fun q => version q = false :=
    Multiset.filter_congr fun q member => by rw [(same q member).1]
  rw [held, held, filtered]
  refine Multiset.map_congr rfl fun q member => ?_
  rw [(same q (Multiset.mem_filter.mp member).1).2]

end Held

/-- A request that is made has its tag. -/
theorem Sound.make {tag : UInt16} {fid : UInt32} {version : Bool} (client : s.client.Sound before)
    (unflushed : ∀ req, s.client.fs.flushed req = false) (fresh : req ∉ s.places)
    (ledger : s.Ledger (if version then s.ids else tag.toUInt32 ::ₘ s.ids)) :
    (s.make req tag fid version).Sound before := by
  obtain ⟨⟨unsent, first, last, empty, pending, apart⟩, short⟩ := client
  obtain ⟨tags, whole, bits, proper⟩ := ledger
  have places : (s.make req tag fid version).places = req ::ₘ s.places := by
    simp only [TagRun.places, TagRun.make, ← Multiset.cons_coe, Multiset.cons_add]
  have others : held (Function.update s.version req version)
      (Function.update s.client.fs.tag req tag) s.places = s.ids := by
    refine held_congr fun q member => ?_
    have other := ne_of_mem_of_not_mem member fresh
    exact ⟨Function.update_of_ne other .., Function.update_of_ne other ..⟩
  have ids : (s.make req tag fid version).ids =
      if version then s.ids else tag.toUInt32 ::ₘ s.ids := by
    have parts : (s.make req tag fid version).ids = held (Function.update s.version req version)
        (Function.update s.client.fs.tag req tag) (req ::ₘ s.places) := by
      rw [TagRun.ids, places]
      rfl
    rw [parts]
    cases version with
    | true => rw [held_cons_of_version (Function.update_self ..), others, if_pos rfl]
    | false =>
        rw [held_cons (Function.update_self ..), others, if_neg Bool.false_ne_true,
          Function.update_self]
  exact ⟨⟨⟨unsent, first, last, empty, pending, apart⟩, short⟩, unflushed,
    ⟨tags.trans ids.symm, whole, bits, proper⟩⟩

/-- A thread is done with a request, and puts its tag back. -/
theorem Sound.put {rest : Multiset ℕ} (sound : s.Sound before) (split : s.places = rest + {req})
    (tagged : s.version req = false) :
    (s.put (s.client.fs.tag req)).Ledger (held s.version s.client.fs.tag rest) := by
  have ledger := sound.ledger
  rw [ids, split, add_comm, Multiset.singleton_add, held_cons tagged] at ledger
  exact ledger.put

theorem not_mem_places (fresh : req ∉ s.used) : req ∉ s.places := by
  simp only [used, List.mem_append, not_or] at fresh
  simp only [places, Multiset.mem_add, Multiset.mem_coe, not_or]
  exact fresh.1

theorem Sound.get {fid : UInt32} {version memory : Bool} (sound : s.Sound before)
    (taken : s.step (.get req fid version memory) = some s') : s'.Sound before := by
  simp only [TagRun.step] at taken
  split_ifs at taken with refused named
  · obtain rfl := Option.some.inj taken
    exact .make sound.client sound.unflushed (not_mem_places fun mem => refused (.inr mem))
      sound.ledger
  · rcases sound.ledger.get memory with waits | ⟨id, pool, got, same, ledger⟩
    · rw [waits] at taken
      obtain rfl := Option.some.inj taken
      exact sound
    · rw [got] at taken
      obtain rfl := Option.some.inj taken
      refine .make sound.client sound.unflushed (not_mem_places fun mem => refused (.inr mem)) ?_
      rw [if_neg Bool.false_ne_true, same]
      exact ledger

theorem Sound.queue (sound : s.Sound before) (taken : s.step (.queue req) = some s') :
    s'.Sound before := by
  simp only [TagRun.step] at taken
  split_ifs at taken with member
  obtain ⟨client, run, rfl⟩ := Option.map_eq_some_iff.mp taken
  simp only [Client.step] at run
  split_ifs at run with known
  obtain rfl := Option.some.inj run
  have client := sound.client.rpcnb (s.client.fs.tag req) (s.client.fs.fid req)
    (fun mem => known (.inl mem)) fun mem => known (.inr mem)
  refine sound.moved client ?_ (Function.update_eq_self ..) ?_ rfl rfl rfl rfl
  · simp only [places, ← Multiset.coe_add, Multiset.coe_singleton, ← erase_add member]
    abel
  · exact Function.update_eq_self_iff.mpr (sound.unflushed req).symm

theorem Sound.write (sound : s.Sound before) (taken : s.step .write = some s') :
    ∃ before', s'.Sound before' := by
  cases queued : s.client.queued with
  | nil =>
      have first := sound.client.shaped.first
      rw [queued] at first
      simp [TagRun.step, Client.step, first] at taken
  | cons req rest =>
      obtain ⟨found, client⟩ := sound.client.write queued
      obtain ⟨client', run, rfl⟩ := Option.map_eq_some_iff.mp taken
      simp only [Client.step, found] at run
      split_ifs at run
      obtain rfl := Option.some.inj run
      refine ⟨_, sound.moved client ?_ rfl rfl rfl rfl rfl rfl⟩
      simp only [places, queued, List.erase_cons_head, ← Multiset.cons_coe, Multiset.cons_add,
        Multiset.add_cons]

theorem Sound.read {tag : UInt16} (sound : s.Sound before)
    (taken : s.step (.read tag) = some s') : s'.Sound before := by
  simp only [TagRun.step] at taken
  rcases sound.client.read tag with ⟨same, none'⟩ | ⟨preq, req, member, found, answered, client⟩
  · rw [same, none'] at taken
    obtain rfl := Option.some.inj taken
    exact sound
  · rw [answered, found] at taken
    obtain rfl := Option.some.inj taken
    refine sound.moved client ?_ rfl rfl rfl rfl rfl rfl
    simp only [places, Option.toList_some, ← Multiset.coe_add, Multiset.coe_singleton,
      ← erase_add member]
    abel

theorem Sound.reply (sound : s.Sound before) (tagged : s.version req = false)
    (taken : s.step (.reply req) = some s') : s'.Sound before := by
  simp only [TagRun.step, sound.unflushed req, Bool.false_eq_true, if_false] at taken
  split_ifs at taken with member
  obtain rfl := Option.some.inj taken
  have split : s.places = (↑s.made + ↑s.client.queued + ↑s.client.taken + ↑(s.answered.erase req) +
      ↑s.cancelled) + {req} := by
    simp only [places, ← erase_add member]
    abel
  obtain ⟨tags, whole, bits, proper⟩ := sound.put split tagged
  exact ⟨sound.client, sound.unflushed, ⟨tags, whole, bits, proper⟩⟩

theorem Sound.refuse (sound : s.Sound before) (tagged : s.version req = false)
    (taken : s.step (.refuse req) = some s') : s'.Sound before := by
  simp only [TagRun.step] at taken
  split_ifs at taken with member
  obtain rfl := Option.some.inj taken
  have split : s.places = (↑s.made + ↑s.client.queued + ↑s.client.taken + ↑s.answered +
      ↑(s.cancelled.erase req)) + {req} := by
    simp only [places, ← erase_add member]
    abel
  obtain ⟨tags, whole, bits, proper⟩ := sound.put split tagged
  exact ⟨sound.client, sound.unflushed, ⟨tags, whole, bits, proper⟩⟩

/-- No pending request is flushed, and the unsent ones are refused later. -/
theorem Sound.cancel {fid : UInt32} {memory : Bool} (sound : s.Sound before)
    (careful : s.Careful (.cancel fid memory)) (taken : s.step (.cancel fid memory) = some s') :
    s'.Sound before := by
  obtain ⟨others, remembered, head⟩ := careful
  have free : before = none ∨ ∀ p, s.client.queued.head? = some p → s.client.fs.fid p ≠ fid := by
    refine or_iff_not_imp_left.mpr fun stale p first named => stale ?_
    obtain ⟨rest, queued⟩ := List.head?_eq_some_iff.mp first
    have joined := sound.client.shaped.unsent
    rw [queued] at joined
    rw [← joined.1]
    exact head p (sound.client.shaped.first.trans first) named
  obtain ⟨fs', ureqs, done, client, chain, tag, -, -, flushed⟩ := sound.client.cancel fid free
  have short := sound.client.short
  have fewer := List.length_filter_le (fun q => decide (s.client.fs.fid q = fid)) s.client.queued
  have turns : (s.client.queued.filter fun q => s.client.fs.fid q = fid).reverse.length ≤
      s.client.turns := by
    rw [List.length_reverse]
    omega
  have walked := LinkedChain.walk_of_path chain turns
  simp only [TagRun.step, Client.step, done, Option.map_some, Option.bind_eq_bind,
    Option.bind_some, walked] at taken
  obtain rfl := Option.some.inj taken
  refine sound.moved client ?_ tag ?_ rfl rfl rfl rfl
  · have split := Multiset.filter_add_not (fun q => s.client.fs.fid q = fid)
      (s.client.queued : Multiset ℕ)
    simp only [Multiset.filter_coe] at split
    have removed : (↑((if memory then (s.client.queued.filter fun q =>
        s.client.fs.fid q = fid).reverse else []) ++ s.cancelled) : Multiset ℕ) =
        ↑(s.client.queued.filter fun q => s.client.fs.fid q = fid) + ↑s.cancelled := by
      rw [← Multiset.coe_add]
      split_ifs with memory'
      · rw [Multiset.coe_reverse]
      · have none' := remembered.resolve_left memory'
        rw [List.filter_eq_nil_iff.mpr fun q member => by simpa using none' q member]
    simp only [places, removed]
    rw [← split]
    abel
  · have unnamed : (s.client.taken.filter fun q => s.client.fs.fid q = fid) = [] :=
      List.filter_eq_nil_iff.mpr fun q member => by simpa using others q member
    rw [flushed, unnamed]
    simp

/-- Only a Tversion may be left. -/
theorem Sound.lost (sound : s.Sound before) (careful : s.Careful .lost)
    (taken : s.step .lost = some s') : s'.Sound none := by
  obtain ⟨none', versions⟩ := careful
  have client := sound.client.lost none'
  have short := sound.client.short
  have pend : s.client.taken.length ≤ s.client.turns := by omega
  have walked := LinkedChain.walk_of_path sound.client.shaped.pending pend
  have unsent : LinkedChain.walk s.client.fs.links.next s.client.turns none = some [] := by
    cases s.client.turns <;> rfl
  have alone : s.client.queued = [] := by
    have first := sound.client.shaped.first
    rw [none'] at first
    exact List.head?_eq_none_iff.mp first.symm
  simp only [TagRun.step, Client.step, none', unsent, walked, Option.bind_eq_bind,
    Option.bind_some] at taken
  obtain rfl := Option.some.inj taken
  obtain ⟨tags, whole, bits, proper⟩ := sound.ledger
  refine ⟨client, sound.unflushed, ⟨?_, whole, bits, proper⟩⟩
  have split : s.places = ↑s.client.taken + (↑s.made + ↑s.answered + ↑s.cancelled) := by
    simp only [places, alone, Multiset.coe_nil]
    abel
  have left : (↑s.made + ↑([] : List ℕ) + ↑([] : List ℕ) + ↑s.answered + ↑s.cancelled :
      Multiset ℕ) = ↑s.made + ↑s.answered + ↑s.cancelled := by
    simp only [Multiset.coe_nil]
    abel
  rw [tags, ids, split, held_add_of_version versions, ids, places, left]
  rfl

theorem Sound.step {label : TagStep} (sound : s.Sound before) (careful : s.Careful label)
    (taken : s.step label = some s') : ∃ before', s'.Sound before' := by
  cases label with
  | get req fid version memory => exact ⟨_, sound.get taken⟩
  | queue req => exact ⟨_, sound.queue taken⟩
  | write => exact sound.write taken
  | read tag => exact ⟨_, sound.read taken⟩
  | reply req => exact ⟨_, sound.reply careful taken⟩
  | cancel fid memory => exact ⟨_, sound.cancel careful taken⟩
  | refuse req => exact ⟨_, sound.refuse careful taken⟩
  | close =>
      obtain rfl := Option.some.inj taken
      obtain ⟨⟨unsent, first, last, empty, pending, apart⟩, short⟩ := sound.client
      exact ⟨_, sound.moved ⟨⟨unsent, first, last, empty, pending, apart⟩, short⟩ rfl rfl rfl rfl
        rfl rfl rfl⟩
  | lost => exact ⟨_, sound.lost careful taken⟩
  | abort req =>
      simp only [TagRun.step] at taken
      split_ifs at taken
      obtain rfl := Option.some.inj taken
      exact ⟨_, sound.moved sound.client rfl rfl rfl rfl rfl rfl rfl⟩

theorem Sound.conserved (sound : s.Sound before) : s.Conserved where
  proper := sound.ledger.proper
  returned := by
    rintro ⟨queued, pending, made, answered, cancelled, -⟩
    have empty : s.outstanding = ∅ := by
      rw [← Finset.val_eq_zero, sound.ledger.tags, ids, places, queued, pending, made, answered,
        cancelled]
      rfl
    refine ⟨empty, fun k => ?_⟩
    rw [← Bool.not_eq_true, sound.ledger.bits, empty]
    simp

/-- The tags are conserved in each run that is careful. -/
theorem conserved_of_run (run : Transition.Reaches step Careful start s) : s.Conserved := by
  have sound : ∃ before, s.Sound before := by
    refine Transition.Reaches.invariant (fun s => ∃ before, s.Sound before) ⟨_, sound_start⟩ ?_ run
    rintro s next label ⟨before, sound⟩ careful taken
    exact sound.step careful taken
  obtain ⟨before, sound⟩ := sound
  exact sound.conserved

/-- A version, as it is negotiated. -/
def negotiation : List TagStep :=
  [.get 0 0 true true, .queue 0, .write, .read notag, .reply 0]

/-- A request is answered, and another one is cancelled before it is sent. -/
def exchange : List TagStep :=
  [.get 0 7 false true, .queue 0, .write, .get 1 8 false true, .queue 1, .cancel 8 true, .read 0,
    .refuse 1, .reply 0]

instance (s : TagRun) : DecidablePred s.Careful
  | .reply req | .refuse req => inferInstanceAs (Decidable (s.version req = false))
  | .cancel fid memory => inferInstanceAs (Decidable ((∀ req ∈ s.client.taken,
      s.client.fs.fid req ≠ fid) ∧ (memory = true ∨ ∀ req ∈ s.client.queued,
        s.client.fs.fid req ≠ fid) ∧ ∀ req ∈ s.client.fs.unsentFirst, s.client.fs.fid req = fid →
          s.client.fs.links.prev req = none))
  | .lost => inferInstanceAs (Decidable (s.client.fs.unsentFirst = none ∧
      ∀ req ∈ s.client.taken, s.version req))
  | .get _ _ _ _ | .queue _ | .write | .read _ | .close | .abort _ =>
    inferInstanceAs (Decidable True)

/-- The tag of a Tversion is put, although it was not obtained. -/
theorem not_conserved_of_run : ¬ ∀ s : TagRun,
    Transition.Reaches step (fun _ _ => True) start s → s.Conserved := by
  intro all
  have played : (Transition.play step (fun _ _ => True) start negotiation).map (·.misused) =
      some true := by
    decide +kernel
  obtain ⟨s, run, misused⟩ := Option.map_eq_some_iff.mp played
  have proper := (all s (Transition.reaches_of_play run)).proper
  rw [misused] at proper
  cases proper

theorem conserved_exchange : ∃ s : TagRun, s.client.turns = 2 ∧ s.answered = [] ∧ s.cancelled = [] ∧
    s.Conserved := by
  have played : (Transition.play step Careful start exchange).map
      (fun s => (s.client.turns, s.answered, s.cancelled)) = some (2, [], []) := by
    decide +kernel
  obtain ⟨s, run, left⟩ := Option.map_eq_some_iff.mp played
  obtain ⟨turns, answered, cancelled⟩ : s.client.turns = 2 ∧ s.answered = [] ∧
      s.cancelled = [] := by
    simpa using left
  exact ⟨s, turns, answered, cancelled, conserved_of_run (Transition.reaches_of_play run)⟩

end TagRun

end Npfs
