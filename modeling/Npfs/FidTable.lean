import Npfs.DoublyLinked
import Npfs.Session

/-!
# The hash table of fids

`libnpfs/fidpool.c`: each bucket of the table is a doubly linked list, and a lookup moves what it
finds to the front of its bucket.  `Numbers` is what the table is for, a map from numbers to fids.
-/

namespace Npfs

open DoublyLinked

/-- `FID_HTABLE_SIZE`. -/
def FID_HTABLE_SIZE : Nat := 64

/-- `Npfidpool`, with the fields of its fids that place them. -/
structure Npfidpool where
  size : Nat
  htable : Nat → Option FidPtr
  fid : FidPtr → UInt32
  links : Links FidPtr
  /-- History: how many fids were made.  No bucket is longer. -/
  made : Nat

namespace Npfidpool

/-- `np_fidpool_create`, on whatever the memory of later fids holds. -/
def npFidpoolCreate (fid : FidPtr → UInt32) (links : Links FidPtr) : Npfidpool where
  size := FID_HTABLE_SIZE
  htable _ := none
  fid := fid
  links := links
  made := 0

variable (fp : Npfidpool)

/-- `htable[hash] = f`. -/
def setHead (hash : Nat) (f : Option FidPtr) : Npfidpool :=
  { fp with htable := Function.update fp.htable hash f }

/-- The links after `f->next->prev = f->prev` and `f->prev->next = f->next`. -/
def unlinkBackward (f : FidPtr) : Links FidPtr :=
  let l := fp.links.setPrev (fp.links.next f) (fp.links.prev f)
  l.setNext (l.prev f) (l.next f)

/-- The relinking in `np_fid_lookup` of a fid that is not the first of its bucket. -/
def moveToFront (hash : Nat) (f : FidPtr) : Npfidpool :=
  let l := fp.unlinkBackward f
  let l := l.setPrev (some f) none
  let l := l.setNext (some f) (fp.htable hash)
  let l := l.setPrev (fp.htable hash) (some f)
  { fp with links := l }.setHead hash (some f)

/-- `np_fid_lookup`; `none` when the loop does not end, or follows a null `prev`. -/
def npFidLookup (fid : UInt32) (hash : Nat) : Option (Option FidPtr × Npfidpool) := do
  let f ← LinkedChain.search fp.links.next (fp.fid · = fid) fp.made (fp.htable hash)
  if f = none ∨ f = fp.htable hash then
    return (f, fp)
  else
    let f ← f
    let _ ← fp.links.prev f
    return (some f, fp.moveToFront hash f)

/-- `np_fid_find`. -/
def npFidFind (fid : UInt32) : Option (Option FidPtr × Npfidpool) :=
  fp.npFidLookup fid (fid.toNat % fp.size)

/-- The fid that `np_fid_create` makes at `f`, in front of its bucket. -/
def insert (hash : Nat) (f : FidPtr) (fid : UInt32) : Npfidpool :=
  let l := fp.links.setNext (some f) (fp.htable hash)
  let l := l.setPrev (some f) none
  let l := l.setPrev (fp.htable hash) (some f)
  { fp with
    fid := Function.update fp.fid f fid
    links := l
    made := fp.made + 1 }.setHead hash (some f)

/-- `np_fid_create`, where `np_malloc` returns `memory`. -/
def npFidCreate (fid : UInt32) (memory : Option FidPtr) : Option (Option FidPtr × Npfidpool) := do
  let hash := fid.toNat % FID_HTABLE_SIZE
  let (f, fp) ← fp.npFidLookup fid hash
  if f = none then
    return (memory, memory.elim fp fun f => fp.insert hash f fid)
  else
    return (f, fp)

/-- The part of `np_fid_destroy` under the lock of the pool. -/
def npFidDestroy (f : FidPtr) : Npfidpool :=
  let fp' := { fp with links := fp.links.unlink f }
  if fp.links.prev f = none then
    fp'.setHead ((fp.fid f).toNat % fp.size) (fp.links.next f)
  else fp'

end Npfidpool

/-- A call of the functions that find, make and unlink fids. -/
inductive FidCall where
  | find (fid : UInt32)
  | create (fid : UInt32) (memory : Option FidPtr)
  | destroy (f : FidPtr)

/-- Run one call on the table. -/
def Npfidpool.call (fp : Npfidpool) : FidCall → Option (Option FidPtr × Npfidpool)
  | .find fid => fp.npFidFind fid
  | .create fid memory => fp.npFidCreate fid memory
  | .destroy f => some (none, fp.npFidDestroy f)

/-! ## What the table is for -/

/-- The live fids by number. -/
abbrev Numbers := UInt32 → Option FidPtr

namespace Numbers

variable (m : Numbers)

/-- A pointer to a live fid. -/
def Live (f : FidPtr) : Prop := ∃ fid, m fid = some f

/-- `np_malloc` returns no memory that is in use, and only live fids are destroyed. -/
def Proper : FidCall → Prop
  | .find _ => True
  | .create _ memory => ∀ f, memory = some f → ¬ m.Live f
  | .destroy f => m.Live f

/-- One call on the map: its result, and the map behind it. -/
def call : FidCall → Option FidPtr × Numbers
  | .find fid => (m fid, m)
  | .create fid memory =>
    if m fid = none then (memory, Function.update m fid memory) else (m fid, m)
  | .destroy f => (none, fun fid => if m fid = some f then none else m fid)

end Numbers

/-! ## One call -/

namespace Npfidpool

/-- The table holds the fids of the map, in these buckets. -/
structure Represents (fp : Npfidpool) (m : Numbers) (buckets : Nat → List FidPtr) : Prop where
  size : fp.size = FID_HTABLE_SIZE
  head : ∀ hash, fp.htable hash = (buckets hash).head?
  joined : ∀ hash, Joined fp.links none (buckets hash)
  short : ∀ hash, (buckets hash).length ≤ fp.made
  mem : ∀ f hash, f ∈ buckets hash ↔
    (fp.fid f).toNat % FID_HTABLE_SIZE = hash ∧ m (fp.fid f) = some f
  number : ∀ fid f, m fid = some f → fp.fid f = fid

section Links

variable (fp : Npfidpool) (f q : FidPtr) (hash : Nat)

theorem unlinkBackward_eq : fp.unlinkBackward f = fp.links.unlink f := Links.unlink_comm f

theorem moveToFront_next : (fp.moveToFront hash f).links.next q =
    if f = q then fp.htable hash else (fp.links.unlink f).next q := by
  simp [moveToFront, setHead, Links.next_setNext, unlinkBackward_eq]

theorem moveToFront_prev : (fp.moveToFront hash f).links.prev q =
    if fp.htable hash = some q then some f
    else if f = q then none else (fp.links.unlink f).prev q := by
  simp [moveToFront, setHead, Links.prev_setPrev, unlinkBackward_eq]

theorem insert_next (fid : UInt32) : (fp.insert hash f fid).links.next q =
    if f = q then fp.htable hash else fp.links.next q := by
  simp [insert, setHead, Links.next_setNext]

theorem insert_prev (fid : UInt32) : (fp.insert hash f fid).links.prev q =
    if fp.htable hash = some q then some f
    else if f = q then none else fp.links.prev q := by
  simp [insert, setHead, Links.prev_setPrev]

theorem insert_fid (fid : UInt32) :
    (fp.insert hash f fid).fid = Function.update fp.fid f fid := rfl

theorem links_npFidDestroy : (fp.npFidDestroy f).links = fp.links.unlink f := by
  unfold npFidDestroy
  split_ifs <;> rfl

theorem fid_npFidDestroy : (fp.npFidDestroy f).fid = fp.fid := by
  unfold npFidDestroy
  split_ifs <;> rfl

theorem made_npFidDestroy : (fp.npFidDestroy f).made = fp.made := by
  unfold npFidDestroy
  split_ifs <;> rfl

theorem size_npFidDestroy : (fp.npFidDestroy f).size = fp.size := by
  unfold npFidDestroy
  split_ifs <;> rfl

end Links

namespace Represents

variable {fp fp' : Npfidpool} {m m' : Numbers} {buckets : Nat → List FidPtr} {hash : Nat}
  {fid : UInt32} {f : FidPtr}

theorem mem_of_live (rep : fp.Represents m buckets) (live : m fid = some f) :
    f ∈ buckets (fid.toNat % FID_HTABLE_SIZE) := by
  have number := rep.number fid f live
  rw [rep.mem, number]
  exact ⟨rfl, live⟩

/-- A bucket is relinked, and the others are left alone. -/
theorem change (rep : fp.Represents m buckets) {b : List FidPtr} (size : fp'.size = fp.size)
    (made : fp.made ≤ fp'.made) (htable : fp'.htable = Function.update fp.htable hash b.head?)
    (joined : Joined fp'.links none b) (short : b.length ≤ fp'.made)
    (away : ∀ q, ∀ other ≠ hash, q ∈ buckets other → fp'.links.next q = fp.links.next q ∧
      fp'.links.prev q = fp.links.prev q ∧ fp'.fid q = fp.fid q)
    (mem : ∀ f, f ∈ b ↔ (fp'.fid f).toNat % FID_HTABLE_SIZE = hash ∧ m' (fp'.fid f) = some f)
    (kept : ∀ fid : UInt32, fid.toNat % FID_HTABLE_SIZE ≠ hash → m' fid = m fid)
    (number : ∀ fid f, m' fid = some f → fp'.fid f = fid) :
    fp'.Represents m' (Function.update buckets hash b) where
  size := size.trans rep.size
  head := by
    intro other
    rw [htable]
    by_cases same : other = hash
    · subst same
      simp
    · simp [same, rep.head]
  joined := by
    intro other
    by_cases same : other = hash
    · subst same
      simpa using joined
    · rw [Function.update_of_ne same]
      exact (rep.joined other).congr (fun q mem => (away q other same mem).1)
        fun q mem => (away q other same mem).2.1
  short := by
    intro other
    by_cases same : other = hash
    · subst same
      simpa using short
    · rw [Function.update_of_ne same]
      exact (rep.short other).trans made
  mem := by
    intro f other
    by_cases same : other = hash
    · subst same
      simpa using mem f
    · rw [Function.update_of_ne same]
      constructor
      · intro within
        obtain ⟨rfl, live⟩ := (rep.mem f other).mp within
        rw [(away f _ same within).2.2]
        exact ⟨rfl, (kept _ same).trans live⟩
      · rintro ⟨rfl, live⟩
        rw [kept _ same] at live
        exact rep.mem_of_live live
  number := number

/-- What is in one bucket is in no other. -/
theorem apart (rep : fp.Represents m buckets) {other : Nat} (distinct : other ≠ hash)
    (within : f ∈ buckets other) : f ∉ buckets hash := by
  intro member
  exact distinct (((rep.mem f other).mp within).1.symm.trans ((rep.mem f hash).mp member).1)

/-- The loop of `np_fid_lookup` ends, and finds the fid of the number. -/
theorem search_eq (rep : fp.Represents m buckets) (fid : UInt32) :
    LinkedChain.search fp.links.next (fp.fid · = fid) fp.made
      (fp.htable (fid.toNat % FID_HTABLE_SIZE)) = some (m fid) := by
  rw [rep.head, LinkedChain.search_of_path (rep.joined _).path (rep.short _)]
  congr 1
  cases found : (buckets (fid.toNat % FID_HTABLE_SIZE)).find? (fp.fid · = fid) with
  | none =>
      cases live : m fid with
      | none => rfl
      | some f =>
          have number := rep.number fid f live
          exact absurd number (by simpa using List.find?_eq_none.mp found f (rep.mem_of_live live))
  | some f =>
      obtain rfl : fp.fid f = fid := by simpa using List.find?_some found
      exact ((rep.mem f _).mp (List.mem_of_find?_eq_some found)).2.symm

/-- What a bucket does not hold, the links of its fids do not lead to. -/
theorem links_within (rep : fp.Represents m buckets) (within : f ∈ buckets hash) :
    (∀ q, fp.links.next f = some q → q ∈ buckets hash) ∧
      ∀ q, fp.links.prev f = some q → q ∈ buckets hash := by
  obtain ⟨front, back, split⟩ := List.append_of_mem within
  have whole := rep.joined hash
  rw [split] at whole ⊢
  obtain ⟨prev, next⟩ := whole.at_
  constructor
  · intro q link
    rw [next] at link
    exact List.mem_append_right _ (List.mem_cons_of_mem _ (List.mem_of_head? link))
  · intro q link
    rw [prev, Option.or_none] at link
    exact List.mem_append_left _ (List.mem_of_getLast? link)

theorem moveToFront (rep : fp.Represents m buckets) {front back : List FidPtr} {first : FidPtr}
    (split : buckets hash = first :: front ++ f :: back) :
    (fp.moveToFront hash f).Represents m
      (Function.update buckets hash (f :: (first :: front ++ back))) := by
  have whole := rep.joined hash
  have head : fp.htable hash = some first := by rw [rep.head, split]; rfl
  have within : f ∈ buckets hash := by simp [split]
  have links := rep.links_within within
  rw [split] at whole
  have once := whole.nodup
  have other : first ≠ f := by
    rintro rfl
    simp at once
  have absent : ∀ q ∈ first :: front ++ back, f ≠ q := by
    rintro q mem rfl
    rw [List.nodup_append] at once
    grind -linarith
  have order : ∀ q, q ∈ f :: (first :: front ++ back) ↔ q ∈ buckets hash := by
    intro q
    rw [split]
    grind -linarith
  have shorter := whole.removed
  refine rep.change rfl le_rfl (by simp [Npfidpool.moveToFront, setHead]) ?_ ?_ ?_ ?_ ?_ ?_
  · refine shorter.push ?_ (fun q mem => ?_) fun q mem => ?_
    · simp [moveToFront_next, moveToFront_prev, head, other]
    · rw [moveToFront_next, if_neg (absent q mem)]
    · rw [moveToFront_prev, if_neg (absent q mem), head]
      rfl
  · have short := rep.short hash
    rw [split] at short
    simp only [List.length_append, List.length_cons] at short ⊢
    exact le_of_eq_of_le (by omega) short
  · intro q bucket distinct mem
    have outside := rep.apart distinct mem
    have ahead : fp.htable hash ≠ some q := by
      rintro same
      rw [rep.head] at same
      exact outside (List.mem_of_head? same)
    have next : fp.links.next f ≠ some q := fun link => outside (links.1 q link)
    have prev : fp.links.prev f ≠ some q := fun link => outside (links.2 q link)
    have self : f ≠ q := fun same => outside (same ▸ within)
    refine ⟨?_, ?_, rfl⟩
    · rw [moveToFront_next, if_neg self, Links.next_unlink, if_neg prev]
    · rw [moveToFront_prev, if_neg ahead, if_neg self, Links.prev_unlink, if_neg next]
  · intro q
    rw [order]
    exact rep.mem q hash
  · exact fun _ _ => rfl
  · exact rep.number

/-- `np_fid_lookup` finds what the map holds, and keeps the table in order. -/
theorem npFidLookup (rep : fp.Represents m buckets) (fid : UInt32) :
    ∃ fp' buckets', fp.npFidLookup fid (fid.toNat % FID_HTABLE_SIZE) = some (m fid, fp') ∧
      fp'.Represents m buckets' := by
  have searched := rep.search_eq fid
  cases live : m fid with
  | none =>
      refine ⟨fp, buckets, ?_, rep⟩
      rw [Npfidpool.npFidLookup, searched, live]
      simp
  | some f =>
      rw [Npfidpool.npFidLookup, searched, live]
      by_cases ahead : fp.htable (fid.toNat % FID_HTABLE_SIZE) = some f
      · exact ⟨fp, buckets, by simp [ahead], rep⟩
      · obtain ⟨front, back, split⟩ := List.append_of_mem (rep.mem_of_live live)
        rw [rep.head, split] at ahead
        cases front with
        | nil => exact absurd rfl ahead
        | cons first front =>
            refine ⟨_, _, ?_, rep.moveToFront split⟩
            have whole := rep.joined (fid.toNat % FID_HTABLE_SIZE)
            rw [split] at whole
            have prev := whole.prev_eq
            rw [List.getLast?_cons] at prev
            have behind : first ≠ f := fun same => ahead (same ▸ rfl)
            simp [rep.head, split, behind.symm, prev]

theorem npFidFind (rep : fp.Represents m buckets) (fid : UInt32) :
    ∃ fp' buckets', fp.npFidFind fid = some (m fid, fp') ∧ fp'.Represents m buckets' := by
  rw [Npfidpool.npFidFind, rep.size]
  exact rep.npFidLookup fid

/-- A new fid in front of its bucket. -/
theorem insert (rep : fp.Represents m buckets) (absent : m fid = none) (fresh : ¬ m.Live f) :
    ∃ buckets', (fp.insert (fid.toNat % FID_HTABLE_SIZE) f fid).Represents
      (Function.update m fid (some f)) buckets' := by
  have outside : ∀ hash, ∀ q ∈ buckets hash, f ≠ q := by
    rintro hash q mem rfl
    exact fresh ⟨_, ((rep.mem f hash).mp mem).2⟩
  refine ⟨Function.update buckets (fid.toNat % FID_HTABLE_SIZE)
    (f :: buckets (fid.toNat % FID_HTABLE_SIZE)),
    rep.change rfl (Nat.le_succ _) rfl ?_ ?_ ?_ ?_ ?_ ?_⟩
  · refine (rep.joined _).push ?_ (fun q mem => ?_) fun q mem => ?_
    · have other : fp.htable (fid.toNat % FID_HTABLE_SIZE) ≠ some f := by
        rw [rep.head]
        exact fun same => outside _ f (List.mem_of_head? same) rfl
      refine ⟨?_, ?_⟩
      · rw [insert_prev, if_neg other, if_pos rfl]
      · rw [insert_next, if_pos rfl, rep.head]
    · rw [insert_next, if_neg (outside _ q mem)]
    · rw [insert_prev, if_neg (outside _ q mem), rep.head]
  · exact Nat.succ_le_succ (rep.short _)
  · intro q bucket distinct mem
    have ahead : fp.htable (fid.toNat % FID_HTABLE_SIZE) ≠ some q := by
      rw [rep.head]
      exact fun same => rep.apart distinct mem (List.mem_of_head? same)
    have self := outside bucket q mem
    refine ⟨?_, ?_, Function.update_of_ne self.symm _ _⟩
    · rw [insert_next, if_neg self]
    · rw [insert_prev, if_neg ahead, if_neg self]
  · intro q
    rw [insert_fid, List.mem_cons]
    by_cases self : q = f
    · subst self
      simp
    · rw [Function.update_of_ne self, rep.mem]
      by_cases same : fp.fid q = fid
      · simp [same, absent, self, Ne.symm self]
      · simp [same, self]
  · intro other distinct
    refine Function.update_of_ne (fun same => distinct ?_) _ _
    rw [same]
  · intro other q live
    rw [insert_fid]
    by_cases same : other = fid
    · subst same
      obtain rfl : f = q := by simpa using live
      simp
    · rw [Function.update_of_ne same] at live
      have self : q ≠ f := by
        rintro rfl
        exact fresh ⟨other, live⟩
      rw [Function.update_of_ne self]
      exact rep.number other q live

theorem npFidCreate (rep : fp.Represents m buckets) (fid : UInt32) (memory : Option FidPtr)
    (proper : m.Proper (.create fid memory)) :
    ∃ fp' buckets', fp.npFidCreate fid memory = some ((m.call (.create fid memory)).1, fp') ∧
      fp'.Represents (m.call (.create fid memory)).2 buckets' := by
  obtain ⟨fp', buckets', looked, rep'⟩ := rep.npFidLookup fid
  cases live : m fid with
  | some f =>
      refine ⟨fp', buckets', ?_, ?_⟩
      · simp [Npfidpool.npFidCreate, looked, live, Numbers.call]
      · simpa [live, Numbers.call] using rep'
  | none =>
      cases memory with
      | none =>
          refine ⟨fp', buckets', ?_, ?_⟩
          · simp [Npfidpool.npFidCreate, looked, live, Numbers.call]
          · have same : Function.update m fid none = m := by
              rw [← live, Function.update_eq_self]
            simpa [live, Numbers.call, same] using rep'
      | some f =>
          obtain ⟨buckets'', rep''⟩ := rep'.insert live (proper f rfl)
          refine ⟨fp'.insert (fid.toNat % FID_HTABLE_SIZE) f fid, buckets'', ?_, ?_⟩
          · simp [Npfidpool.npFidCreate, looked, live, Numbers.call]
          · simpa [live, Numbers.call] using rep''

theorem npFidDestroy (rep : fp.Represents m buckets) (live : m.Live f) :
    ∃ buckets', (fp.npFidDestroy f).Represents (m.call (.destroy f)).2 buckets' := by
  obtain ⟨fid, live⟩ := live
  have within := rep.mem_of_live live
  obtain rfl := rep.number fid f live
  have links := rep.links_within within
  obtain ⟨front, back, split⟩ := List.append_of_mem within
  have whole := rep.joined ((fp.fid f).toNat % FID_HTABLE_SIZE)
  rw [split] at whole
  have once := whole.nodup
  have rest : ∀ q, q ∈ front ++ back ↔ q ∈ buckets ((fp.fid f).toNat % FID_HTABLE_SIZE) ∧
      q ≠ f := by
    intro q
    rw [split]
    rw [List.nodup_append] at once
    grind -linarith
  refine ⟨Function.update buckets ((fp.fid f).toNat % FID_HTABLE_SIZE) (front ++ back),
    rep.change (fp.size_npFidDestroy f) (fp.made_npFidDestroy f).ge ?_ ?_ ?_ ?_ ?_ ?_ ?_⟩
  · obtain ⟨prev, next⟩ := whole.at_
    cases front with
    | nil => simp [Npfidpool.npFidDestroy, setHead, rep.size, show fp.links.prev f = none from prev,
        next]
    | cons first front =>
        have kept : fp.htable ((fp.fid f).toNat % FID_HTABLE_SIZE) = some first := by
          rw [rep.head, split]
          rfl
        rw [List.getLast?_cons] at prev
        have same : (first :: front ++ back).head? = some first := rfl
        rw [same, ← kept, Function.update_eq_self]
        simp [Npfidpool.npFidDestroy, prev]
  · rw [links_npFidDestroy]
    exact whole.removed
  · have short := rep.short ((fp.fid f).toNat % FID_HTABLE_SIZE)
    rw [split] at short
    rw [made_npFidDestroy]
    simp only [List.length_append, List.length_cons] at short ⊢
    omega
  · intro q bucket distinct mem
    have outside := rep.apart distinct mem
    have next : fp.links.next f ≠ some q := fun link => outside (links.1 q link)
    have prev : fp.links.prev f ≠ some q := fun link => outside (links.2 q link)
    rw [links_npFidDestroy, fid_npFidDestroy, Links.next_unlink, Links.prev_unlink]
    exact ⟨if_neg prev, if_neg next, rfl⟩
  · intro q
    rw [rest, rep.mem, fid_npFidDestroy]
    have survives : (if m (fp.fid q) = some f then none else m (fp.fid q)) = some q ↔
        m (fp.fid q) = some q ∧ q ≠ f := by
      split_ifs with same
      · simp [same, eq_comm]
      · constructor
        · intro live
          exact ⟨live, fun self => same (self ▸ live)⟩
        · exact And.left
    simp only [Numbers.call, survives, and_assoc]
  · intro other distinct
    refine if_neg fun same => distinct ?_
    rw [rep.number other f same]
  · intro other q live'
    rw [fid_npFidDestroy]
    refine rep.number other q ?_
    by_cases same : m other = some f
    · simp [Numbers.call, same] at live'
    · simpa [Numbers.call, same] using live'

/-- One call: the table gives the result that the map gives, and goes on in order. -/
theorem call (rep : fp.Represents m buckets) (request : FidCall) (proper : m.Proper request) :
    ∃ fp' buckets', fp.call request = some ((m.call request).1, fp') ∧
      fp'.Represents (m.call request).2 buckets' := by
  cases request with
  | find fid => exact rep.npFidFind fid
  | create fid memory => exact rep.npFidCreate fid memory proper
  | destroy f =>
      obtain ⟨buckets', rep'⟩ := rep.npFidDestroy proper
      exact ⟨_, buckets', rfl, rep'⟩

end Represents

theorem represents_npFidpoolCreate (fid : FidPtr → UInt32) (links : Links FidPtr) :
    (npFidpoolCreate fid links).Represents (fun _ => none) fun _ => [] where
  size := rfl
  head _ := rfl
  joined _ := joined_nil
  short _ := le_rfl
  mem := by simp
  number := by simp

end Npfidpool

/-! ## Any sequence of calls -/

namespace Numbers

/-- Each call of the sequence is proper where it is made. -/
def ProperRun (m : Numbers) : List FidCall → Prop
  | [] => True
  | request :: rest => m.Proper request ∧ ProperRun (m.call request).2 rest

/-- The results of a sequence of calls, and the map behind it. -/
def run (m : Numbers) : List FidCall → List (Option FidPtr) × Numbers
  | [] => ([], m)
  | request :: rest =>
    ((m.call request).1 :: (run (m.call request).2 rest).1, (run (m.call request).2 rest).2)

end Numbers

namespace Npfidpool

/-- Run a sequence of calls. -/
def run (fp : Npfidpool) : List FidCall → Option (List (Option FidPtr) × Npfidpool)
  | [] => some ([], fp)
  | request :: rest => do
    let (result, fp') ← fp.call request
    let (results, last) ← run fp' rest
    return (result :: results, last)

/-- Each bucket is a doubly linked list of fids that hash to it, and no two fids of the table have
the same number. -/
structure WellFormed (fp : Npfidpool) (buckets : Nat → List FidPtr) : Prop where
  head : ∀ hash, fp.htable hash = (buckets hash).head?
  joined : ∀ hash, Joined fp.links none (buckets hash)
  hashed : ∀ hash, ∀ f ∈ buckets hash, (fp.fid f).toNat % FID_HTABLE_SIZE = hash
  once : ∀ hash, (buckets hash).Nodup
  numbers : ∀ hash other, ∀ f ∈ buckets hash, ∀ g ∈ buckets other, fp.fid f = fp.fid g → f = g

theorem Represents.wellFormed {fp : Npfidpool} {m : Numbers} {buckets : Nat → List FidPtr}
    (rep : fp.Represents m buckets) : fp.WellFormed buckets where
  head := rep.head
  joined := rep.joined
  hashed hash f mem := ((rep.mem f hash).mp mem).1
  once hash := (rep.joined hash).nodup
  numbers := by
    intro hash other f within g within' same
    have live := ((rep.mem f hash).mp within).2
    have live' := ((rep.mem g other).mp within').2
    rw [same, live'] at live
    exact Option.some.inj live.symm

theorem Represents.run {fp : Npfidpool} {m : Numbers} {buckets : Nat → List FidPtr}
    (rep : fp.Represents m buckets) (calls : List FidCall) (proper : m.ProperRun calls) :
    ∃ last buckets', fp.run calls = some ((m.run calls).1, last) ∧
      last.Represents (m.run calls).2 buckets' := by
  induction calls generalizing fp m buckets with
  | nil => exact ⟨fp, buckets, rfl, rep⟩
  | cons request rest ih =>
      obtain ⟨fp', buckets', called, rep'⟩ := rep.call request proper.1
      obtain ⟨last, buckets'', onward, rep''⟩ := ih rep' proper.2
      exact ⟨last, buckets'', by simp [Npfidpool.run, called, onward, Numbers.run], rep''⟩

/-- After any sequence of calls the table is in order, each call has returned what the map of the
live fids would have returned, and so does the next lookup of any number. -/
theorem calls_agree (fid : FidPtr → UInt32) (links : Links FidPtr) (calls : List FidCall)
    (proper : Numbers.ProperRun (fun _ => none) calls) :
    ∃ fp buckets, (npFidpoolCreate fid links).run calls =
        some ((Numbers.run (fun _ => none) calls).1, fp) ∧ fp.WellFormed buckets ∧
      (∀ f, (Numbers.run (fun _ => none) calls).2.Live f ↔ ∃ hash, f ∈ buckets hash) ∧
      ∀ n, ∃ fp', fp.npFidFind n = some ((Numbers.run (fun _ => none) calls).2 n, fp') := by
  obtain ⟨fp, buckets, ran, rep⟩ := (represents_npFidpoolCreate fid links).run calls proper
  refine ⟨fp, buckets, ran, rep.wellFormed, fun f => ?_, fun n => ?_⟩
  · constructor
    · rintro ⟨n, live⟩
      exact ⟨_, rep.mem_of_live live⟩
    · rintro ⟨hash, within⟩
      exact ⟨_, ((rep.mem f hash).mp within).2⟩
  · obtain ⟨fp', buckets', found, rep'⟩ := rep.npFidFind n
    exact ⟨fp', found⟩

/-- Three fids of one bucket: the last of them is found, and the one in the middle is destroyed. -/
theorem calls_agree_collisions :
    ∃ fp buckets, (npFidpoolCreate (fun _ => 0) ⟨fun _ => some 9, fun _ => some 9⟩).run
        [.create 1 (some 7), .create 65 (some 8), .create 129 (some 9), .find 1, .destroy 9,
          .find 129, .create 65 none] =
        some ([some 7, some 8, some 9, some 7, none, none, some 8], fp) ∧
      fp.WellFormed buckets := by
  have proper : Numbers.ProperRun (fun _ => none) [.create 1 (some 7), .create 65 (some 8),
      .create 129 (some 9), .find 1, .destroy 9, .find 129, .create 65 none] := by
    have second : ¬ Numbers.Live (Function.update (fun _ => none) 1 (some 7)) 8 := by
      rintro ⟨fid, live⟩
      by_cases same : fid = 1 <;> simp [same] at live
    have third : ¬ Numbers.Live (Function.update (Function.update (fun _ => none) 1 (some 7)) 65
        (some 8)) 9 := by
      rintro ⟨fid, live⟩
      by_cases same : fid = 65 <;> by_cases same' : fid = 1 <;>
        simp [same, same'] at live
    refine ⟨by simp [Numbers.Proper, Numbers.Live], ?_, ?_, trivial, ⟨129, ?_⟩, trivial, ?_,
      trivial⟩
    · simpa [Numbers.Proper, Numbers.call] using second
    · simpa [Numbers.Proper, Numbers.call] using third
    · simp [Numbers.call]
    · simp [Numbers.Proper]
  obtain ⟨fp, buckets, ran, formed, -⟩ := calls_agree (fun _ => 0)
    ⟨fun _ => some 9, fun _ => some 9⟩ _ proper
  exact ⟨fp, buckets, ran, formed⟩

end Npfidpool

/-! ## The pool of a session -/

/-- The sessions of the other modules keep their fids in the map. -/
theorem pool_exec_find {Aux World : Type} (env : Env Aux World) (fid : UInt32)
    (s : Session Aux World) :
    exec env (.fidFind fid) s = ((Numbers.call s.pool (.find fid)).1, s) := rfl

theorem pool_exec_create {Aux World : Type} (env : Env Aux World) (fid : UInt32)
    (s : Session Aux World) :
    (exec env (.fidCreate fid) s).1 = (Numbers.call s.pool (.create fid (some s.fids.next))).1 ∧
      (exec env (.fidCreate fid) s).2.pool =
        (Numbers.call s.pool (.create fid (some s.fids.next))).2 := by
  cases live : s.pool fid <;> simp [exec, Numbers.call, live]

theorem pool_exec_destroy {Aux World : Type} (env : Env Aux World) (p : FidPtr)
    (s : Session Aux World) {f : Npfid Aux} (points : s.fids.get p = some f)
    (number : ∀ fid, s.pool fid = some p → f.fid = fid) :
    (exec env (.fidUnlink p) s).2.pool = (Numbers.call s.pool (.destroy p)).2 := by
  funext fid
  simp only [exec, points, Numbers.call]
  by_cases held : s.pool f.fid = some p
  · rw [if_pos held]
    by_cases same : fid = f.fid
    · subst same
      simp [held]
    · have other : s.pool fid ≠ some p := fun live => same (number fid live).symm
      simp [same, other]
  · rw [if_neg held, if_neg]
    intro live
    rw [← number fid live] at live
    exact held live

end Npfs
