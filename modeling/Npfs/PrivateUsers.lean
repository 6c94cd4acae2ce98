import Npfs.Cells
import Npfs.Fid
import Npfs.KeyedTable
import Npfs.LinkedChain
import Npfs.Transition

/-!
# The private user pool

`libnpfs/pvusers.c`: a server adds the users and groups of its pool itself.  Both are in singly
linked lists under the lock of the pool; each has a lock of its own and a reference count, and a
user has an array of the groups it is in.
-/

namespace Npfs

namespace Private

open KeyedTable (Distinct)

/-! ## The lists -/

/-- The fields that an `Npuser` and an `Npgroup` have in common: `uname` or `gname`, `uid` or `gid`,
and so on. -/
structure Entry where
  name : CStr
  id : UInt32
  refcount : ℕ
  next : Option ℕ

/-- `upp->users` or `upp->groups`, with the memory of the entries that were ever made. -/
structure Table where
  first : Option ℕ
  entries : Cells Entry

namespace Table

variable (t : Table)

/-- What a pointer points to. -/
def get (ptr : ℕ) : Option Entry := t.entries.get ptr

/-- Change an entry. -/
def modify (ptr : ℕ) (change : Entry → Entry) : Table :=
  { t with entries := t.entries.modify ptr change }

/-- Change the reference count of an entry. -/
def recount (ptr : ℕ) (change : ℕ → ℕ) : Table :=
  t.modify ptr fun e => { e with refcount := change e.refcount }

/-- The link of an entry.  A freed one does not lead on, and a loop that comes to it does not
end. -/
def next (ptr : ℕ) : Option ℕ := (t.get ptr).elim (some ptr) (·.next)

/-- The loop of a lookup. -/
def search (hit : CStr → UInt32 → Bool) : Option (Option ℕ) :=
  LinkedChain.search t.next (fun ptr => (t.get ptr).any fun e => hit e.name e.id) t.entries.next
    t.first

/-- A new entry in front. -/
def insert (name : CStr) (id : UInt32) : Table :=
  ⟨some t.entries.next, t.entries.push ⟨name, id, 1, t.first⟩⟩

/-- `pu->next = u->next`, or of the pool if there is no `pu`. -/
def relink (before after : Option ℕ) : Table :=
  match before with
  | none => { t with first := after }
  | some ptr => t.modify ptr fun e => { e with next := after }

/-- The loop of a deletion, and what follows it: the entry behind which the loop stopped is linked
to the one behind `ptr`. -/
def unlink (ptr : ℕ) : Option Table := do
  let (before, _) ← LinkedChain.locate t.next (· = ptr) t.entries.next none t.first
  let e ← t.get ptr
  return t.relink before e.next

end Table

/-! ## The pool -/

/-- Users and groups. -/
inductive Kind where
  | user
  | group
  deriving DecidableEq

/-- The locks: `upp->lock`, and `u->lock` and `g->lock`. -/
inductive Lock where
  | pool
  | entry (kind : Kind) (ptr : ℕ)
  deriving DecidableEq

/-- An `Upool` with its users and groups. -/
structure Upool where
  table : Kind → Table
  /-- `u->groups[0..ngroups)`. -/
  groups : ℕ → List ℕ
  /-- The locks that are held. -/
  held : List Lock

namespace Upool

/-- `np_priv_userpool_create`. -/
def npPrivUserpoolCreate : Upool := ⟨fun _ => ⟨none, .empty⟩, fun _ => [], []⟩

variable (p : Upool) (kind : Kind) (ptr : ℕ)

/-- `pthread_mutex_lock`, which does not return if the lock is held. -/
def lock (lock : Lock) : Option Upool :=
  if lock ∈ p.held then none else some { p with held := lock :: p.held }

/-- `pthread_mutex_unlock`. -/
def unlock (lock : Lock) : Upool := { p with held := p.held.erase lock }

/-- Change a table. -/
def update (change : Table → Table) : Upool :=
  { p with table := Function.update p.table kind (change (p.table kind)) }

/-- Change the reference count of an entry. -/
def recount (change : ℕ → ℕ) : Upool := p.update kind (·.recount ptr change)

/-- `np_user_incref` and `np_group_incref`. -/
def incref : Option Upool := do
  let p ← p.lock (.entry kind ptr)
  let _ ← (p.table kind).get ptr
  return (p.recount kind ptr (· + 1)).unlock (.entry kind ptr)

/-- What `np_user_decref` and `np_group_decref` share. -/
def drop (destroy : Upool → Option Upool) : Option Upool := do
  let p ← p.lock (.entry kind ptr)
  let e ← (p.table kind).get ptr
  let p := p.recount kind ptr (· - 1)
  if 0 < e.refcount - 1 then
    return p.unlock (.entry kind ptr)
  else
    let p ← destroy p
    return (p.update kind fun t => { t with entries := t.entries.free ptr }).unlock
      (.entry kind ptr)

/-- `np_group_decref`. -/
def npGroupDecref (g : ℕ) : Option Upool := p.drop .group g some

/-- `np_user_decref`, of a user whose default group was not set. -/
def npUserDecref (u : ℕ) : Option Upool :=
  p.drop .user u fun p => (p.groups u).foldlM npGroupDecref p

/-- `np_user_decref` or `np_group_decref`. -/
def decref : Option Upool :=
  match kind with
  | .user => p.npUserDecref ptr
  | .group => p.npGroupDecref ptr

/-- What the four lookups share. -/
def lookup (hit : CStr → UInt32 → Bool) : Option (Option ℕ × Upool) := do
  let p ← p.lock .pool
  let found ← (p.table kind).search hit
  let p ← found.elim (some p) (p.incref kind)
  return (found, p.unlock .pool)

/-- A check of an addition: what it finds is given back. -/
def clash (hit : CStr → UInt32 → Bool) : Option (Bool × Upool) := do
  let (found, p) ← p.lookup kind hit
  let p ← found.elim (some p) (p.decref kind)
  return (found.isSome, p)

/-- The end of an addition. -/
def enter (name : CStr) (id : UInt32) : Option (ℕ × Upool) := do
  let ptr := (p.table kind).entries.next
  let p ← p.lock .pool
  let p := { p with
    groups := if kind = Kind.user then Function.update p.groups ptr [] else p.groups }
  let p ← ((p.update kind (·.insert name id)).unlock .pool).incref kind ptr
  return (ptr, p)

/-- The middle of an addition; `memory` says whether `np_malloc` succeeds. -/
def enterNew (name : CStr) (id : UInt32) (memory : Bool) : Option (Option ℕ × Upool) := do
  let (taken, p) ← p.clash kind fun _ number => number = id
  if taken || !memory then
    return (none, p)
  else
    (p.enter kind name id).map fun made => (some made.1, made.2)

/-- What `np_priv_user_add` and `np_priv_group_add` share. -/
def add (name : CStr) (id : UInt32) (memory : Bool) : Option (Option ℕ × Upool) := do
  let (taken, p) ← p.clash kind fun text _ => text = name
  if taken then return (none, p) else p.enterNew kind name id memory

/-- What `np_priv_user_del` and `np_priv_group_del` share. -/
def del : Option Upool := do
  let _ ← (p.table kind).get ptr
  if (p.table kind).first = none then
    return p
  else
    let p ← p.lock .pool
    let t ← (p.table kind).unlink ptr
    ((p.update kind fun _ => t).unlock .pool).decref kind ptr

/-- `np_priv_user_add`. -/
def npPrivUserAdd (uname : CStr) (uid : UInt32) (memory : Bool) : Option (Option ℕ × Upool) :=
  p.add .user uname uid memory

/-- `np_priv_user_del`. -/
def npPrivUserDel (u : ℕ) : Option Upool := p.del .user u

/-- `np_priv_group_add`. -/
def npPrivGroupAdd (gname : CStr) (gid : UInt32) (memory : Bool) : Option (Option ℕ × Upool) :=
  p.add .group gname gid memory

/-- `np_priv_group_del`. -/
def npPrivGroupDel (g : ℕ) : Option Upool := p.del .group g

/-- `np_priv_uname2user`. -/
def npPrivUname2user (uname : CStr) : Option (Option ℕ × Upool) :=
  p.lookup .user fun text _ => text = uname

/-- `np_priv_uid2user`. -/
def npPrivUid2user (uid : UInt32) : Option (Option ℕ × Upool) :=
  p.lookup .user fun _ number => number = uid

/-- `np_priv_gname2group`. -/
def npPrivGname2group (gname : CStr) : Option (Option ℕ × Upool) :=
  p.lookup .group fun text _ => text = gname

/-- `np_priv_gid2group`. -/
def npPrivGid2group (gid : UInt32) : Option (Option ℕ × Upool) :=
  p.lookup .group fun _ number => number = gid

/-- `np_priv_ismember`. -/
def npPrivIsmember (u g : ℕ) : Option (Bool × Upool) := do
  let p ← p.lock (.entry .user u)
  let _ ← (p.table .user).get u
  return (g ∈ p.groups u, p.unlock (.entry .user u))

/-- `np_priv_group_adduser`; `memory` says whether `realloc` succeeds. -/
def npPrivGroupAdduser (g u : ℕ) (memory : Bool) : Option (ℤ × Upool) := do
  let (member, p) ← p.npPrivIsmember u g
  if member then
    return (0, p)
  else
    let p ← p.lock (.entry .group g)
    let _ ← (p.table .group).get g
    if memory then
      return (0, { p with groups := Function.update p.groups u (p.groups u ++ [g]) }.unlock
        (.entry .group g))
    else
      return (-1, p.unlock (.entry .group g))

/-- `np_priv_group_deluser`: at its end the lock is taken once more. -/
def npPrivGroupDeluser (g u : ℕ) : Option (ℤ × Upool) := do
  let p ← p.lock (.entry .group g)
  let _ ← (p.table .group).get g
  let _ ← (p.table .user).get u
  let p ← { p with groups := Function.update p.groups u ((p.groups u).erase g) }.lock
    (.entry .group g)
  return (0, p)

end Upool

/-- A call of the pool. -/
inductive Call where
  | add (kind : Kind) (name : CStr) (id : UInt32) (memory : Bool)
  | del (kind : Kind) (ptr : ℕ)
  | byName (kind : Kind) (name : CStr)
  | byId (kind : Kind) (id : UInt32)
  | adduser (g u : ℕ) (memory : Bool)
  | deluser (g u : ℕ)
  | ismember (u g : ℕ)

/-- What a call returns. -/
inductive Answer where
  | entry (ptr : Option ℕ)
  | code (code : ℤ)
  | member (member : Bool)
  | void
  deriving DecidableEq

/-- Run one call; `none` if it does not return, or follows a pointer to freed memory. -/
def Upool.run (p : Upool) : Call → Option (Answer × Upool)
  | .add .user name id memory =>
    (p.npPrivUserAdd name id memory).map fun r => (.entry r.1, r.2)
  | .add .group name id memory =>
    (p.npPrivGroupAdd name id memory).map fun r => (.entry r.1, r.2)
  | .del .user ptr => (p.npPrivUserDel ptr).map fun p => (.void, p)
  | .del .group ptr => (p.npPrivGroupDel ptr).map fun p => (.void, p)
  | .byName .user name => (p.npPrivUname2user name).map fun r => (.entry r.1, r.2)
  | .byName .group name => (p.npPrivGname2group name).map fun r => (.entry r.1, r.2)
  | .byId .user id => (p.npPrivUid2user id).map fun r => (.entry r.1, r.2)
  | .byId .group id => (p.npPrivGid2group id).map fun r => (.entry r.1, r.2)
  | .adduser g u memory => (p.npPrivGroupAdduser g u memory).map fun r => (.code r.1, r.2)
  | .deluser g u => (p.npPrivGroupDeluser g u).map fun r => (.code r.1, r.2)
  | .ismember u g => (p.npPrivIsmember u g).map fun r => (.member r.1, r.2)

/-! ## What the pool is for -/

/-- An entry that was added: its pointer, its name and its id. -/
structure Added where
  ptr : ℕ
  name : CStr
  id : UInt32
  deriving DecidableEq

/-- The entries that were added and not since deleted, and who is in which group. -/
structure Registry where
  /-- How many entries were ever added. -/
  made : Kind → ℕ
  present : Kind → List Added
  member : ℕ → ℕ → Bool

namespace Registry

/-- Nothing was added yet. -/
def empty : Registry := ⟨fun _ => 0, fun _ => [], fun _ _ => false⟩

variable (r : Registry)

/-- The entry that is there. -/
def find (kind : Kind) (hit : CStr → UInt32 → Bool) : Option ℕ :=
  ((r.present kind).find? fun a => hit a.name a.id).map (·.ptr)

/-- The entry is there. -/
def Has (kind : Kind) (ptr : ℕ) : Prop := ptr ∈ (r.present kind).map (·.ptr)

instance (kind : Kind) (ptr : ℕ) : Decidable (r.Has kind ptr) :=
  inferInstanceAs (Decidable (_ ∈ _))

/-- With one more entry. -/
def insert (kind : Kind) (name : CStr) (id : UInt32) : Registry :=
  { r with
    made := Function.update r.made kind (r.made kind + 1)
    present := Function.update r.present kind (⟨r.made kind, name, id⟩ :: r.present kind) }

/-- Without an entry. -/
def erase (kind : Kind) (ptr : ℕ) : Registry :=
  { r with
    present := Function.update r.present kind ((r.present kind).filter (·.ptr ≠ ptr)) }

/-- With another membership. -/
def setMember (u g : ℕ) (member : Bool) : Registry :=
  { r with member := Function.update r.member u (Function.update (r.member u) g member) }

/-- One call: what it should return, and what holds behind it. -/
def call : Call → Answer × Registry
  | .add kind name id memory =>
    if (r.find kind fun text _ => text = name).isSome ||
        (r.find kind fun _ number => number = id).isSome || !memory then
      (.entry none, r)
    else (.entry (some (r.made kind)), r.insert kind name id)
  | .del kind ptr => (.void, r.erase kind ptr)
  | .byName kind name => (.entry (r.find kind fun text _ => text = name), r)
  | .byId kind id => (.entry (r.find kind fun _ number => number = id), r)
  | .adduser g u memory =>
    if r.member u g then (.code 0, r)
    else if memory then (.code 0, r.setMember u g true) else (.code (-1), r)
  | .deluser g u => (.code 0, r.setMember u g false)
  | .ismember u g => (.member (r.member u g), r)

/-- The pointers are some that earlier calls have returned. -/
def Valid : Call → Prop
  | .del kind ptr => ptr < r.made kind
  | .adduser g u _ | .deluser g u | .ismember u g => u < r.made .user ∧ g < r.made .group
  | .add _ _ _ _ | .byName _ _ | .byId _ _ => True

/-- What is deleted is there, or nothing is; and no user is taken out of a group. -/
def Fits : Call → Prop
  | .del kind ptr => r.Has kind ptr ∨ r.present kind = []
  | .deluser _ _ => False
  | _ => True

end Registry

/-- A pool, and what it should hold. -/
structure History where
  pool : Upool
  registry : Registry

namespace History

/-- The pool has been created. -/
def start : History := ⟨.npPrivUserpoolCreate, .empty⟩

variable (h : History)

/-- The next call returns. -/
def step (c : Call) : Option History :=
  (h.pool.run c).map fun result => ⟨result.2, (h.registry.call c).2⟩

/-- The calls that a server may make. -/
def Valid (c : Call) : Prop := h.registry.Valid c

/-- The calls that do what they should. -/
def Fits (c : Call) : Prop := h.registry.Fits c

/-- A call returns with no lock held, and gives the right answer; if it deletes what is not there,
it changes nothing. -/
def Behaves (c : Call) : Prop :=
  ∃ pool, h.pool.run c = some ((h.registry.call c).1, pool) ∧ pool.held = [] ∧
    ∀ kind ptr, c = .del kind ptr → ¬ h.registry.Has kind ptr → pool = h.pool

end History

/-- The entries of a list in their order, if it ends. -/
def Table.listed (t : Table) : Option (List Added) :=
  (LinkedChain.walk t.next t.entries.next t.first).map fun chain =>
    chain.filterMap fun ptr => (t.get ptr).map fun e => ⟨ptr, e.name, e.id⟩

/-- No lock is held, and the lists hold what they should, each name and id once. -/
structure History.Sane (h : History) : Prop where
  unlocked : h.pool.held = []
  listed : ∀ kind, (h.pool.table kind).listed = some (h.registry.present kind)
  names : ∀ kind, Distinct Added.name (h.registry.present kind)
  ids : ∀ kind, Distinct Added.id (h.registry.present kind)

/-! ## One list -/

namespace Table

variable {t : Table} {made ptr q : ℕ} {present : List Added} {e : Entry} {change : Entry → Entry}
  {before after : Option ℕ} {name : CStr} {id : UInt32}

theorem get_modify : (t.modify ptr change).get q =
    if q = ptr then (t.get ptr).map change else t.get q := Cells.get_modify

theorem next_of_get (here : t.get ptr = some e) : t.next ptr = e.next := by
  rw [next, here]
  rfl

theorem get_recount {change : ℕ → ℕ} : (t.recount ptr change).get q =
    if q = ptr then (t.get ptr).map fun e => { e with refcount := change e.refcount }
    else t.get q := get_modify

theorem next_recount {change : ℕ → ℕ} : (t.recount ptr change).next = t.next := by
  funext q
  rw [next, next, get_recount]
  split_ifs with here
  · subst here
    cases t.get q <;> rfl
  · rfl

/-- A reference that is taken and given back. -/
theorem recount_recount : (t.recount ptr (· + 1)).recount ptr (· - 1) = t := by
  have back : (t.entries.modify ptr fun e => { e with refcount := e.refcount + 1 }).modify ptr
      (fun e => { e with refcount := e.refcount - 1 }) = t.entries :=
    Cells.modify_modify.trans Cells.modify_id
  rw [recount, recount, modify, modify, back]

/-- A relinked entry keeps all but its link. -/
theorem get_relink (here : t.get q = some e) : (t.relink before after).get q =
    some (if before = some q then { e with next := after } else e) := by
  cases before with
  | none => exact here
  | some ptr =>
      rw [relink, get_modify]
      by_cases same : q = ptr
      · subst same
        simp [here]
      · simp [same, Ne.symm same, here]

theorem first_relink :
    (t.relink before after).first = if before = none then after else t.first := by
  cases before <;> rfl

theorem count_relink : (t.relink before after).entries.next = t.entries.next := by
  cases before with
  | none => rfl
  | some ptr => exact Cells.next_modify

/-- The list holds these entries, each referred to by the pool and by who added it; and no entry was
ever freed. -/
structure Holds (t : Table) (made : ℕ) (present : List Added) : Prop where
  count : t.entries.next = made
  path : LinkedChain.Path t.next t.first (present.map (·.ptr))
  entry : ∀ a ∈ present, ∃ e, t.get a.ptr = some e ∧ e.name = a.name ∧ e.id = a.id ∧
    2 ≤ e.refcount
  live : ∀ ptr < made, ∃ e, t.get ptr = some e ∧ 1 ≤ e.refcount
  names : Distinct Added.name present
  ids : Distinct Added.id present

theorem holds_empty : Holds ⟨none, .empty⟩ 0 [] where
  count := rfl
  path := .nil
  entry a member := by cases member
  live ptr least := absurd least (Nat.not_lt_zero ptr)
  names := KeyedTable.distinct_nil
  ids := KeyedTable.distinct_nil

namespace Holds

theorem lt (holds : t.Holds made present) {a : Added} (member : a ∈ present) : a.ptr < made := by
  obtain ⟨e, here, -⟩ := holds.entry a member
  exact holds.count ▸ Cells.lt_of_get here

theorem length_le (holds : t.Holds made present) :
    (present.map (·.ptr)).length ≤ t.entries.next := by
  have inside : present.map (·.ptr) ⊆ List.range made := by
    intro ptr member
    obtain ⟨a, there, rfl⟩ := List.mem_map.mp member
    exact List.mem_range.mpr (holds.lt there)
  simpa [holds.count] using (holds.path.nodup.subperm inside).length_le

/-- A lookup finds the entry that is there. -/
theorem search_eq (holds : t.Holds made present) (hit : CStr → UInt32 → Bool) :
    t.search hit = some ((present.find? fun a => hit a.name a.id).map (·.ptr)) := by
  have same : ∀ a ∈ present, ((t.get a.ptr).any fun e => hit e.name e.id) = hit a.name a.id := by
    intro a member
    obtain ⟨e, here, name, id, -⟩ := holds.entry a member
    rw [here, ← name, ← id]
    rfl
  rw [Table.search, LinkedChain.search_of_path holds.path holds.length_le, List.find?_map]
  exact congrArg (fun found => some (Option.map _ found)) (List.find?_congr same)

theorem listed_eq (holds : t.Holds made present) : t.listed = some present := by
  rw [listed, LinkedChain.walk_of_path holds.path holds.length_le, Option.map_some,
    List.filterMap_map]
  congr 1
  have same : ∀ a ∈ present, (((fun ptr => (t.get ptr).map fun e => (⟨ptr, e.name, e.id⟩ : Added)) ∘
      fun a => a.ptr) a) = some a := by
    intro a member
    obtain ⟨e, here, name, id, -⟩ := holds.entry a member
    simp only [Function.comp_apply, here, Option.map_some, name, id]
  rw [List.filterMap_congr same, List.filterMap_some]

/-- One more reference. -/
theorem incref (holds : t.Holds made present) : (t.recount ptr (· + 1)).Holds made present where
  count := holds.count ▸ Cells.next_modify
  path := by
    rw [next_recount]
    exact holds.path
  entry a member := by
    obtain ⟨e, here, name, id, least⟩ := holds.entry a member
    rw [get_recount]
    split_ifs with same
    · rw [← same, here]
      exact ⟨_, rfl, name, id, Nat.le_succ_of_le least⟩
    · exact ⟨e, here, name, id, least⟩
  live q inside := by
    obtain ⟨e, here, least⟩ := holds.live q inside
    rw [get_recount]
    split_ifs with same
    · rw [← same, here]
      exact ⟨_, rfl, Nat.le_succ_of_le least⟩
    · exact ⟨e, here, least⟩
  names := holds.names
  ids := holds.ids

/-- The memory of a list with a new entry, which has a reference for who added it. -/
theorem get_insert (count : t.entries.next = made) :
    ((t.insert name id).recount made (· + 1)).get q =
      if q = made then some ⟨name, id, 2, t.first⟩ else t.get q := by
  have pushed : ∀ q, (t.insert name id).get q =
      if q = made then some ⟨name, id, 1, t.first⟩ else t.get q := by
    intro q
    rw [← count]
    exact Cells.get_push
  rw [get_recount, pushed, if_pos rfl, pushed]
  split_ifs <;> rfl

/-- A new entry in front. -/
theorem insert (holds : t.Holds made present) (name_new : ∀ a ∈ present, a.name ≠ name)
    (id_new : ∀ a ∈ present, a.id ≠ id) :
    ((t.insert name id).recount made (· + 1)).Holds (made + 1) (⟨made, name, id⟩ :: present) := by
  have older : ∀ {q}, q < made → q ≠ made := fun least => Nat.ne_of_lt least
  refine ⟨?_, ?_, ?_, ?_, ?_, ?_⟩
  · rw [Table.recount, Table.modify, Cells.next_modify, Table.insert, Cells.next_push, holds.count]
  · have first : ((t.insert name id).recount made (· + 1)).first = some made :=
      congrArg some holds.count
    rw [first]
    refine .cons ?_
    rw [next_of_get ((get_insert holds.count).trans (if_pos rfl))]
    refine holds.path.congr fun q member => ?_
    obtain ⟨a, there, rfl⟩ := List.mem_map.mp member
    rw [Table.next, get_insert holds.count, if_neg (older (holds.lt there)), Table.next]
  · intro a member
    rw [get_insert holds.count]
    rcases List.mem_cons.mp member with rfl | old
    · exact ⟨_, if_pos rfl, rfl, rfl, le_rfl⟩
    · rw [if_neg (older (holds.lt old))]
      exact holds.entry a old
  · intro q inside
    rw [get_insert holds.count]
    split_ifs with same
    · exact ⟨_, rfl, one_le_two⟩
    · exact holds.live q (by omega)
  · exact KeyedTable.distinct_cons.mpr ⟨name_new, holds.names⟩
  · exact KeyedTable.distinct_cons.mpr ⟨id_new, holds.ids⟩

/-- What is left of a list without one of its entries. -/
theorem erase_path (holds : t.Holds made present) {front back : List ℕ}
    (split : present.map (·.ptr) = front ++ ptr :: back) (here : t.get ptr = some e) :
    LinkedChain.Path (t.relink front.getLast? e.next).next (t.relink front.getLast? e.next).first
      (front ++ back) := by
  have path := holds.path
  rw [split] at path
  have link := next_of_get here
  have entry : ∀ q ∈ front ++ back, ∃ e, t.get q = some e := by
    intro q member
    have inside : q ∈ present.map (·.ptr) := by
      rw [split]
      rcases List.mem_append.mp member with before | behind
      · exact List.mem_append_left _ before
      · exact List.mem_append_right _ (List.mem_cons_of_mem _ behind)
    obtain ⟨a, there, rfl⟩ := List.mem_map.mp inside
    obtain ⟨e, here, -⟩ := holds.entry a there
    exact ⟨e, here⟩
  rw [first_relink, ← link]
  refine path.erase (fun q last => ?_) fun q member other => ?_
  · obtain ⟨e', there⟩ := entry q (List.mem_append_left _ (List.mem_of_getLast? last))
    rw [next_of_get (get_relink there), if_pos last, link]
  · obtain ⟨e', there⟩ := entry q member
    rw [next_of_get (get_relink there), if_neg other, next_of_get there]

/-- Unlink an entry that is there, and give back the reference of the pool. -/
theorem unlink (holds : t.Holds made present) (member : ptr ∈ present.map (·.ptr)) :
    ∃ t' e, t.unlink ptr = some t' ∧ t'.get ptr = some e ∧ 2 ≤ e.refcount ∧
      (t'.recount ptr (· - 1)).Holds made (present.filter (·.ptr ≠ ptr)) := by
  obtain ⟨a, there, rfl⟩ := List.mem_map.mp member
  obtain ⟨e, here, -, -, most⟩ := holds.entry a there
  rcases LinkedChain.locate_of_path (· = a.ptr) none holds.path holds.length_le with
    ⟨last, -, missed⟩ | ⟨front, q, back, split, found, located⟩
  · simpa using missed a.ptr member
  · obtain rfl : q = a.ptr := by simpa using found
    have once := holds.path.nodup
    rw [split, List.nodup_append, List.nodup_cons] at once
    have before : a.ptr ∉ front := fun inside => once.2.2 _ inside _ List.mem_cons_self rfl
    have last : front.getLast? ≠ some a.ptr := fun last => before (List.mem_of_getLast? last)
    have left : (present.filter (·.ptr ≠ a.ptr)).map (·.ptr) = front ++ back := by
      have kept : ∀ list : List ℕ, a.ptr ∉ list → list.filter (· ≠ a.ptr) = list := by
        intro list outside
        refine List.filter_eq_self.mpr fun q inside => ?_
        simpa using fun same : q = a.ptr => outside (same ▸ inside)
      have filtered := @List.filter_map _ _ (fun a : Added => a.ptr) (· ≠ a.ptr) present
      rw [split, List.filter_append, List.filter_cons_of_neg (by simp), kept front before,
        kept back once.2.1.1] at filtered
      exact filtered.symm
    refine ⟨t.relink front.getLast? e.next, e, ?_, ?_, most, ?_, ?_, ?_, ?_, ?_, ?_⟩
    · rw [Table.unlink, located, Option.or_none, here]
      rfl
    · rw [get_relink here, if_neg last]
    · exact Cells.next_modify.trans (count_relink.trans holds.count)
    · rw [next_recount, left]
      exact holds.erase_path split here
    · intro b member
      obtain ⟨old, other⟩ := List.mem_filter.mp member
      obtain ⟨e', there, name, id, least⟩ := holds.entry b old
      rw [get_recount, if_neg (by simpa using other), get_relink there]
      refine ⟨_, rfl, ?_⟩
      split_ifs <;> exact ⟨name, id, least⟩
    · intro q inside
      rw [get_recount]
      split_ifs with same
      · rw [get_relink here, if_neg last]
        exact ⟨_, rfl, Nat.le_sub_of_add_le most⟩
      · obtain ⟨e', there, least⟩ := holds.live q inside
        rw [get_relink there]
        refine ⟨_, rfl, ?_⟩
        split_ifs <;> exact least
    · exact holds.names.sublist List.filter_sublist
    · exact holds.ids.sublist List.filter_sublist

end Holds

end Table

/-! ## The calls -/

namespace Upool

variable {p : Upool} {r : Registry} {kind : Kind} {ptr : ℕ} {e : Entry}
  {hit : CStr → UInt32 → Bool} {name : CStr} {id : UInt32}

theorem incref_eq (free : .entry kind ptr ∉ p.held) (here : (p.table kind).get ptr = some e) :
    p.incref kind ptr = some (p.recount kind ptr (· + 1)) := by
  simp [incref, lock, free, here, unlock, recount, update]

theorem drop_eq {destroy : Upool → Option Upool} (free : .entry kind ptr ∉ p.held)
    (here : (p.table kind).get ptr = some e) (many : 2 ≤ e.refcount) :
    p.drop kind ptr destroy = some (p.recount kind ptr (· - 1)) := by
  have more : 0 < e.refcount - 1 := Nat.lt_sub_of_add_lt many
  simp only [drop, lock, if_neg free, Option.bind_eq_bind, Option.bind_some, here, if_pos more]
  simp [unlock, recount, update]

theorem decref_eq_drop (p : Upool) (kind : Kind) (ptr : ℕ) :
    ∃ destroy, p.decref kind ptr = p.drop kind ptr destroy := by
  cases kind with
  | user => exact ⟨fun p => (p.groups ptr).foldlM npGroupDecref p, rfl⟩
  | group => exact ⟨some, rfl⟩

theorem decref_eq (free : .entry kind ptr ∉ p.held) (here : (p.table kind).get ptr = some e)
    (many : 2 ≤ e.refcount) : p.decref kind ptr = some (p.recount kind ptr (· - 1)) := by
  obtain ⟨destroy, is⟩ := p.decref_eq_drop kind ptr
  rw [is, drop_eq free here many]

/-- The pool is what the registry says. -/
structure Represents (p : Upool) (r : Registry) : Prop where
  held : p.held = []
  table : ∀ kind, (p.table kind).Holds (r.made kind) (r.present kind)
  groups : ∀ u g, g ∈ p.groups u ↔ r.member u g = true
  known : ∀ u g, r.member u g = true → u < r.made .user

namespace Represents

theorem start : npPrivUserpoolCreate.Represents .empty where
  held := rfl
  table _ := Table.holds_empty
  groups u g := by simp [npPrivUserpoolCreate, Registry.empty]
  known u g member := by cases member

/-- What is found is an entry of the list. -/
theorem get_of_find (rep : p.Represents r) (found : r.find kind hit = some ptr) :
    ∃ e, (p.table kind).get ptr = some e ∧ 2 ≤ e.refcount := by
  obtain ⟨a, member, rfl⟩ := Option.map_eq_some_iff.mp found
  obtain ⟨e, here, -, -, most⟩ := (rep.table kind).entry a (List.mem_of_find?_eq_some member)
  exact ⟨e, here, most⟩

/-- A lookup finds the entry that is there, and takes a reference to it. -/
theorem lookup_eq (rep : p.Represents r) (kind : Kind) (hit : CStr → UInt32 → Bool) :
    p.lookup kind hit = some (r.find kind hit,
      (r.find kind hit).elim p fun ptr => p.recount kind ptr (· + 1)) := by
  have locked : p.lock .pool = some { p with held := [.pool] } := by simp [lock, rep.held]
  have search : (p.table kind).search hit = some (r.find kind hit) :=
    (rep.table kind).search_eq hit
  rw [lookup, locked]
  simp only [Option.bind_eq_bind, Option.bind_some, search]
  cases found : r.find kind hit with
  | none =>
      have same : { p with held := [] } = p := by rw [← rep.held]
      simpa [unlock] using same
  | some ptr =>
      obtain ⟨e, here, -⟩ := rep.get_of_find found
      have taken : { p with held := [Lock.pool] }.incref kind ptr =
          some ({ p with held := [Lock.pool] }.recount kind ptr (· + 1)) :=
        incref_eq (by simp) here
      simp only [Option.elim_some, taken, Option.bind_some]
      simp [unlock, recount, update, rep.held]

/-- The check of an addition leaves everything as it was. -/
theorem clash_eq (rep : p.Represents r) (kind : Kind) (hit : CStr → UInt32 → Bool) :
    p.clash kind hit = some ((r.find kind hit).isSome, p) := by
  rw [clash, rep.lookup_eq kind hit]
  cases found : r.find kind hit with
  | none => rfl
  | some ptr =>
      obtain ⟨e, here, most⟩ := rep.get_of_find found
      have more : ((p.recount kind ptr (· + 1)).table kind).get ptr =
          some { e with refcount := e.refcount + 1 } := by
        simp [recount, update, Table.get_recount, here]
      have back : (p.recount kind ptr (· + 1)).recount kind ptr (· - 1) = p := by
        simp [recount, update, Table.recount_recount]
      have free : .entry kind ptr ∉ (p.recount kind ptr (· + 1)).held := by
        simp [recount, update, rep.held]
      simp only [Option.bind_eq_bind, Option.bind_some, Option.elim_some,
        decref_eq free more (Nat.le_succ_of_le most), back, Option.isSome_some]
      rfl

/-- One more reference to an entry. -/
theorem recount (rep : p.Represents r) (kind : Kind) (ptr : ℕ) :
    (p.recount kind ptr (· + 1)).Represents r where
  held := rep.held
  table other := by
    simp only [Upool.recount, update, Function.update_apply]
    split_ifs with same
    · exact same ▸ (rep.table kind).incref
    · exact rep.table other
  groups := rep.groups
  known := rep.known

/-- A lookup. -/
theorem lookup (rep : p.Represents r) (kind : Kind) (hit : CStr → UInt32 → Bool) :
    ∃ p', p.lookup kind hit = some (r.find kind hit, p') ∧ p'.Represents r := by
  refine ⟨_, rep.lookup_eq kind hit, ?_⟩
  cases r.find kind hit with
  | none => exact rep
  | some ptr => exact rep.recount kind ptr

/-- A new entry. -/
theorem enter (rep : p.Represents r) (name_new : ∀ a ∈ r.present kind, a.name ≠ name)
    (id_new : ∀ a ∈ r.present kind, a.id ≠ id) :
    ∃ p', p.enter kind name id = some (r.made kind, p') ∧
      p'.Represents (r.insert kind name id) := by
  have count := (rep.table kind).count
  have locked : p.lock .pool = some { p with held := [.pool] } := by simp [lock, rep.held]
  let groups := if kind = Kind.user then Function.update p.groups (r.made kind) [] else p.groups
  let linked : Upool := ⟨Function.update p.table kind ((p.table kind).insert name id), groups, []⟩
  have fresh : (linked.table kind).get (r.made kind) =
      some ⟨name, id, 1, (p.table kind).first⟩ := by
    simp [linked, Table.get, Table.insert, ← count]
  refine ⟨linked.recount kind (r.made kind) (· + 1), ?_, ?_⟩
  · rw [Upool.enter, locked]
    have taken : linked.incref kind (r.made kind) =
        some (linked.recount kind (r.made kind) (· + 1)) := incref_eq (by simp [linked]) fresh
    simpa [count, update, unlock, linked, groups] using
      congrArg (·.bind fun p => some (r.made kind, p)) taken
  · refine ⟨rfl, fun other => ?_, fun u g => ?_, fun u g member => ?_⟩
    · by_cases same : other = kind
      · subst same
        simpa [linked, Upool.recount, update, Registry.insert] using
          (rep.table other).insert name_new id_new
      · simpa [linked, Upool.recount, update, Registry.insert, same] using rep.table other
    · show g ∈ groups u ↔ r.member u g = true
      by_cases user : kind = .user ∧ u = r.made kind
      · obtain ⟨rfl, rfl⟩ := user
        have outside : r.member (r.made .user) g ≠ true :=
          fun member => Nat.lt_irrefl _ (rep.known _ g member)
        simp [groups, outside]
      · have same : groups u = p.groups u := by
          simp only [groups]
          split_ifs with is
          · exact Function.update_of_ne (fun same => user ⟨is, same⟩) _ _
          · rfl
        rw [same]
        exact rep.groups u g
    · have known := rep.known u g member
      by_cases same : kind = .user
      · subst same
        simpa [Registry.insert] using Nat.lt_succ_of_lt known
      · simpa [Registry.insert, Ne.symm same] using known

/-- An addition. -/
theorem add (rep : p.Represents r) (kind : Kind) (name : CStr) (id : UInt32) (memory : Bool) :
    ∃ p', (p.add kind name id memory).map (fun found => (Answer.entry found.1, found.2)) =
        some ((r.call (.add kind name id memory)).1, p') ∧
      p'.Represents (r.call (.add kind name id memory)).2 := by
  rw [Upool.add, rep.clash_eq kind]
  simp only [Option.bind_eq_bind, Option.bind_some, Registry.call, enterNew, rep.clash_eq kind]
  by_cases taken : ((r.find kind fun text _ => text = name).isSome ||
      (r.find kind fun _ number => number = id).isSome || !memory) = true
  · rw [if_pos taken]
    refine ⟨p, ?_, rep⟩
    cases name_taken : (r.find kind fun text _ => text = name).isSome with
    | true => rfl
    | false =>
        simp only [name_taken, Bool.false_or] at taken
        simp only [taken, Bool.false_eq_true, if_false, if_true]
        rfl
  · rw [if_neg taken]
    have free : (r.find kind fun text _ => text = name) = none ∧
        (r.find kind fun _ number => number = id) = none ∧ memory = true := by
      simpa [and_assoc] using taken
    obtain ⟨name_free, id_free, memory_ok⟩ := free
    have name_new : ∀ a ∈ r.present kind, a.name ≠ name := by
      simpa [Registry.find] using name_free
    have id_new : ∀ a ∈ r.present kind, a.id ≠ id := by
      simpa [Registry.find] using id_free
    obtain ⟨p', entered, rep'⟩ := rep.enter name_new id_new
    refine ⟨p', ?_, rep'⟩
    simp [name_free, id_free, memory_ok, entered]

theorem first_ne_none (rep : p.Represents r) (some : r.present kind ≠ []) :
    (p.table kind).first ≠ none := by
  intro none
  have head := (rep.table kind).path.start_eq
  rw [none, eq_comm, List.head?_eq_none_iff, List.map_eq_nil_iff] at head
  exact some head

/-- A deletion of an entry that is there. -/
theorem del (rep : p.Represents r) (has : r.Has kind ptr) :
    ∃ p', p.del kind ptr = some p' ∧ p'.Represents (r.erase kind ptr) := by
  have locked : p.lock .pool = some { p with held := [.pool] } := by simp [lock, rep.held]
  obtain ⟨t', e, unlinked, here', most, holds⟩ := (rep.table kind).unlink has
  obtain ⟨a, member, rfl⟩ := List.mem_map.mp has
  obtain ⟨e', here, -⟩ := (rep.table kind).entry a member
  have some := rep.first_ne_none (List.ne_nil_of_mem member)
  let linked : Upool := ⟨Function.update p.table kind t', p.groups, []⟩
  have dropped : linked.decref kind a.ptr = Option.some (linked.recount kind a.ptr (· - 1)) :=
    decref_eq (by simp [linked]) (by simpa [linked] using here') most
  refine ⟨linked.recount kind a.ptr (· - 1), ?_, ?_⟩
  · rw [Upool.del, here, locked]
    simpa [some, unlinked, update, unlock, linked] using dropped
  · refine ⟨rfl, fun other => ?_, rep.groups, rep.known⟩
    by_cases same : other = kind
    · subst same
      simpa [linked, Upool.recount, update, Registry.erase] using holds
    · simpa [linked, Upool.recount, update, Registry.erase, same] using rep.table other

/-- A deletion from an empty list. -/
theorem del_nil (rep : p.Represents r) (live : ptr < r.made kind) (empty : r.present kind = []) :
    p.del kind ptr = some p ∧ r.erase kind ptr = r := by
  obtain ⟨e, here, -⟩ := (rep.table kind).live ptr live
  have none : (p.table kind).first = none := by
    rw [(rep.table kind).path.start_eq, empty]
    rfl
  refine ⟨by rw [Upool.del, here]; simp [none], ?_⟩
  have same : Function.update r.present kind [] = r.present := by
    rw [← empty, Function.update_eq_self]
  simp [Registry.erase, empty, same]

/-- A membership check. -/
theorem ismember (rep : p.Represents r) {u g : ℕ} (live : u < r.made .user) :
    p.npPrivIsmember u g = some (r.member u g, p) := by
  obtain ⟨e, here, -⟩ := (rep.table .user).live u live
  have member : decide (g ∈ p.groups u) = r.member u g := by
    rw [Bool.eq_iff_iff, decide_eq_true_iff]
    exact rep.groups u g
  have locked : p.lock (.entry .user u) = some { p with held := [.entry .user u] } := by
    simp [lock, rep.held]
  have same : { p with held := [] } = p := by rw [← rep.held]
  rw [npPrivIsmember, locked]
  simp [here, member, unlock, same]

/-- An addition to a group. -/
theorem adduser (rep : p.Represents r) {u g : ℕ} (memory : Bool) (live : u < r.made .user)
    (group : g < r.made .group) :
    ∃ p', (p.npPrivGroupAdduser g u memory).map (fun found => (Answer.code found.1, found.2)) =
        some ((r.call (.adduser g u memory)).1, p') ∧
      p'.Represents (r.call (.adduser g u memory)).2 := by
  obtain ⟨e, here, -⟩ := (rep.table .group).live g group
  have locked : p.lock (.entry .group g) = some { p with held := [.entry .group g] } := by
    simp [lock, rep.held]
  rw [npPrivGroupAdduser, rep.ismember live]
  simp only [Option.bind_eq_bind, Option.bind_some, Registry.call, locked]
  cases member : r.member u g with
  | true => exact ⟨p, rfl, rep⟩
  | false =>
      cases memory with
      | false =>
          have same : { p with held := [] } = p := by rw [← rep.held]
          exact ⟨p, by simp [here, unlock, same], rep⟩
      | true =>
          refine ⟨⟨p.table, Function.update p.groups u (p.groups u ++ [g]), []⟩,
            by simp [here, unlock], rfl, rep.table, fun v k => ?_, fun v k is => ?_⟩
          · by_cases user : v = u
            · subst user
              by_cases same : k = g
              · simp [Registry.setMember, same]
              · simpa [Registry.setMember, same] using rep.groups v k
            · simpa [Registry.setMember, user] using rep.groups v k
          · by_cases user : v = u
            · exact user ▸ live
            · exact rep.known v k (by simpa [Registry.setMember, user] using is)

/-- A call that fits returns the right answer, and the pool still is what the registry says. -/
theorem run (rep : p.Represents r) {c : Call} (valid : r.Valid c) (fits : r.Fits c) :
    ∃ p', p.run c = some ((r.call c).1, p') ∧ p'.Represents (r.call c).2 ∧
      ∀ kind ptr, c = .del kind ptr → ¬ r.Has kind ptr → p' = p := by
  cases c with
  | add kind name id memory =>
      obtain ⟨p', added, rep'⟩ := rep.add kind name id memory
      have is : p.run (.add kind name id memory) =
          (p.add kind name id memory).map fun r => (.entry r.1, r.2) := by
        cases kind <;> rfl
      exact ⟨p', is.trans added, rep', fun _ _ is => by cases is⟩
  | del kind ptr =>
      have is : p.run (.del kind ptr) = (p.del kind ptr).map fun p => (.void, p) := by
        cases kind <;> rfl
      by_cases has : r.Has kind ptr
      · obtain ⟨p', deleted, rep'⟩ := rep.del has
        refine ⟨p', by rw [is, deleted]; rfl, rep', fun kind' ptr' same absent => ?_⟩
        cases same
        exact absurd has absent
      · obtain ⟨deleted, same⟩ := rep.del_nil valid (fits.resolve_left has)
        refine ⟨p, by rw [is, deleted]; rfl, ?_, fun _ _ _ _ => rfl⟩
        rw [Registry.call, same]
        exact rep
  | byName kind name =>
      obtain ⟨p', found, rep'⟩ := rep.lookup kind fun text _ => text = name
      have is : p.run (.byName kind name) =
          (p.lookup kind fun text _ => text = name).map fun r => (.entry r.1, r.2) := by
        cases kind <;> rfl
      exact ⟨p', by rw [is, found]; rfl, rep', fun _ _ is => by cases is⟩
  | byId kind id =>
      obtain ⟨p', found, rep'⟩ := rep.lookup kind fun _ number => number = id
      have is : p.run (.byId kind id) =
          (p.lookup kind fun _ number => number = id).map fun r => (.entry r.1, r.2) := by
        cases kind <;> rfl
      exact ⟨p', by rw [is, found]; rfl, rep', fun _ _ is => by cases is⟩
  | adduser g u memory =>
      obtain ⟨p', added, rep'⟩ := rep.adduser memory valid.1 valid.2
      exact ⟨p', added, rep', fun _ _ is => by cases is⟩
  | deluser g u => exact fits.elim
  | ismember u g =>
      have is : p.run (.ismember u g) =
          (p.npPrivIsmember u g).map fun r => (.member r.1, r.2) := rfl
      exact ⟨p, by rw [is, rep.ismember valid.1]; rfl, rep, fun _ _ is => by cases is⟩

end Represents

/-- Taking a user out of a group does not return. -/
theorem npPrivGroupDeluser_eq (p : Upool) (g u : ℕ) : p.npPrivGroupDeluser g u = none := by
  unfold npPrivGroupDeluser
  by_cases held : .entry .group g ∈ p.held
  · simp [lock, held]
  · -- the second lock finds the first one
    simp [lock, held]

/-- An entry that loses a reference is freed, or has one less. -/
theorem get_of_drop {p' : Upool} {destroy : Upool → Option Upool}
    (here : (p.table kind).get ptr = some e) (dropped : p.drop kind ptr destroy = some p') :
    (p'.table kind).get ptr ≠ some e ∨ e.refcount = 0 := by
  by_cases held : .entry kind ptr ∈ p.held
  · simp [drop, lock, held] at dropped
  · by_cases more : 0 < e.refcount - 1
    · simp only [drop, lock, if_neg held, Option.bind_eq_bind, Option.bind_some, here,
        if_pos more] at dropped
      refine .inl fun same => ?_
      rw [← Option.some.inj dropped] at same
      have less : e.refcount - 1 = e.refcount := by
        simpa [unlock, Upool.recount, update, Table.get_recount, here] using congrArg
          (Option.map Entry.refcount) same
      omega
    · simp only [drop, lock, if_neg held, Option.bind_eq_bind, Option.bind_some, here,
        if_neg more] at dropped
      obtain ⟨q, -, rfl⟩ : ∃ q, destroy _ = some q ∧ _ = p' := by
        simpa [Option.bind_eq_some_iff] using dropped
      refine .inl fun same => ?_
      simp [unlock, update, Table.get] at same

/-- A deletion of an entry that is not there changes something, unless nothing is there. -/
theorem Represents.del_absent (rep : p.Represents r) (live : ptr < r.made kind)
    (absent : ¬ r.Has kind ptr) (some : r.present kind ≠ []) : p.del kind ptr ≠ Option.some p := by
  intro same
  obtain ⟨e, here, least⟩ := (rep.table kind).live ptr live
  have first := rep.first_ne_none some
  have locked : p.lock .pool = Option.some { p with held := [.pool] } := by simp [lock, rep.held]
  rcases LinkedChain.locate_of_path (· = ptr) none (rep.table kind).path
      (rep.table kind).length_le with ⟨last, located, -⟩ | ⟨front, q, back, split, found, -⟩
  · let linked : Upool :=
      ⟨Function.update p.table kind ((p.table kind).relink last e.next), p.groups, []⟩
    have unlinked : (p.table kind).unlink ptr =
        Option.some ((p.table kind).relink last e.next) := by
      rw [Table.unlink, located]
      simp [here]
    obtain ⟨destroy, is⟩ := linked.decref_eq_drop kind ptr
    have dropped : linked.drop kind ptr destroy = Option.some p := by
      rw [Upool.del, here, locked] at same
      simpa [first, unlinked, update, unlock, linked, ← is] using same
    have here' : (linked.table kind).get ptr = Option.some e := by
      have kept : ((p.table kind).relink last e.next).get ptr = Option.some e := by
        rw [Table.get_relink here]
        split_ifs <;> rfl
      simpa [linked] using kept
    rcases get_of_drop here' dropped with other | zero
    · exact other here
    · omega
  · refine absent ?_
    obtain rfl : q = ptr := by simpa using found
    rw [Registry.Has, split]
    exact List.mem_append_right _ List.mem_cons_self


end Upool

namespace History

variable {h h' : History} {c : Call}

theorem sane_of_represents (rep : h.pool.Represents h.registry) : h.Sane where
  unlocked := rep.held
  listed kind := (rep.table kind).listed_eq
  names kind := (rep.table kind).names
  ids kind := (rep.table kind).ids

/-- A call behaves exactly if it fits. -/
theorem behaves_iff_fits (rep : h.pool.Represents h.registry) (valid : h.Valid c) :
    h.Behaves c ↔ h.Fits c := by
  constructor
  · rintro ⟨pool, returned, -, untouched⟩
    cases c with
    | deluser g u =>
        rw [Upool.run, Upool.npPrivGroupDeluser_eq] at returned
        cases returned
    | del kind ptr =>
        by_contra misfit
        obtain ⟨absent, some⟩ := not_or.mp misfit
        have same := untouched kind ptr rfl absent
        have is : h.pool.run (.del kind ptr) = (h.pool.del kind ptr).map fun p => (.void, p) := by
          cases kind <;> rfl
        rw [is] at returned
        obtain ⟨pool', deleted, pair⟩ := Option.map_eq_some_iff.mp returned
        have behind : pool' = pool := congrArg Prod.snd pair
        exact rep.del_absent valid absent some (by rw [deleted, behind, same])
    | add kind name id memory => trivial
    | byName kind name => trivial
    | byId kind id => trivial
    | adduser g u memory => trivial
    | ismember u g => trivial
  · intro fits
    obtain ⟨pool, returned, rep', untouched⟩ := rep.run valid fits
    exact ⟨pool, returned, rep'.held, untouched⟩

/-- In every run whose calls fit, the pool is as it should be, and a further call does what it
should exactly if it fits. -/
theorem behaves_iff_of_run
    (run : Transition.Reaches step (fun h c => h.Valid c ∧ h.Fits c) start h) :
    h.Sane ∧ ∀ c, h.Valid c → (h.Behaves c ↔ h.Fits c) := by
  have rep : h.pool.Represents h.registry := by
    refine run.invariant (fun h => h.pool.Represents h.registry) Upool.Represents.start ?_
    intro h h' c rep guard taken
    obtain ⟨pool, returned, rep', -⟩ := rep.run guard.1 guard.2
    rw [step, returned] at taken
    obtain rfl := Option.some.inj taken
    exact rep'
  exact ⟨sane_of_represents rep, fun c valid => behaves_iff_fits rep valid⟩

instance (c : Call) : Decidable (h.Valid c) :=
  match c with
  | .del kind ptr => inferInstanceAs (Decidable (ptr < h.registry.made kind))
  | .adduser g u _ | .deluser g u | .ismember u g => inferInstanceAs
      (Decidable (u < h.registry.made .user ∧ g < h.registry.made .group))
  | .add _ _ _ _ | .byName _ _ | .byId _ _ => .isTrue trivial

instance (c : Call) : Decidable (h.Fits c) :=
  match c with
  | .del kind ptr => inferInstanceAs
      (Decidable (h.registry.Has kind ptr ∨ h.registry.present kind = []))
  | .deluser _ _ => .isFalse id
  | .add _ _ _ _ | .byName _ _ | .byId _ _ | .adduser _ _ _ | .ismember _ _ => .isTrue trivial

/-- A user and two groups are added, the user joins the first, and the second is deleted. -/
theorem behaves_iff_of_run_join : ∃ h : History, (h.registry.present .group).length = 1 ∧
    h.registry.member 0 0 = true ∧ h.Sane ∧ ∀ c, h.Valid c → (h.Behaves c ↔ h.Fits c) := by
  have played : (Transition.play step (fun h c => h.Valid c ∧ h.Fits c) start
      [.add .user (cstr "alice") 1000 true, .add .group (cstr "users") 100 true,
        .add .group (cstr "wheel") 10 true, .adduser 0 0 true, .del .group 1]).map
        (fun h => ((h.registry.present .group).length, h.registry.member 0 0)) =
          some (1, true) := by
    decide +kernel
  obtain ⟨h, is, fields⟩ := Option.map_eq_some_iff.mp played
  obtain ⟨groups, member⟩ : (h.registry.present .group).length = 1 ∧
      h.registry.member 0 0 = true := by
    simpa using fields
  exact ⟨h, groups, member, behaves_iff_of_run (Transition.reaches_of_play is)⟩

/-- The user leaves the group again: the call does not return. -/
theorem not_behaves_of_run : ¬ ∀ h, Transition.Reaches step Valid start h →
    h.Sane ∧ ∀ c, h.Valid c → h.Behaves c := by
  intro all
  have played : (Transition.play step Valid start
      [.add .user (cstr "alice") 1000 true, .add .group (cstr "users") 100 true,
        .adduser 0 0 true]).map (fun h => (h.registry.made .user, h.registry.made .group)) =
          some (1, 1) := by
    decide +kernel
  obtain ⟨h, is, made⟩ := Option.map_eq_some_iff.mp played
  obtain ⟨users, groups⟩ : h.registry.made .user = 1 ∧ h.registry.made .group = 1 := by
    simpa using made
  have valid : h.Valid (.deluser 0 0) :=
    ⟨users ▸ Nat.zero_lt_one, groups ▸ Nat.zero_lt_one⟩
  obtain ⟨pool, returned, -⟩ := (all h (Transition.reaches_of_play is)).2 _ valid
  rw [Upool.run, Upool.npPrivGroupDeluser_eq] at returned
  cases returned

end History

end Private

end Npfs
