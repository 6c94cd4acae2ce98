import Npfs.FusFids
import Npfs.FusNames

/-!
# The paths of the fids of `fus`

The path of a record is in its own storage or in a block of the heap.  A connection is ready if its
chains end and each of its records that is used has a number below `Fidtblsz`.
-/

namespace Npfs

namespace FusFids

namespace Conn

variable (conn : Conn)

/-- What a path points at. -/
def memory : PathPtr → Option (List UInt8)
  | .cpath f => (conn.get f).map (·.cpath)
  | .block b => conn.blocks.get b

/-- The memory that a path points at is another one. -/
def setMemory (path : PathPtr) (mem : List UInt8) : Conn :=
  match path with
  | .cpath f => conn.modify f fun record => { record with cpath := mem }
  | .block b => { conn with blocks := conn.blocks.modify b fun _ => mem }

/-- The path of a record. -/
def pathOf (f : Place) : Option (List UInt8) := do
  let record ← conn.get f
  let path ← record.path
  let mem ← conn.memory path
  cut mem

/-- `free`. -/
def free : PathPtr → Option Conn
  | .cpath _ => none
  | .block b => some { conn with blocks := conn.blocks.free b }

end Conn

/-- The path and the type of a fid that has a path. -/
def Conn.view (conn : Conn) (n : UInt32) : Option (List UInt8 × UInt8) := do
  let f ← (fidget conn n).join
  let record ← conn.get f
  let path ← conn.pathOf f
  return (path, record.type)

/-! ## Connections -/

/-- The number of a record that is not above the array. -/
def Place.number : Place → ℕ
  | .table i => i
  | .heap _ => 0

/-- A record has its number, or it is not used, and its storage is its own. -/
structure Fid.Ok (f : Place) (record : Fid) : Prop where
  numbered : record.fid.toNat = f.number ∨ record.fid = noFid ∧ record.path = none
  size : record.cpath.length = 256
  own : ∀ g, record.path = some (.cpath g) → g = f

/-- A connection is as `conncreate`, `fidcreate` and `fiddestroy` leave it. -/
structure Conn.Ready (conn : Conn) : Prop where
  ok : ∀ f record, conn.get f = some record → record.Ok f
  chained : ∀ hash, ∃ chain, LinkedChain.Path conn.next (conn.fidhtbl hash) chain ∧
    ∀ p ∈ chain, p < conn.fids.next

/-- One of the records is another one, and the blocks may be others. -/
structure Conn.Changed (conn : Conn) (f : Place) (record : Fid) (conn' : Conn) : Prop where
  here : conn'.get f = some record
  other : ∀ g ≠ f, conn'.get g = conn.get g
  next : conn'.next = conn.next
  fidhtbl : conn'.fidhtbl = conn.fidhtbl
  fresh : conn'.fids.next = conn.fids.next

/-- A record that is not used. -/
def Fid.dead : Fid := { Fid.zero with fid := noFid }

theorem Fid.ok_dead {f : Place} : Fid.dead.Ok f where
  numbered := .inr ⟨rfl, rfl⟩
  size := List.length_replicate
  own _ none := by cases none

namespace Conn

variable {conn conn' conn'' : Conn} {f g : Place} {r r' : Fid} {n : UInt32}

/-! ### One record is another one -/

theorem Changed.refl (found : conn.get f = some r) : conn.Changed f r conn :=
  ⟨found, fun _ _ => rfl, rfl, rfl, rfl⟩

theorem Changed.trans (changed : conn.Changed f r conn') (changed' : conn'.Changed f r' conn'') :
    conn.Changed f r' conn'' where
  here := changed'.here
  other g different := (changed'.other g different).trans (changed.other g different)
  next := changed'.next.trans changed.next
  fidhtbl := changed'.fidhtbl.trans changed.fidhtbl
  fresh := changed'.fresh.trans changed.fresh

theorem Changed.blocks (changed : conn.Changed f r conn') (blocks : Cells (List UInt8)) :
    conn.Changed f r { conn' with blocks } where
  here := changed.here
  other := changed.other
  next := changed.next
  fidhtbl := changed.fidhtbl
  fresh := changed.fresh

theorem changed_modify {change : Fid → Fid} (found : conn.get f = some r)
    (linked : ∀ p, f = .heap p → (change r).next = r.next) :
    conn.Changed f (change r) (conn.modify f change) := by
  cases f with
  | table i =>
      obtain rfl := Option.some.inj found
      refine ⟨congrArg some (Function.update_self _ _ _), fun g different => ?_, rfl, rfl, rfl⟩
      cases g with
      | table j =>
          refine congrArg some (Function.update_of_ne (fun same => different ?_) _ _)
          rw [same]
      | heap p => rfl
  | heap p =>
      have found' : conn.fids.get p = some r := found
      refine ⟨?_, fun g different => ?_, ?_, rfl, Cells.next_modify⟩
      · rw [modify, get, Cells.get_modify_self, found', Option.map_some]
      · cases g with
        | table i => rfl
        | heap q =>
            refine Cells.get_modify_ne fun same => different ?_
            rw [same]
      · funext q
        rw [modify, Conn.next, Conn.next]
        by_cases same : q = p
        · subst same
          rw [Cells.get_modify_self, found', Option.map_some, Option.elim_some, Option.elim_some,
            linked q rfl]
        · rw [Cells.get_modify_ne same]

@[simp] theorem blocks_modify {change : Fid → Fid} :
    (conn.modify f change).blocks = conn.blocks := by
  cases f <;> rfl

theorem fiddestroy_eq (found : conn.get f = some r) (numbered : r.fid < Fidtblsz) :
    fiddestroy conn f = some (conn.modify f fun _ => Fid.dead) := by
  rw [fiddestroy, found]
  simp only [Option.bind_eq_bind, Option.bind_some, if_pos numbered]
  rfl

theorem Ready.changed (ready : conn.Ready) (changed : conn.Changed f r conn') (ok : r.Ok f) :
    conn'.Ready where
  ok g record found := by
    by_cases same : g = f
    · subst same
      obtain rfl := Option.some.inj (changed.here.symm.trans found)
      exact ok
    · rw [changed.other g same] at found
      exact ready.ok g record found
  chained hash := by
    rw [changed.next, changed.fidhtbl, changed.fresh]
    exact ready.chained hash

/-! ### The fids -/

/-- A chain visits no more records than there are. -/
theorem length_chain {start : Option ℕ} {chain : List ℕ}
    (path : LinkedChain.Path conn.next start chain) (inside : ∀ p ∈ chain, p < conn.fids.next) :
    chain.length ≤ conn.fids.next := by
  have subset : chain ⊆ List.range conn.fids.next := fun p member =>
    List.mem_range.mpr (inside p member)
  simpa using (List.subperm_of_subset path.nodup subset).length_le

theorem fidget_large {chain : List ℕ} (large : ¬ n < Fidtblsz)
    (path : LinkedChain.Path conn.next (conn.fidhtbl (hashOf n)) chain)
    (inside : ∀ p ∈ chain, p < conn.fids.next) :
    fidget conn n =
      some ((chain.find? fun p => (conn.fids.get p).any (·.fid = n)).map .heap) := by
  rw [fidget, if_neg large, LinkedChain.search_of_path path (length_chain path inside)]
  rfl

/-- What is found above the array is a record that is not used. -/
theorem Ready.large (ready : conn.Ready) (large : ¬ n < Fidtblsz) :
    ∃ found, fidget conn n = some found ∧ ∀ f, found = some f →
      n = noFid ∧ ∃ record, conn.get f = some record ∧ record.path = none := by
  obtain ⟨chain, path, inside⟩ := ready.chained (hashOf n)
  refine ⟨_, fidget_large large path inside, fun f is => ?_⟩
  obtain ⟨p, found, rfl⟩ := Option.map_eq_some_iff.mp is
  have wanted := List.find?_some found
  obtain ⟨record, stored, same⟩ := (Option.any_eq_true _ _).mp wanted
  obtain rfl := of_decide_eq_true same
  rcases (ready.ok (.heap p) record stored).numbered with zero | ⟨unused, pathless⟩
  · refine absurd (UInt32.lt_iff_toNat_lt.mpr ?_) large
    rw [zero]
    change 0 < Fidtblsz.toNat
    decide
  · exact ⟨unused, record, stored, pathless⟩

theorem Ready.fidget_some (ready : conn.Ready) (n : UInt32) :
    ∃ found, fidget conn n = some found := by
  by_cases small : n < Fidtblsz
  · exact ⟨_, fidget_small small⟩
  · obtain ⟨found, is, -⟩ := ready.large small
    exact ⟨found, is⟩

/-- The memory of a path of a record. -/
def memoryOf (conn : Conn) (record : Fid) : PathPtr → Option (List UInt8)
  | .cpath _ => some record.cpath
  | .block b => conn.blocks.get b

/-- The path of a record whose storage is its own. -/
def text (conn : Conn) (record : Fid) : Option (List UInt8) := do
  let path ← record.path
  let mem ← conn.memoryOf record path
  cut mem

theorem pathOf_eq (ok : r.Ok f) (found : conn.get f = some r) : conn.pathOf f = conn.text r := by
  rw [pathOf, text, found]
  simp only [Option.bind_eq_bind, Option.bind_some]
  cases path : r.path with
  | none => rfl
  | some path' =>
      cases path' with
      | block b => rfl
      | cpath g =>
          obtain rfl := ok.own g path
          simp only [Option.bind_some, memory, found, Option.map_some, memoryOf]

theorem text_congr (same : ∀ b, conn'.blocks.get b = conn.blocks.get b) :
    conn'.text r = conn.text r := by
  have memory : conn'.memoryOf r = conn.memoryOf r := by
    funext path
    cases path with
    | cpath g => rfl
    | block b => exact same b
  rw [text, text, memory]

theorem text_none (pathless : r.path = none) : conn.text r = none := by
  rw [text, pathless]
  rfl

theorem Ready.view_small (ready : conn.Ready) (small : n < Fidtblsz) :
    conn.view n = (conn.text (conn.fidtbl n.toNat)).map
      (·, (conn.fidtbl n.toNat).type) := by
  have ok := ready.ok (.table n.toNat) _ rfl
  rw [view, fidget_small small, ← pathOf_eq ok rfl]
  split_ifs with free
  · have pathless : (conn.fidtbl n.toNat).path = none := by
      refine ok.numbered.elim (fun numbered => ?_) And.right
      rw [free] at numbered
      exact absurd (UInt32.toNat_inj.mp numbered) (ne_noFid small).symm
    rw [pathOf_eq ok rfl, text_none pathless]
    rfl
  · simp only [Option.join_some, Option.bind_eq_bind, Option.bind_some, get]
    cases conn.pathOf (.table n.toNat) <;> rfl

theorem Ready.view_large (ready : conn.Ready) (large : ¬ n < Fidtblsz) : conn.view n = none := by
  obtain ⟨found, is, unused⟩ := ready.large large
  rw [view, is]
  cases found with
  | none => rfl
  | some f =>
      obtain ⟨-, record, stored, pathless⟩ := unused f rfl
      have none := pathOf_eq (ready.ok f record stored) stored
      rw [text_none pathless] at none
      simp only [Option.join_some, Option.bind_eq_bind, Option.bind_some, stored, none,
        Option.bind_none]

/-- A change that the paths do not show. -/
theorem Changed.view_eq (changed : conn.Changed f r' conn') (ready : conn.Ready) (ok : r'.Ok f)
    (found : conn.get f = some r) (blocks : ∀ b, conn'.blocks.get b = conn.blocks.get b)
    (same : (conn.text r').map (·, r'.type) = (conn.text r).map (·, r.type)) (n : UInt32) :
    conn'.view n = conn.view n := by
  have ready' := ready.changed changed ok
  by_cases small : n < Fidtblsz
  · rw [ready.view_small small, ready'.view_small small, text_congr blocks]
    by_cases here : .table n.toNat = f
    · subst here
      rw [Option.some.inj changed.here, same]
      obtain rfl := Option.some.inj found
      rfl
    · rw [Option.some.inj (changed.other _ here)]
  · rw [ready.view_large small, ready'.view_large small]

end Conn

/-! ## What is found -/

/-! ## The two fids -/

section Fids

variable {conn : Conn} {fid : Place} {r : Fid} {n : UInt32} {text : List UInt8}

theorem not_mem_of_cut {mem : List UInt8} (is : cut mem = some text) : 0 ∉ text := by
  rw [cut] at is
  split_ifs at is
  obtain rfl := Option.some.inj is
  intro zero
  simpa using List.mem_takeWhile_imp zero

theorem Conn.not_mem_text (is : conn.text r = some text) : 0 ∉ text := by
  obtain ⟨path, -, is⟩ := Option.bind_eq_some_iff.mp is
  obtain ⟨mem, -, is⟩ := Option.bind_eq_some_iff.mp is
  exact not_mem_of_cut is

/-- The source of a walk is in the array. -/
theorem Conn.Ready.source (ready : conn.Ready) (found : fidget conn n = some (some fid))
    (path : conn.pathOf fid = some text) : n < Fidtblsz ∧ fid = .table n.toNat ∧
      (conn.fidtbl n.toNat).fid = n ∧ conn.text (conn.fidtbl n.toNat) = some text := by
  by_cases small : n < Fidtblsz
  · rw [fidget_small small] at found
    split_ifs at found with used
    · cases Option.some.inj found
    · obtain rfl := Option.some.inj (Option.some.inj found)
      have ok := ready.ok (.table n.toNat) _ rfl
      rw [Conn.pathOf_eq ok rfl] at path
      refine ⟨small, rfl, UInt32.toNat_inj.mp (ok.numbered.resolve_right fun unused => ?_), path⟩
      exact used unused.1
  · obtain ⟨found', is, unused⟩ := ready.large small
    obtain rfl := Option.some.inj (found.symm.trans is)
    obtain ⟨-, record, here, pathless⟩ := unused fid rfl
    rw [Conn.pathOf_eq (ready.ok fid record here) here, Conn.text_none pathless] at path
    cases path

theorem Conn.Ready.view_source (ready : conn.Ready) (small : n < Fidtblsz)
    (is : conn.text (conn.fidtbl n.toNat) = some text) :
    conn.view n = some (text, (conn.fidtbl n.toNat).type) := by
  rw [ready.view_small small, is]
  rfl

/-- What is seen of a record of the array. -/
theorem Conn.Ready.view_here (ready : conn.Ready) (small : n < Fidtblsz)
    (here : conn.get (.table n.toNat) = some r) :
    conn.view n = (conn.text r).map (·, r.type) := by
  obtain rfl := Option.some.inj here
  exact ready.view_small small

theorem fidget_none_iff (small : n < Fidtblsz) (here : conn.get (.table n.toNat) = some r) :
    fidget conn n = some none ↔ r.fid = noFid := by
  obtain rfl := Option.some.inj here
  rw [fidget_small small]
  split_ifs with free
  · exact iff_of_true rfl free
  · exact iff_of_false (fun same => by cases same) free

/-- What `fidcreate` does in the array. -/
theorem Conn.Ready.numbered (ready : conn.Ready) (small : n < Fidtblsz)
    (free : (conn.fidtbl n.toNat).fid = noFid) : (conn.fidtbl n.toNat).path = none ∧
      Fid.Ok (.table n.toNat) { conn.fidtbl n.toNat with fid := n } ∧
      conn.Changed (.table n.toNat) { conn.fidtbl n.toNat with fid := n }
        (conn.modify (.table n.toNat) fun f => { f with fid := n }) := by
  have target : conn.get (.table n.toNat) = some (conn.fidtbl n.toNat) := rfl
  have ok := ready.ok _ _ target
  refine ⟨?_, ⟨.inl rfl, ok.size, ok.own⟩,
    @Conn.changed_modify conn _ _ (fun f => { f with fid := n }) target fun _ _ => rfl⟩
  refine (ok.numbered.resolve_left fun numbered => ?_).2
  rw [free] at numbered
  exact ne_noFid small (UInt32.toNat_inj.mp numbered).symm

theorem Fid.ok_zero {p : ℕ} : Fid.zero.Ok (.heap p) where
  numbered := .inl rfl
  size := List.length_replicate
  own _ none := by cases none

/-- The links when a record has been added. -/
theorem next_added {q : ℕ} : ({ conn with fids := conn.fids.push Fid.zero } : Conn).next q =
    if q = conn.fids.next then none else conn.next q := by
  rw [Conn.next, Cells.get_push]
  split_ifs <;> rfl

/-- Above the array: the record is the first or the last one of its chain. -/
theorem fidcreate_chain (ready : conn.Ready) (large : ¬ n < Fidtblsz) : ∃ conn' r,
    fidcreate conn n = some (some (.heap conn.fids.next), conn') ∧ conn'.Ready ∧
      conn'.fidtbl = conn.fidtbl ∧ conn'.blocks = conn.blocks ∧
      conn'.get (.heap conn.fids.next) = some r ∧ r.path = none ∧ r.fid = 0 ∧ r.next = none ∧
      ∃ chain, LinkedChain.Path conn'.next (conn'.fidhtbl (hashOf n)) chain ∧
        (∀ p ∈ chain, p < conn'.fids.next) ∧ conn.fids.next ∈ chain := by
  let added : Conn := { conn with fids := conn.fids.push Fid.zero }
  have fresh : added.fids.next = conn.fids.next + 1 := Cells.next_push
  have kept : ∀ q < conn.fids.next, added.next q = conn.next q := fun q below => by
    rw [next_added, if_neg below.ne]
  have new : added.next conn.fids.next = none := by rw [next_added, if_pos rfl]
  have ok : ∀ f record, added.get f = some record → record.Ok f := by
    intro f record here
    cases f with
    | table i => exact ready.ok (.table i) record here
    | heap q =>
        have here' : (conn.fids.push Fid.zero).get q = some record := here
        rw [Cells.get_push] at here'
        split_ifs at here' with same
        · obtain rfl := Option.some.inj here'
          exact Fid.ok_zero
        · exact ready.ok (.heap q) record here'
  cases first : conn.fidhtbl (hashOf n) with
  | none =>
      have alone : LinkedChain.Path added.next (some conn.fids.next) [conn.fids.next] :=
        .cons (by rw [new]; exact .nil)
      have start : (added.setChain (hashOf n) (some conn.fids.next)).fidhtbl (hashOf n) =
          some conn.fids.next := Function.update_self _ _ _
      refine ⟨added.setChain (hashOf n) (some conn.fids.next), Fid.zero,
        fidcreate_empty large first, ⟨ok, fun hash => ?_⟩, rfl, rfl, Cells.get_push_next, rfl, rfl,
        rfl, [conn.fids.next], ?_, ?_, List.mem_singleton_self _⟩
      · by_cases same : hash = hashOf n
        · refine ⟨[conn.fids.next], ?_, fun p member => ?_⟩
          · rw [same, start]
            exact alone
          · obtain rfl := List.mem_singleton.mp member
            exact fresh.symm ▸ Nat.lt_succ_self _
        · obtain ⟨chain, path, inside⟩ := ready.chained hash
          refine ⟨chain, ?_, fun p member => ?_⟩
          · have other : (added.setChain (hashOf n) (some conn.fids.next)).fidhtbl hash =
                conn.fidhtbl hash := Function.update_of_ne same _ _
            rw [other]
            exact path.congr fun q member => kept q (inside q member)
          · exact fresh.symm ▸ Nat.lt_succ_of_lt (inside p member)
      · rw [start]
        exact alone
      · intro p member
        obtain rfl := List.mem_singleton.mp member
        exact fresh.symm ▸ Nat.lt_succ_self _
  | some start =>
      obtain ⟨chain, path, inside⟩ := ready.chained (hashOf n)
      rw [first] at path
      obtain ⟨last, is⟩ : ∃ last, chain.getLast? = some last :=
        List.getLast?_isSome.mpr (List.ne_nil_of_mem path.start_mem) |> Option.isSome_iff_exists.mp
      obtain ⟨front, split⟩ := List.getLast?_eq_some_iff.mp is
      have member : last ∈ chain := List.mem_of_getLast? is
      have below := inside last member
      have ends : conn.next last = none := by
        rw [split] at path
        exact path.suffix.start_eq
      have walked : LinkedChain.walk added.next added.fids.next (some start) = some chain :=
        LinkedChain.walk_of_path (path.congr fun q member => kept q (inside q member))
          ((Conn.length_chain path inside).trans (fresh ▸ Nat.le_succ _))
      obtain ⟨record, here⟩ : ∃ record, added.fids.get last = some record := by
        rw [← kept last below, Conn.next] at ends
        cases here : added.fids.get last with
        | none => rw [here] at ends; cases ends
        | some record => exact ⟨record, rfl⟩
      let added' := added.modify (.heap last) fun f => { f with next := some conn.fids.next }
      have fresh' : added'.fids.next = conn.fids.next + 1 := Cells.next_modify.trans fresh
      have changed : added'.fids.get last = some { record with next := some conn.fids.next } := by
        change (added.fids.modify last _).get last = _
        rw [Cells.get_modify_self, here]
        rfl
      have behind : added'.next last = some conn.fids.next := by
        rw [Conn.next, changed]
        rfl
      have others : ∀ q ≠ last, added'.fids.get q = added.fids.get q := fun q different =>
        Cells.get_modify_ne different
      have kept' : ∀ q ≠ last, added'.next q = added.next q := fun q different => by
        rw [Conn.next, others q different, Conn.next]
      have ok' : added'.Ready := by
        refine ⟨fun f record' here' => ?_, fun hash => ?_⟩
        · cases f with
          | table i => exact ready.ok (.table i) record' here'
          | heap q =>
              by_cases same : q = last
              · subst same
                obtain rfl := Option.some.inj (changed.symm.trans here')
                have before := ok (.heap q) record here
                exact ⟨before.numbered, before.size, before.own⟩
              · exact ok (.heap q) record' ((others q same).symm.trans here')
        · obtain ⟨chain, path, inside⟩ := ready.chained hash
          obtain ⟨chain', path', among, -⟩ := path.extend ends behind
            ((kept' _ below.ne').trans new) fun q is different =>
              (kept' q different).trans (kept q (inside q is))
          refine ⟨chain', path', fun q is => fresh'.symm ▸ ?_⟩
          exact (among q is).elim (fun is => Nat.lt_succ_of_lt (inside q is)) fun is => is ▸
            Nat.lt_succ_self _
      obtain ⟨chain', path', among, reaches⟩ := path.extend ends behind
        ((kept' _ below.ne').trans new) fun q is different =>
          (kept' q different).trans (kept q (inside q is))
      refine ⟨added', Fid.zero, ?_, ok', rfl, rfl, (others _ below.ne').trans Cells.get_push_next,
        rfl, rfl, rfl, chain', ?_, fun q is => fresh'.symm ▸ ?_, reaches member⟩
      · rw [fidcreate, if_neg large]
        dsimp only
        rw [first]
        change (LinkedChain.walk added.next added.fids.next (some start)).bind _ = _
        rw [walked]
        change chain.getLast?.bind _ = _
        rw [is]
        rfl
      · change LinkedChain.Path added'.next (conn.fidhtbl (hashOf n)) chain'
        rwa [first]
      · exact (among q is).elim (fun is => Nat.lt_succ_of_lt (inside q is)) fun is => is ▸
          Nat.lt_succ_self _

end Fids

/-! ## Connections are ready -/

theorem ready_conncreate : conncreate.Ready where
  ok f record found := by
    cases f with
    | table i =>
        obtain rfl := Option.some.inj found
        exact Fid.ok_dead
    | heap p => cases found
  chained _ := ⟨[], .nil, fun _ none => by cases none⟩

section Ready

variable {conn conn' : Conn} {newfid : Place} {r : Fid} {n : UInt32}

/-- `fidcreate` makes a record without a path. -/
theorem Conn.Ready.fidcreate (ready : conn.Ready)
    (created : FusFids.fidcreate conn n = some (some newfid, conn')) : conn'.Ready ∧
      conn'.blocks = conn.blocks ∧
      (∀ i, (conn.fidtbl i).fid ≠ noFid → newfid ≠ .table i ∧ conn'.fidtbl i = conn.fidtbl i) ∧
      ∃ r, conn'.get newfid = some r ∧ r.fid.toNat = newfid.number ∧ r.fid < Fidtblsz ∧
        r.path = none ∧ ∀ p, newfid = .heap p → r.next = none := by
  by_cases small : n < Fidtblsz
  · rw [fidcreate_small small] at created
    split_ifs at created with used
    · cases Option.some.inj created
    · obtain ⟨made, rfl⟩ := Prod.mk.inj (Option.some.inj created)
      obtain rfl := Option.some.inj made
      obtain ⟨pathless, ok, changed⟩ := ready.numbered small (not_not.mp used)
      refine ⟨ready.changed changed ok, rfl, fun i other => ?_, _, changed.here, rfl, small,
        pathless, nofun⟩
      have different : n.toNat ≠ i := fun same => other (same ▸ not_not.mp used)
      exact ⟨fun same => different (Place.table.inj same),
        Function.update_of_ne different.symm _ _⟩
  · obtain ⟨conn'', r, created', ready', fidtbl, blocks, here, pathless, zero, last, -⟩ :=
      fidcreate_chain ready small
    obtain ⟨made, rfl⟩ := Prod.mk.inj (Option.some.inj (created'.symm.trans created))
    obtain rfl := Option.some.inj made
    refine ⟨ready', blocks, fun i _ => ⟨nofun, by rw [fidtbl]⟩, r, here, ?_, ?_, pathless,
      fun _ _ => last⟩
    · rw [zero]
      rfl
    · rw [zero]
      decide

/-- `fidcreate` of a number that is in use. -/
theorem Conn.Ready.fidcreate_none (ready : conn.Ready)
    (created : FusFids.fidcreate conn n = some (none, conn')) : conn' = conn := by
  by_cases small : n < Fidtblsz
  · rw [fidcreate_small small] at created
    split_ifs at created with used
    · exact (Prod.mk.inj (Option.some.inj created)).2.symm
    · cases (Prod.mk.inj (Option.some.inj created)).1
  · obtain ⟨conn'', r, created', -⟩ := fidcreate_chain ready small
    cases (Prod.mk.inj (Option.some.inj (created'.symm.trans created))).1

/-- `fiddestroy` of a record that is used. -/
theorem Conn.Ready.fiddestroy (ready : conn.Ready) (found : conn.get newfid = some r)
    (tiny : r.fid < Fidtblsz) : ∃ conn', FusFids.fiddestroy conn newfid = some conn' ∧
      conn'.Ready ∧ conn'.get newfid = some Fid.dead := by
  refine ⟨_, Conn.fiddestroy_eq found tiny, ?_⟩
  cases newfid with
  | table i =>
      have changed := @Conn.changed_modify conn _ _ (fun _ => Fid.dead) found nofun
      exact ⟨ready.changed changed Fid.ok_dead, changed.here⟩
  | heap p =>
      have found' : conn.fids.get p = some r := found
      have dead : (conn.fids.modify p fun _ => Fid.dead).get p = some Fid.dead := by
        rw [Cells.get_modify_self, found', Option.map_some]
      refine ⟨⟨fun f record here => ?_, fun hash => ?_⟩, dead⟩
      · cases f with
        | table i => exact ready.ok (.table i) record here
        | heap q =>
            have here' : (conn.fids.modify p fun _ => Fid.dead).get q = some record := here
            by_cases same : q = p
            · subst same
              obtain rfl := Option.some.inj (dead.symm.trans here')
              exact Fid.ok_dead
            · rw [Cells.get_modify_ne same] at here'
              exact ready.ok (.heap q) record here'
      · obtain ⟨chain, path, inside⟩ := ready.chained hash
        have ends : (conn.modify (.heap p) fun _ => Fid.dead).next p = none := by
          rw [Conn.next, Conn.modify, dead]
          rfl
        obtain ⟨chain', path', among⟩ := path.truncate ends fun q different => by
          rw [Conn.next, Conn.modify, Cells.get_modify_ne different, Conn.next]
        refine ⟨chain', path', fun q member => ?_⟩
        rw [Conn.modify, Cells.next_modify]
        exact inside q (among q member)

end Ready

end FusFids

end Npfs
