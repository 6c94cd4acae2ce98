import Npfs.Cells
import Npfs.LinkedChain
import Npfs.Message
import Npfs.Transition

/-!
# The fids of `fus`

A connection of `fs/fus.c` has the fids below `Fidtblsz` in an array, in which a record that is not
used has the number `~0`, and the others in the chains of a hash table.
-/

namespace Npfs

namespace FusFids

/-- `Fidtblsz`. -/
def Fidtblsz : UInt32 := 8192

/-- `Fidhtblsz`. -/
def Fidhtblsz : UInt32 := 32

/-- `~0`, in a `u32`. -/
def noFid : UInt32 := 0xFFFFFFFF

/-- Where a record is: in `conn->fidtbl`, or where `calloc` has put it. -/
inductive Place where
  | table (i : ℕ)
  | heap (p : ℕ)
  deriving DecidableEq

/-- What a path points at: the storage in a record, or a block of the heap. -/
inductive PathPtr where
  | cpath (f : Place)
  | block (b : ℕ)
  deriving DecidableEq

/-- The fields of a `Fid` that a walk needs. -/
structure Fid where
  fid : UInt32
  path : Option PathPtr
  cpath : List UInt8
  type : UInt8
  next : Option ℕ

/-- A record of zeros. -/
def Fid.zero : Fid := ⟨0, none, List.replicate 256 0, 0, none⟩

@[simp] theorem Fid.zero_fid : Fid.zero.fid = 0 := rfl

/-- The fids of a `Conn`, and the memory that their paths are in. -/
structure Conn where
  fidtbl : ℕ → Fid
  fidhtbl : ℕ → Option ℕ
  /-- The records that `calloc` has made. -/
  fids : Cells Fid
  blocks : Cells (List UInt8)

namespace Conn

variable (conn : Conn)

/-- What a pointer points to. -/
def get : Place → Option Fid
  | .table i => some (conn.fidtbl i)
  | .heap p => conn.fids.get p

/-- Change a record. -/
def modify (f : Place) (change : Fid → Fid) : Conn :=
  match f with
  | .table i => { conn with fidtbl := Function.update conn.fidtbl i (change (conn.fidtbl i)) }
  | .heap p => { conn with fids := conn.fids.modify p change }

/-- The link of a record.  A freed one does not lead on, and a loop that comes to it does not
end. -/
def next (p : ℕ) : Option ℕ := (conn.fids.get p).elim (some p) (·.next)

/-- A chain of the hash table is another one. -/
def setChain (hash : ℕ) (first : Option ℕ) : Conn :=
  { conn with fidhtbl := Function.update conn.fidhtbl hash first }

end Conn

/-- `fid % Fidhtblsz`. -/
def hashOf (fid : UInt32) : ℕ := (fid % Fidhtblsz).toNat

/-- `fidget`; `none` if the loop does not end. -/
def fidget (conn : Conn) (fid : UInt32) : Option (Option Place) :=
  if fid < Fidtblsz then
    some (if (conn.fidtbl fid.toNat).fid = noFid then none else some (.table fid.toNat))
  else
    (LinkedChain.search conn.next (fun p => (conn.fids.get p).any (·.fid = fid)) conn.fids.next
      (conn.fidhtbl (hashOf fid))).map fun found => found.map .heap

/-- `fidcreate`: the record, if it makes one. -/
def fidcreate (conn : Conn) (fid : UInt32) : Option (Option Place × Conn) :=
  if fid < Fidtblsz then
    if (conn.fidtbl fid.toNat).fid ≠ noFid then some (none, conn)
    else some (some (.table fid.toNat), conn.modify (.table fid.toNat) fun f => { f with fid })
  else
    let p := conn.fids.next
    let added := { conn with fids := conn.fids.push Fid.zero }
    match conn.fidhtbl (hashOf fid) with
    | none => some (some (.heap p), added.setChain (hashOf fid) (some p))
    | some first => do
      let chain ← LinkedChain.walk added.next added.fids.next (some first)
      let last ← chain.getLast?
      return (some (.heap p), added.modify (.heap last) fun f => { f with next := some p })

/-- `fiddestroy`; `none` if a loop does not end or something is used that is not there. -/
def fiddestroy (conn : Conn) (f : Place) : Option Conn := do
  let record ← conn.get f
  if record.fid < Fidtblsz then
    return conn.modify f fun _ => { Fid.zero with fid := noFid }
  else
    match f with
    | .table _ => none
    | .heap p =>
      let first ← conn.fidhtbl (hashOf record.fid)
      if first = p then
        let conn := conn.setChain (hashOf record.fid) record.next
        return { conn with fids := conn.fids.free p }
      else
        let chain ← LinkedChain.walk conn.next conn.fids.next (some first)
        let conn := match chain.find? fun q => conn.next q = some p with
          | none => conn
          | some q => conn.modify (.heap q) fun f => { f with next := record.next }
        return { conn with fids := conn.fids.free p }

/-- What `conncreate` makes. -/
def conncreate : Conn where
  fidtbl _ := { Fid.zero with fid := noFid }
  fidhtbl _ := none
  fids := .empty
  blocks := .empty

/-! ## Runs -/

/-- A connection, and the records that were created and not destroyed since, with the numbers that
they were created for. -/
structure History where
  conn : Conn
  live : List (UInt32 × Place)

inductive Call where
  | fidget (fid : UInt32)
  | fidcreate (fid : UInt32)
  /-- Of a record that has not been destroyed. -/
  | fiddestroy (f : Place)

namespace History

def start : History := ⟨conncreate, []⟩

/-- Make a call. -/
def step (s : History) : Call → Option History
  | .fidget fid => (fidget s.conn fid).map fun _ => s
  | .fidcreate fid => (fidcreate s.conn fid).map fun (f, conn) =>
      ⟨conn, (f.map (fid, ·)).toList ++ s.live⟩
  | .fiddestroy f =>
    if f ∈ s.live.map (·.2) then
      (fiddestroy s.conn f).map fun conn => ⟨conn, s.live.filter (·.2 ≠ f)⟩
    else none

/-- The table behaves as a map. -/
structure Maps (s : History) : Prop where
  /-- `fidget` returns the record that was created for a number and not destroyed since. -/
  found (n : UInt32) : ∃ f, fidget s.conn n = some f ∧ ∀ g, f = some g ↔ (n, g) ∈ s.live
  /-- `fidcreate` fails exactly if the number is in use. -/
  refused (n : UInt32) : ∃ f conn, fidcreate s.conn n = some (f, conn) ∧
    (f = none ↔ ∃ g, (n, g) ∈ s.live)
  /-- When a record is destroyed, all others are found as before. -/
  others : ∀ f ∈ s.live.map (·.2), ∃ conn, fiddestroy s.conn f = some conn ∧
    ∀ n g, (n, g) ∈ s.live → g ≠ f → fidget conn n = some (some g)
  /-- The chains end, and have no destroyed records in them. -/
  chained (hash : ℕ) : ∃ chain, LinkedChain.Path s.conn.next (s.conn.fidhtbl hash) chain ∧
    ∀ p ∈ chain, .heap p ∈ s.live.map (·.2)

/-- The number is not created, or it is one of the array. -/
def Small : Call → Prop
  | .fidcreate fid => fid < Fidtblsz
  | .fidget _ | .fiddestroy _ => True

instance : DecidablePred Small
  | .fidcreate fid => inferInstanceAs (Decidable (fid < Fidtblsz))
  | .fidget _ | .fiddestroy _ => inferInstanceAs (Decidable True)

end History

/-! ## The array -/

section Table

variable {conn : Conn} {n m : UInt32} {change : Fid → Fid}

theorem noFid_ge : ¬ noFid < Fidtblsz := by decide

theorem ne_noFid (small : n < Fidtblsz) : n ≠ noFid := fun same => noFid_ge (same ▸ small)

theorem fidget_small (small : n < Fidtblsz) : fidget conn n =
    some (if (conn.fidtbl n.toNat).fid = noFid then none else some (.table n.toNat)) :=
  if_pos small

theorem fidcreate_small (small : n < Fidtblsz) : fidcreate conn n =
    if (conn.fidtbl n.toNat).fid ≠ noFid then some (none, conn)
    else some (some (.table n.toNat), conn.modify (.table n.toNat) fun f => { f with fid := n }) :=
  if_pos small

/-- A record of the array that is in use is cleared. -/
theorem fiddestroy_small (small : n < Fidtblsz) (used : (conn.fidtbl n.toNat).fid = n) :
    fiddestroy conn (.table n.toNat) =
      some (conn.modify (.table n.toNat) fun _ => { Fid.zero with fid := noFid }) := by
  have found : conn.get (.table n.toNat) = some (conn.fidtbl n.toNat) := rfl
  rw [fiddestroy, found]
  simp only [Option.bind_eq_bind, Option.bind_some, used, if_pos small]
  rfl

theorem fidtbl_modify : (conn.modify (.table n.toNat) change).fidtbl m.toNat =
    if m = n then change (conn.fidtbl n.toNat) else conn.fidtbl m.toNat := by
  by_cases same : m = n
  · rw [if_pos same, same]
    exact Function.update_self _ _ _
  · rw [if_neg same]
    exact Function.update_of_ne (fun equal => same (UInt32.toNat_inj.mp equal)) _ _

/-- Above the array there is nothing in a chain that is empty. -/
theorem fidget_empty (large : ¬ n < Fidtblsz) (empty : conn.fidhtbl (hashOf n) = none) :
    fidget conn n = some none := by
  rw [fidget, if_neg large, empty]
  cases conn.fids.next <;> rfl

theorem fidcreate_empty (large : ¬ n < Fidtblsz) (empty : conn.fidhtbl (hashOf n) = none) :
    fidcreate conn n = some (some (.heap conn.fids.next),
      ({ conn with fids := conn.fids.push Fid.zero } : Conn).setChain (hashOf n)
        (some conn.fids.next)) := by
  rw [fidcreate, if_neg large]
  dsimp only
  rw [empty]

/-- A record above the array stays without its number. -/
theorem fidcreate_large {conn' : Conn} {f : Option Place} (large : ¬ n < Fidtblsz)
    (created : fidcreate conn n = some (f, conn')) : f = some (.heap conn.fids.next) ∧
      (conn'.fids.get conn.fids.next).map (·.fid) = some 0 := by
  rw [fidcreate, if_neg large] at created
  dsimp only at created
  cases first : conn.fidhtbl (hashOf n) with
  | none =>
      rw [first] at created
      obtain ⟨rfl, rfl⟩ := Prod.mk.inj (Option.some.inj created)
      exact ⟨rfl, by simp [Conn.setChain]⟩
  | some first' =>
      rw [first] at created
      obtain ⟨chain, -, created⟩ := Option.bind_eq_some_iff.mp created
      obtain ⟨last, -, created⟩ := Option.bind_eq_some_iff.mp created
      obtain ⟨rfl, rfl⟩ := Prod.mk.inj (Option.some.inj created)
      refine ⟨rfl, ?_⟩
      by_cases same : conn.fids.next = last
      · simp [Conn.modify, ← same]
      · simp [Conn.modify, Cells.get_modify_ne same]

end Table

namespace History

variable {s s' : History} {call : Call} {n : UInt32} {f g : Place}

/-! ## What calls below `Fidtblsz` keep -/

/-- The live fids are those of the array, and the chains are empty. -/
structure Sound (s : History) : Prop where
  slot : ∀ n < Fidtblsz, (s.conn.fidtbl n.toNat).fid = n ∨ (s.conn.fidtbl n.toNat).fid = noFid
  live (n : UInt32) (f : Place) : (n, f) ∈ s.live ↔
    n < Fidtblsz ∧ f = .table n.toNat ∧ (s.conn.fidtbl n.toNat).fid = n
  empty (hash : ℕ) : s.conn.fidhtbl hash = none

theorem sound_start : start.Sound where
  slot _ _ := .inr rfl
  live n f := by
    refine iff_of_false List.not_mem_nil ?_
    rintro ⟨small, -, used⟩
    exact ne_noFid small used.symm
  empty _ := rfl

theorem Sound.used (sound : s.Sound) (small : n < Fidtblsz) :
    (s.conn.fidtbl n.toNat).fid ≠ noFid ↔ (s.conn.fidtbl n.toNat).fid = n := by
  constructor
  · exact (sound.slot n small).resolve_right
  · intro used
    rw [used]
    exact ne_noFid small

theorem Sound.place (sound : s.Sound) (member : f ∈ s.live.map (·.2)) :
    ∃ n, n < Fidtblsz ∧ f = .table n.toNat ∧ (s.conn.fidtbl n.toNat).fid = n := by
  obtain ⟨⟨n, g⟩, known, rfl⟩ := List.mem_map.mp member
  exact ⟨n, (sound.live n g).mp known⟩

theorem Sound.found (sound : s.Sound) (n : UInt32) :
    ∃ f, fidget s.conn n = some f ∧ ∀ g, f = some g ↔ (n, g) ∈ s.live := by
  by_cases small : n < Fidtblsz
  · refine ⟨_, fidget_small small, fun g => ?_⟩
    rw [sound.live, ← sound.used small]
    by_cases free : (s.conn.fidtbl n.toNat).fid = noFid
    · rw [if_pos free]
      refine iff_of_false (Option.some_ne_none g).symm ?_
      rintro ⟨-, -, used⟩
      exact used free
    · rw [if_neg free, Option.some.injEq]
      exact ⟨fun is => ⟨small, is.symm, free⟩, fun is => is.2.1.symm⟩
  · refine ⟨none, fidget_empty small (sound.empty _), fun g => ?_⟩
    refine iff_of_false (Option.some_ne_none g).symm fun member => ?_
    exact small ((sound.live n g).mp member).1

theorem Sound.refused (sound : s.Sound) (n : UInt32) : ∃ f conn,
    fidcreate s.conn n = some (f, conn) ∧ (f = none ↔ ∃ g, (n, g) ∈ s.live) := by
  by_cases small : n < Fidtblsz
  · rw [fidcreate_small small]
    by_cases used : (s.conn.fidtbl n.toNat).fid ≠ noFid
    · refine ⟨none, _, if_pos used, iff_of_true rfl ⟨.table n.toNat, ?_⟩⟩
      exact (sound.live _ _).mpr ⟨small, rfl, (sound.used small).mp used⟩
    · refine ⟨_, _, if_neg used, iff_of_false (Option.some_ne_none _) ?_⟩
      rintro ⟨g, member⟩
      exact used ((sound.used small).mpr ((sound.live n g).mp member).2.2)
  · refine ⟨_, _, fidcreate_empty small (sound.empty _), iff_of_false (Option.some_ne_none _) ?_⟩
    rintro ⟨g, member⟩
    exact small ((sound.live n g).mp member).1

theorem Sound.others (sound : s.Sound) (member : f ∈ s.live.map (·.2)) :
    ∃ conn, fiddestroy s.conn f = some conn ∧
      ∀ n g, (n, g) ∈ s.live → g ≠ f → fidget conn n = some (some g) := by
  obtain ⟨m, small, rfl, used⟩ := sound.place member
  refine ⟨_, fiddestroy_small small used, fun n g known other => ?_⟩
  obtain ⟨small', rfl, used'⟩ := (sound.live n g).mp known
  have different : n ≠ m := fun same => other (by rw [same])
  rw [fidget_small small', fidtbl_modify, if_neg different, used', if_neg (ne_noFid small')]

theorem Sound.maps (sound : s.Sound) : s.Maps where
  found := sound.found
  refused := sound.refused
  others _ := sound.others
  chained hash := ⟨[], by rw [sound.empty]; exact .nil, fun p member => by simp at member⟩

/-! ## Steps -/

theorem Sound.create (sound : s.Sound) (small : n < Fidtblsz)
    (taken : s.step (.fidcreate n) = some s') : s'.Sound := by
  rw [step, fidcreate_small small] at taken
  by_cases used : (s.conn.fidtbl n.toNat).fid ≠ noFid
  · rw [if_pos used] at taken
    obtain rfl := Option.some.inj taken
    exact sound
  · rw [if_neg used] at taken
    obtain rfl := Option.some.inj taken
    refine ⟨fun m small' => ?_, fun m g => ?_, sound.empty⟩
    · dsimp only
      rw [fidtbl_modify]
      split_ifs with same
      · exact .inl same.symm
      · exact sound.slot m small'
    · have before := sound.live m g
      dsimp only
      rw [fidtbl_modify]
      change (m, g) ∈ (n, Place.table n.toNat) :: s.live ↔ _
      rw [List.mem_cons, before, Prod.mk.injEq]
      by_cases same : m = n
      · subst same
        simp [small, not_not.mp used, (ne_noFid small).symm]
      · simp [same]

theorem Sound.destroy (sound : s.Sound) (taken : s.step (.fiddestroy f) = some s') : s'.Sound := by
  rw [step] at taken
  split_ifs at taken with member
  obtain ⟨n, small, rfl, used⟩ := sound.place member
  rw [fiddestroy_small small used] at taken
  obtain rfl := Option.some.inj taken
  refine ⟨fun m small' => ?_, fun m g => ?_, sound.empty⟩
  · dsimp only
    rw [fidtbl_modify]
    split_ifs with same
    · exact .inr rfl
    · exact sound.slot m small'
  · have before := sound.live m g
    dsimp only
    rw [fidtbl_modify, List.mem_filter, before]
    by_cases same : m = n
    · subst same
      rw [if_pos rfl]
      refine iff_of_false ?_ fun is => ne_noFid small is.2.2.symm
      rintro ⟨⟨-, rfl, -⟩, other⟩
      simp at other
    · rw [if_neg same]
      refine ⟨And.left, fun is => ⟨is, ?_⟩⟩
      obtain ⟨-, rfl, -⟩ := is
      have different : m.toNat ≠ n.toNat := fun equal => same (UInt32.toNat_inj.mp equal)
      simpa using different

theorem Sound.step (sound : s.Sound) (small : Small call) (taken : s.step call = some s') :
    s'.Sound := by
  cases call with
  | fidget fid =>
      obtain ⟨-, -, rfl⟩ := Option.map_eq_some_iff.mp taken
      exact sound
  | fidcreate fid => exact sound.create small taken
  | fiddestroy f => exact sound.destroy taken

/-- In every run in which no number from `Fidtblsz` on is created the table behaves as a map. -/
theorem maps_of_run (run : Transition.Reaches step (fun _ call => Small call) start s) : s.Maps :=
  (Transition.Reaches.invariant Sound sound_start (fun sound small taken => sound.step small taken)
    run).maps

/-! ## Numbers from `Fidtblsz` on -/

/-- A record above the array does not get its number, so that it is not found. -/
theorem not_maps_of_large (large : ¬ n < Fidtblsz) (taken : s.step (.fidcreate n) = some s') :
    ¬ s'.Maps := by
  intro maps
  obtain ⟨⟨f, conn⟩, created, rfl⟩ := Option.map_eq_some_iff.mp taken
  obtain ⟨rfl, unnumbered⟩ := fidcreate_large large created
  obtain ⟨f, got, is⟩ := maps.found n
  have known : (n, Place.heap s.conn.fids.next) ∈
      (Option.map (n, ·) (some (Place.heap s.conn.fids.next))).toList ++ s.live :=
    List.mem_cons_self
  have same := (is _).mpr known
  rw [same, fidget, if_neg large] at got
  obtain ⟨found, search, here⟩ := Option.map_eq_some_iff.mp got
  obtain ⟨p, rfl, place⟩ := Option.map_eq_some_iff.mp here
  have wanted := LinkedChain.wanted_of_search search
  rw [Place.heap.inj place] at wanted
  dsimp only at unnumbered wanted
  obtain ⟨record, stored, zero⟩ := Option.map_eq_some_iff.mp unnumbered
  have numbered : record.fid = n := by simpa [stored] using wanted
  rw [← numbered, zero] at large
  exact large (by decide)

/-- The first number above the array. -/
theorem not_maps_of_run : ¬ ∀ s : History,
    Transition.Reaches step (fun _ _ => True) start s → s.Maps := by
  intro all
  have large : ¬ Fidtblsz < Fidtblsz := UInt32.lt_irrefl _
  have created := @fidcreate_empty conncreate Fidtblsz large rfl
  obtain ⟨s, taken⟩ : ∃ s, start.step (.fidcreate Fidtblsz) = some s := by
    rw [step, show start.conn = conncreate from rfl, created]
    exact ⟨_, rfl⟩
  exact not_maps_of_large large taken (all s (.step .start trivial taken))

/-- Two fids, and one of them destroyed. -/
theorem maps_of_run_two : ∃ s : History, (7, Place.table 7) ∈ s.live ∧ s.Maps := by
  have played : (Transition.play step (fun _ call => Small call) start
      [.fidcreate 7, .fidcreate 8191, .fidget 7, .fiddestroy (.table 8191)]).map (·.live) =
        some [(7, .table 7)] := by
    decide +kernel
  obtain ⟨s, is, live⟩ := Option.map_eq_some_iff.mp played
  refine ⟨s, ?_, maps_of_run (Transition.reaches_of_play is)⟩
  rw [live]
  exact List.mem_cons_self

end History

end FusFids

end Npfs
