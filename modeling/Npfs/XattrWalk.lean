import Npfs.HostReads

/-!
# What `Txattrwalk` discloses

Under the mapped id model the fid that `npfs_xattrwalk` makes holds the list of the names that a
client may see, or the value of an attribute that is none of the model's.
-/

namespace Npfs

namespace Ufs

open Program

/-- What a file has: the list of the names that a client may see, for the empty name, or the value of
an attribute. -/
def fileValue (host : Host) (f : Fid) (name : List UInt8) : Option (List UInt8) :=
  if name = [] then
    (host.file f.path).map fun xattrs =>
      if f.mapped then encodeNames (shown xattrs.keys) else xattrs.list
  else
    xattrOf host f.path (npStrdup name)

/-- The bytes of the attribute value that a fid holds. -/
def Fid.value (f : Fid) : List UInt8 := (f.xattrdata.getD []).take f.xattrsz.toNat

section Tells

variable {u : Ufssrv} {s : State} {fid newfid : FidPtr}

/-- The query is answered with the bytes of what the host has. -/
def Queries (u : Ufssrv) (s : State) (has : List UInt8 → Prop)
    (query : Nat → Code (Except Errno (Nat × List UInt8))) : Prop :=
  ∀ size, Reads u s (fun answer => ∀ found, answer = .ok found →
    ∃ bytes, has bytes ∧ Host.fetch size bytes = .ok found) (query size)

theorem fetch_ok {size : Nat} {bytes : List UInt8} {found : Nat × List UInt8}
    (fetched : Host.fetch size bytes = .ok found) :
    found.1 = bytes.length ∧ bytes.length ≤ XATTR_MAX ∧ found.2 = if size = 0 then [] else bytes := by
  unfold Host.fetch at fetched
  split_ifs at fetched with large zero small
  · obtain rfl := Except.ok.inj fetched
    exact ⟨rfl, not_lt.mp large, (if_pos zero).symm⟩
  · obtain rfl := Except.ok.inj fetched
    exact ⟨rfl, not_lt.mp large, (if_neg zero).symm⟩

/-- The loops of `npfs_xattrwalk` end with all bytes of what they ask for. -/
theorem reads_fetchAgain {has : List UInt8 → Prop}
    {query : Nat → Code (Except Errno (Nat × List UInt8))} (queries : Queries u s has query)
    (turns : Nat) : Reads u s (fun answer => ∀ found, answer = .ok found →
      has found.2 ∧ found.1 = found.2.length ∧ found.2.length ≤ XATTR_MAX)
      (fetchAgain query turns) := by
  induction turns with
  | zero => exact ⟨trivial, fun _ _ found same => nomatch same⟩
  | succ turns ih =>
      refine (queries 0).bind fun asked _ => ?_
      cases asked with
      | error errno => exact fun found same => nomatch same
      | ok asked =>
      refine (queries asked.1).bind fun answer told => ?_
      cases answer with
      | error errno => exact ih
      | ok found =>
      obtain ⟨bytes, has, fetched⟩ := told found rfl
      obtain ⟨length, bound, read⟩ := fetch_ok fetched
      by_cases again : found.1 ≠ asked.1
      · rw [show found = (found.1, found.2) from rfl] at *
        simp only [if_pos again]
        exact ih
      · rw [show found = (found.1, found.2) from rfl] at *
        simp only [if_neg again]
        rintro _ ⟨⟩
        have whole : found.2 = bytes := by
          rw [read]
          split_ifs with zero
          · exact (List.eq_nil_of_length_eq_zero (by omega)).symm
          · rfl
        exact ⟨whole ▸ has, by rw [whole]; exact length, whole ▸ bound⟩

/-- `npfs_xattrwalk` fetches what the file has, and nothing of the model's. -/
theorem reads_fileValue {nf : Fid} {name : List UInt8} (turns : Nat) :
    Reads u s (fun found => ∀ n buf, found = some (n, buf) →
      fileValue s.world nf name = some (buf.take n) ∧ n ≤ XATTR_MAX ∧ n ≤ buf.length ∧
        (nf.mapped → name ≠ [] → ¬ mappedName name)) (xattrValue nf name turns) := by
  have lists : Queries u s (fun bytes => ∃ xattrs, s.world.file nf.path = some xattrs ∧
      bytes = encodeNames xattrs.keys) fun size => sys (.llistxattr nf.path size) := by
    refine fun size => ⟨trivial, fun answer told found same => ?_⟩
    obtain ⟨xattrs, file, fetched⟩ := told found same
    exact ⟨xattrs.list, ⟨xattrs, file, rfl⟩, fetched⟩
  have gets : Queries u s (fun bytes => xattrOf s.world nf.path (npStrdup name) = some bytes)
      fun size => sys (.lgetxattr nf.path (npStrdup name) size) :=
    fun size => ⟨trivial, fun answer told found same => told.1 found same⟩
  unfold xattrValue
  split
  · rename_i empty
    refine (reads_fetchAgain lists turns).bind fun answer told => ?_
    cases answer with
    | error errno => exact reads_createRerror nofun
    | ok found =>
        obtain ⟨⟨xattrs, file, bytes⟩, length, bound⟩ := told found rfl
        obtain ⟨n, buf⟩ := found
        dsimp only at bytes length bound
        subst bytes length
        simp only [check, fileValue, if_pos empty, file, Option.map_some]
        obtain ⟨left, short, whole⟩ := mappedUnlist_encodeNames xattrs.keys
        split
        · rintro _ _ ⟨⟩
          exact ⟨by rw [left], short.trans bound, short.trans whole.ge,
            fun _ given => absurd empty given⟩
        · rintro _ _ ⟨⟩
          refine ⟨?_, bound, le_rfl, fun _ given => absurd empty given⟩
          rw [List.take_length]
          rfl
  split
  · exact reads_createRerror nofun
  · rename_i given other
    refine (reads_fetchAgain gets turns).bind fun answer told => ?_
    cases answer with
    | error errno => exact reads_createRerror nofun
    | ok found =>
        obtain ⟨lookup, length, bound⟩ := told found rfl
        rintro n buf ⟨⟩
        dsimp only at lookup length bound
        refine ⟨?_, length ▸ bound, length.le, fun model _ named => other ⟨model, named⟩⟩
        rw [fileValue, if_neg given, length, List.take_length]
        exact lookup

end Tells

section Run

variable {u : Ufssrv} {s s₁ s' : State} {fid newfid : FidPtr} {name : List UInt8} {rc : Npfcall}

end Run

end Ufs

end Npfs
