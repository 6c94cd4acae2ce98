import Npfs.UserCache

/-!
# The groups of a user

`np_init_user_groups` reads the group database and stores the ids of the groups of a user in an
array of 256, from which it then makes the groups of the user; `np_unix_ismember` looks a group up
in them, and `np_change_user` installs them.
-/

namespace Npfs

namespace Unix

deriving instance DecidableEq for Npgroup

/-- `u->groups[0..ngroups)`. -/
def Npuser.effective (u : Npuser) : List Npgroup := (u.groups.getD []).take u.ngroups

namespace Lookup

/-- `np_unix_ismember`: 1, 0 or -1, the user and the caches. -/
def npUnixIsmember (db : UserDatabase) (l : Lookup) (u : Npuser) (g : Npgroup) :
    ℤ × Npuser × Lookup :=
  let (u, l) := if u.groups.isNone then l.npInitUserGroups db u else (u, l)
  if u.groups.isNone then (-1, u, l)
  else (if g ∈ u.effective then 1 else 0, u, l)

end Lookup

/-- What a process acts with. -/
structure Credentials where
  euid : UInt32
  egid : UInt32
  groups : List UInt32

/-- What `np_change_user` comes to. -/
inductive Changed where
  | failed
  /-- The default group is `NULL`. -/
  | crashed
  | done (c : Credentials)

/-- `np_change_user`; `root` says whether the process may be the superuser. -/
def npChangeUser (root : Bool) (c : Credentials) (u : Npuser) : Changed :=
  if !root then .failed
  else if u.ngroups = 0 then .done { c with euid := u.uid }
  else
    match u.dfltgroup with
    | none => .crashed
    | some g => .done ⟨u.uid, g.gid, u.effective.map (·.gid)⟩

/-! ## What it is for -/

section Membership

variable (db : UserDatabase) (l : Lookup) (u : Npuser)

/-- The groups that list the user as a member, in the order of the database. -/
def listing (uname : CStr) : List Group := db.group.filter (uname ∈ ·.grMem)

/-- The default group, then the groups that list the user, each once and in the order of the
database. -/
structure Enrolled (gids : List UInt32) : Prop where
  order : ∃ rest, gids = (u.dfltgroup.map (·.gid)).toList ++ rest ∧
    rest.Sublist ((listing db u.uname).map (·.grGid))
  once : gids.Nodup
  all : ∀ grp ∈ listing db u.uname, grp.grGid ∈ gids

/-- `np_init_user_groups`, with what happens to be in its array. -/
def initialise (junk : ℕ → UInt32) : Npuser × Lookup := l.npInitUserGroups { db with junk } u

/-- Whatever is in the array and whatever the process was before: if the groups of the user are set
up, they are the right ones, and the ones that are in effect; otherwise the user has none. -/
structure Initialised : Prop where
  groups : ∀ junk, (initialise db l u junk).1.groups.isSome = true →
    Enrolled db u ((initialise db l u junk).1.effective.map (·.gid))
  ismember : ∀ junk, (initialise db l u junk).1.groups.isSome = true → ∀ g,
    ((initialise db l u junk).2.npUnixIsmember db (initialise db l u junk).1 g).1 = 1 ↔
      g ∈ (initialise db l u junk).1.effective
  installed : ∀ junk, (initialise db l u junk).1.groups.isSome = true → ∀ c, ∃ c',
    npChangeUser true c (initialise db l u junk).1 = .done c' ∧
      c'.groups = (initialise db l u junk).1.effective.map (·.gid)
  failed : ∀ junk, (initialise db l u junk).1.groups.isSome = false →
    (initialise db l u junk).1.groups = none ∧ (initialise db l u junk).1.ngroups = 0

/-- The groups whose first member is the user. -/
def leading (uname : CStr) : List Group := db.group.filter (·.grMem.head? = some uname)

/-- The groups whose first member is the user have no other; except for the last of them, which
either has one more, or is not counted.  Those that are counted, and the default group `d`, are
different groups, and there is no other that lists the user. -/
structure Plain (uname : CStr) (d : UInt32) (front : List Group) (last : Group)
    (counted : List Group) : Prop where
  leads : leading db uname = front ++ [last]
  single : ∀ grp ∈ front, grp.grMem.length = 1
  ends : last.grMem.length = 1 ∧ counted = front ∨
    last.grMem.length = 2 ∧ counted = front ++ [last]
  fits : front.length + last.grMem.length ≤ 256
  apart : (d :: counted.map (·.grGid)).Nodup
  all : ∀ grp ∈ listing db uname, grp.grGid ∈ d :: counted.map (·.grGid)

/-- `gid2group` finds the id. -/
def Known (gid : UInt32) : Prop :=
  (∃ g ∈ l.groups (gid.toNat % hsize), g.gid = gid) ∨ ∃ grp ∈ db.group, grp.grGid = gid

/-- Without a default group, no group can be found at all; and a default group cannot be found, or
the groups are plain. -/
def Fits : Prop :=
  (u.dfltgroup = none ∧ ∀ gid, ¬ Known db l gid) ∨
    ∃ d, u.dfltgroup = some d ∧
      (¬ Known db l d.gid ∨ ∃ front last counted, Plain db u.uname d.gid front last counted)

end Membership

/-! ## The lookups -/

namespace Lookup

variable {db : UserDatabase} {l l' : Lookup} {gid : UInt32} {gids : List UInt32} {u : Npuser}

/-- A group of the database was known before it was cached. -/
theorem known_addGroup {g : Npgroup} {k : UInt32} (entry : ∃ grp ∈ db.group, grp.grGid = g.gid) :
    Known db (l.addGroup g) k ↔ Known db l k := by
  constructor
  · rintro (⟨v, member, is⟩ | known)
    · simp only [addGroup, Function.update_apply] at member
      split_ifs at member with bucket
      · rcases List.mem_cons.mp member with rfl | old
        · exact .inr (is ▸ entry)
        · exact .inl ⟨v, bucket ▸ old, is⟩
      · exact .inl ⟨v, member, is⟩
    · exact .inr known
  · rintro (⟨v, old, is⟩ | known)
    · refine .inl ⟨v, ?_, is⟩
      simp only [addGroup, Function.update_apply]
      split_ifs with bucket
      · exact List.mem_cons_of_mem _ (bucket ▸ old)
      · exact old
    · exact .inr known

/-- A group that is found is known, and has the id; what is known stays the same. -/
theorem gid2group_cases (db : UserDatabase) (l : Lookup) (gid : UInt32) :
    (∃ g l', l.npUnixGid2group db gid = (some g, l') ∧ g.gid = gid ∧ Known db l gid ∧
      ∀ k, Known db l' k ↔ Known db l k) ∨
      ¬ Known db l gid ∧ (l.npUnixGid2group db gid).1 = none := by
  unfold npUnixGid2group
  cases cached : (l.groups (gid.toNat % hsize)).find? (·.gid = gid) with
  | some g =>
      have same : g.gid = gid := by simpa using List.find?_some cached
      exact .inl ⟨g, l, rfl, same, .inl ⟨g, List.mem_of_find?_eq_some cached, same⟩,
        fun k => Iff.rfl⟩
  | none =>
      cases entry : db.group.find? (·.grGid = gid) with
      | none =>
          refine .inr ⟨?_, rfl⟩
          rintro (⟨g, member, same⟩ | ⟨grp, member, same⟩)
          · exact absurd same (by simpa using List.find?_eq_none.mp cached g member)
          · exact absurd same (by simpa using List.find?_eq_none.mp entry grp member)
      | some grp =>
          have member := List.mem_of_find?_eq_some entry
          have same : grp.grGid = gid := by simpa using List.find?_some entry
          exact .inl ⟨_, _, rfl, same, .inr ⟨grp, member, same⟩,
            fun k => known_addGroup ⟨grp, member, rfl⟩⟩

/-- The groups of an array are found exactly if all its ids are known. -/
theorem findGroups_cases (db : UserDatabase) (l : Lookup) (gids : List UInt32) :
    (∃ grps, (findGroups db l gids).1 = some grps ∧ grps.map (·.gid) = gids ∧
      ∀ gid ∈ gids, Known db l gid) ∨
      (∃ gid ∈ gids, ¬ Known db l gid) ∧ (findGroups db l gids).1 = none := by
  induction gids generalizing l with
  | nil => exact .inl ⟨[], rfl, rfl, by simp⟩
  | cons gid rest ih =>
      rcases gid2group_cases db l gid with ⟨g, l', is, same, known, keeps⟩ | ⟨unknown, missed⟩
      · rcases ih l' with ⟨grps, found, map, all⟩ | ⟨⟨k, member, unknown⟩, missed⟩
        · refine .inl ⟨g :: grps, ?_, by rw [List.map_cons, same, map], ?_⟩
          · simp only [findGroups, is, found, Option.map_some]
          · intro k member
            rcases List.mem_cons.mp member with rfl | member
            · exact known
            · exact (keeps k).mp (all k member)
        · refine .inr ⟨⟨k, List.mem_cons_of_mem _ member, ?_⟩, ?_⟩
          · exact fun known => unknown ((keeps k).mpr known)
          · simp only [findGroups, is, missed, Option.map_none]
      · refine .inr ⟨⟨gid, List.mem_cons_self, unknown⟩, ?_⟩
        unfold findGroups
        generalize l.npUnixGid2group db gid = found at missed ⊢
        obtain ⟨found, l'⟩ := found
        obtain rfl : found = none := missed
        rfl

end Lookup

section Groups

variable {db : UserDatabase} {l : Lookup} {u : Npuser} {uname : CStr} {d : Npgroup}
  {front counted : List Group} {last : Group} {junk : ℕ → UInt32}

/-- What is stored is each of the leading groups, as often as it has members. -/
theorem memberGids_eq (db : UserDatabase) (uname : CStr) : Lookup.memberGids db uname =
    (leading db uname).flatMap fun grp => List.replicate grp.grMem.length grp.grGid := by
  unfold Lookup.memberGids leading
  induction db.group with
  | nil => rfl
  | cons grp rest ih =>
      by_cases first : grp.grMem.head? = some uname
      · rw [List.flatMap_cons, ih, if_pos first, List.filter_cons_of_pos (by simpa using first),
          List.flatMap_cons]
      · rw [List.flatMap_cons, ih, if_neg first, List.filter_cons_of_neg (by simpa using first),
          List.nil_append]

theorem length_pos_of_leading {grp : Group} (member : grp ∈ leading db uname) :
    0 < grp.grMem.length := by
  have first : grp.grMem.head? = some uname := by simpa using (List.mem_filter.mp member).2
  exact List.length_pos_of_mem (List.mem_of_mem_head? first)

theorem leading_sublist (db : UserDatabase) (uname : CStr) :
    (leading db uname).Sublist (listing db uname) := by
  refine List.monotone_filter_right _ fun grp first => ?_
  have first : grp.grMem.head? = some uname := by simpa using first
  simpa using List.mem_of_mem_head? first

/-- Groups of one member are stored once. -/
theorem flatMap_single (single : ∀ grp ∈ front, grp.grMem.length = 1) :
    (front.flatMap fun grp => List.replicate grp.grMem.length grp.grGid) =
      front.map (·.grGid) := by
  induction front with
  | nil => rfl
  | cons grp rest ih =>
      rw [List.flatMap_cons, single grp List.mem_cons_self,
        ih fun other member => single other (List.mem_cons_of_mem _ member)]
      rfl

/-- All that is stored but the last. -/
theorem dropLast_memberGids (leads : leading db uname = front ++ [last]) :
    (Lookup.memberGids db uname).dropLast =
      (front.flatMap fun grp => List.replicate grp.grMem.length grp.grGid) ++
        List.replicate (last.grMem.length - 1) last.grGid := by
  have member : last ∈ leading db uname := by simp [leads]
  have stored : List.replicate last.grMem.length last.grGid ≠ [] := by
    simpa using (length_pos_of_leading member).ne'
  rw [memberGids_eq, leads, List.flatMap_append, List.flatMap_singleton,
    List.dropLast_append_of_ne_nil stored, List.dropLast_replicate]

/-- The stored ids but the last are those of the counted groups. -/
theorem dropLast_eq (leads : leading db uname = front ++ [last])
    (single : ∀ grp ∈ front, grp.grMem.length = 1)
    (ends : last.grMem.length = 1 ∧ counted = front ∨
      last.grMem.length = 2 ∧ counted = front ++ [last]) :
    (Lookup.memberGids db uname).dropLast = counted.map (·.grGid) := by
  rw [dropLast_memberGids leads, flatMap_single single]
  rcases ends with ⟨one, rfl⟩ | ⟨two, rfl⟩
  · rw [one, List.replicate_zero, List.append_nil]
  · rw [two, List.map_append]
    rfl

theorem length_memberGids (leads : leading db uname = front ++ [last])
    (single : ∀ grp ∈ front, grp.grMem.length = 1) :
    (Lookup.memberGids db uname).length = front.length + last.grMem.length := by
  rw [memberGids_eq, leads, List.flatMap_append, List.flatMap_singleton,
    flatMap_single single, List.length_append, List.length_map, List.length_replicate]

theorem Plain.sublist {gid : UInt32} (plain : Plain db uname gid front last counted) :
    counted.Sublist (listing db uname) := by
  refine List.Sublist.trans ?_ (leading_sublist db uname)
  rw [plain.leads]
  rcases plain.ends with ⟨-, rfl⟩ | ⟨-, rfl⟩
  · exact List.sublist_append_left _ _
  · exact List.Sublist.refl _

/-- If no id is stored twice, the groups are plain. -/
theorem exists_plain {gid : UInt32} (stored : Lookup.memberGids db uname ≠ [])
    (small : (Lookup.memberGids db uname).length ≤ 256)
    (apart : (gid :: (Lookup.memberGids db uname).dropLast).Nodup)
    (all : ∀ grp ∈ listing db uname, grp.grGid ∈ gid :: (Lookup.memberGids db uname).dropLast) :
    ∃ front last counted, Plain db uname gid front last counted := by
  have leads : leading db uname ≠ [] := by
    intro none
    exact stored (by rw [memberGids_eq, none]; rfl)
  obtain ⟨front, last, leads⟩ : ∃ front last, leading db uname = front ++ [last] :=
    ⟨_, _, (List.dropLast_append_getLast leads).symm⟩
  have parts := (List.nodup_cons.mp apart).2
  rw [dropLast_memberGids leads, List.nodup_append, List.nodup_flatMap] at parts
  have single : ∀ grp ∈ front, grp.grMem.length = 1 := by
    intro grp member
    have leading : grp ∈ leading db uname := by simp [leads, member]
    have most := List.nodup_replicate.mp (parts.1.1 grp member)
    exact le_antisymm most (length_pos_of_leading leading)
  obtain ⟨counted, ends⟩ : ∃ counted, last.grMem.length = 1 ∧ counted = front ∨
      last.grMem.length = 2 ∧ counted = front ++ [last] := by
    have leading : last ∈ leading db uname := by simp [leads]
    have least := length_pos_of_leading leading
    have most := List.nodup_replicate.mp parts.2.1
    rcases (show last.grMem.length = 1 ∨ last.grMem.length = 2 by omega) with one | two
    · exact ⟨front, .inl ⟨one, rfl⟩⟩
    · exact ⟨front ++ [last], .inr ⟨two, rfl⟩⟩
  have counts := dropLast_eq leads single ends
  exact ⟨front, last, counted, leads, single, ends, length_memberGids leads single ▸ small,
    counts ▸ apart, counts ▸ all⟩

/-- If the groups that list the user have different ids, and none is the default group, they all
follow it. -/
theorem enrolled_iff {gids : List UInt32} (apart : ((listing db u.uname).map (·.grGid)).Nodup)
    (other : ∀ d, u.dfltgroup = some d → d.gid ∉ (listing db u.uname).map (·.grGid)) :
    Enrolled db u gids ↔
      gids = (u.dfltgroup.map (·.gid)).toList ++ (listing db u.uname).map (·.grGid) := by
  constructor
  · rintro ⟨⟨rest, rfl, sub⟩, -, all⟩
    have covers : (listing db u.uname).map (·.grGid) ⊆ rest := by
      intro gid member
      obtain ⟨grp, lists, rfl⟩ := List.mem_map.mp member
      rcases List.mem_append.mp (all grp lists) with dflt | later
      · obtain ⟨d, group, is⟩ : ∃ d, u.dfltgroup = some d ∧ d.gid = grp.grGid := by
          simpa using dflt
        exact absurd (is ▸ member) (other d group)
      · exact later
    rw [sub.eq_of_length_le (apart.subperm covers).length_le]
  · rintro rfl
    refine ⟨⟨_, rfl, List.Sublist.refl _⟩, ?_, fun grp lists =>
      List.mem_append_right _ (List.mem_map_of_mem lists)⟩
    cases dflt : u.dfltgroup with
    | none => simpa using apart
    | some d => exact List.nodup_cons.mpr ⟨other d dflt, apart⟩

/-! ## The array -/

/-- The groups are found, or the user stays as it was. -/
theorem initialise_cases (db : UserDatabase) (l : Lookup) (u : Npuser) (junk : ℕ → UInt32) :
    (∃ grps, (initialise db l u junk).1 =
        { u with groups := some grps, ngroups := (Lookup.memberGids db u.uname).length } ∧
        grps.map (·.gid) = (List.range ((Lookup.memberGids db u.uname).length + 1)).map
          (Lookup.gids { db with junk } u) ∧ Known db l (Lookup.gids { db with junk } u 0)) ∨
      (∃ i ≤ (Lookup.memberGids db u.uname).length,
        ¬ Known db l (Lookup.gids { db with junk } u i)) ∧ (initialise db l u junk).1 = u := by
  have is : (initialise db l u junk).1 =
      if (Lookup.findGroups { db with junk } l
        ((List.range ((Lookup.memberGids db u.uname).length + 1)).map
          (Lookup.gids { db with junk } u))).1.isSome then
        { u with
          groups := (Lookup.findGroups { db with junk } l
            ((List.range ((Lookup.memberGids db u.uname).length + 1)).map
              (Lookup.gids { db with junk } u))).1
          ngroups := (Lookup.memberGids db u.uname).length }
      else u := rfl
  rcases Lookup.findGroups_cases { db with junk } l
      ((List.range ((Lookup.memberGids db u.uname).length + 1)).map
        (Lookup.gids { db with junk } u)) with
    ⟨grps, found, map, known⟩ | ⟨⟨gid, member, unknown⟩, missed⟩
  · exact .inl ⟨grps, by rw [is, found]; rfl, map,
      known _ (List.mem_map_of_mem (List.mem_range.mpr (Nat.succ_pos _)))⟩
  · obtain ⟨i, least, rfl⟩ := List.mem_map.mp member
    exact .inr ⟨⟨i, Nat.lt_succ_iff.mp (List.mem_range.mp least), unknown⟩,
      by rw [is, missed]; rfl⟩

/-- If only known ids are read, the groups are found. -/
theorem initialise_known (junk : ℕ → UInt32)
    (known : ∀ i ≤ (Lookup.memberGids db u.uname).length,
      Known db l (Lookup.gids { db with junk } u i)) :
    (initialise db l u junk).1.groups.isSome = true ∧
      (initialise db l u junk).1.ngroups = (Lookup.memberGids db u.uname).length ∧
      (initialise db l u junk).1.dfltgroup = u.dfltgroup := by
  rcases initialise_cases db l u junk with ⟨grps, is, -, -⟩ | ⟨⟨i, least, unknown⟩, -⟩
  · rw [is]
    exact ⟨rfl, rfl, rfl⟩
  · exact absurd (known i least) unknown

/-- The ids of the groups that are set up. -/
theorem map_effective (fresh : u.groups = none)
    (found : (initialise db l u junk).1.groups.isSome = true) :
    (initialise db l u junk).1.effective.map (·.gid) =
      (List.range (Lookup.memberGids db u.uname).length).map (Lookup.gids { db with junk } u) := by
  rcases initialise_cases db l u junk with ⟨grps, is, map, -⟩ | ⟨-, is⟩
  · rw [is, Npuser.effective, List.map_take]
    show (grps.map (·.gid)).take _ = _
    rw [map, ← List.map_take, List.take_range, min_eq_left (Nat.le_succ _)]
  · rw [is, fresh] at found
    cases found

/-- The ids are those of the default group and of all but the last of the groups that are stored, as
long as they fit in the array. -/
theorem ids_eq (dflt : u.dfltgroup = some d) (stored : Lookup.memberGids db u.uname ≠ [])
    (small : (Lookup.memberGids db u.uname).length ≤ 256) :
    (List.range (Lookup.memberGids db u.uname).length).map (Lookup.gids { db with junk } u) =
      d.gid :: (Lookup.memberGids db u.uname).dropLast := by
  have some := List.length_pos_of_ne_nil stored
  refine List.ext_getElem (by simp; omega) fun i left right => ?_
  have least : i < (Lookup.memberGids db u.uname).length := by simpa using left
  rw [List.getElem_map, List.getElem_range]
  cases i with
  | zero => simp [Lookup.gids, dflt]
  | succ i =>
      have inside : i + 1 < 256 := by omega
      have same : Lookup.memberGids { db with junk } u.uname = Lookup.memberGids db u.uname := rfl
      rw [Lookup.gids, if_neg (Nat.succ_ne_zero i), if_pos inside, same, Nat.add_sub_cancel,
        List.getElem_cons_succ, List.getElem_dropLast]
      exact List.getD_eq_getElem _ _ _

/-- What is stored for a group of the database is known. -/
theorem known_of_mem {gid : UInt32} (member : gid ∈ Lookup.memberGids db uname) :
    Known db l gid := by
  rw [memberGids_eq] at member
  obtain ⟨grp, leads, stored⟩ := List.mem_flatMap.mp member
  exact .inr ⟨grp, (List.mem_filter.mp leads).1, (List.eq_of_mem_replicate stored).symm⟩

/-- Every id that is read is known, if the default group is and what happens to be in the array. -/
theorem known_gids (dflt : ∀ d, u.dfltgroup = some d → Known db l d.gid)
    (lucky : ∀ i, Known db l (junk i)) :
    ∀ i ≤ (Lookup.memberGids db u.uname).length,
      Known db l (Lookup.gids { db with junk } u i) := by
  intro i least
  unfold Lookup.gids
  split_ifs with zero inside
  · cases group : u.dfltgroup with
    | none => exact lucky 0
    | some d => exact dflt d group
  · have same : Lookup.memberGids { db with junk } u.uname = Lookup.memberGids db u.uname := rfl
    have bound : i - 1 < (Lookup.memberGids db u.uname).length := by omega
    rw [same, List.getD_eq_getElem _ _ bound]
    exact known_of_mem (List.getElem_mem bound)
  · exact lucky i

theorem initialise_failed (fresh : u.groups = none) (unset : u.ngroups = 0)
    (missed : (initialise db l u junk).1.groups.isSome = false) :
    (initialise db l u junk).1.groups = none ∧ (initialise db l u junk).1.ngroups = 0 := by
  rcases initialise_cases db l u junk with ⟨grps, is, -, -⟩ | ⟨-, is⟩
  · rw [is] at missed
    cases missed
  · rw [is]
    exact ⟨fresh, unset⟩

/-- If the first id is unknown, the user has no groups, and that is all that is asked for. -/
theorem initialised_of_unknown (fresh : u.groups = none) (unset : u.ngroups = 0)
    (unknown : ∀ junk, ¬ Known db l (Lookup.gids { db with junk } u 0)) : Initialised db l u := by
  have missed : ∀ junk, (initialise db l u junk).1.groups.isSome ≠ true := by
    intro junk found
    rcases initialise_cases db l u junk with ⟨grps, -, -, known⟩ | ⟨-, is⟩
    · exact unknown junk known
    · rw [is, fresh] at found
      cases found
  exact ⟨fun junk found => absurd found (missed junk), fun junk found => absurd found (missed junk),
    fun junk found => absurd found (missed junk),
    fun junk missed => initialise_failed fresh unset missed⟩

/-- Plain groups are the right ones. -/
theorem Plain.initialised (fresh : u.groups = none) (unset : u.ngroups = 0)
    (dflt : u.dfltgroup = some d) (plain : Plain db u.uname d.gid front last counted) :
    Initialised db l u := by
  have last_pos : 0 < last.grMem.length :=
    length_pos_of_leading (show last ∈ leading db u.uname by simp [plain.leads])
  have length := length_memberGids plain.leads plain.single
  have stored : Lookup.memberGids db u.uname ≠ [] := by
    refine List.ne_nil_of_length_pos ?_
    omega
  have ids : ∀ junk, (initialise db l u junk).1.groups.isSome = true →
      (initialise db l u junk).1.effective.map (·.gid) = d.gid :: counted.map (·.grGid) := by
    intro junk found
    rw [map_effective fresh found, ids_eq dflt stored (length ▸ plain.fits),
      dropLast_eq plain.leads plain.single plain.ends]
  refine ⟨fun junk found => ?_, fun junk found g => ?_, fun junk found c => ?_,
    fun junk missed => initialise_failed fresh unset missed⟩
  · rw [ids junk found]
    exact ⟨⟨_, by rw [dflt]; rfl, plain.sublist.map _⟩, plain.apart, plain.all⟩
  · have some : (initialise db l u junk).1.groups.isNone = false := by
      simpa [Option.isSome_iff_ne_none] using found
    simp only [Lookup.npUnixIsmember, some, Bool.false_eq_true, if_false]
    split_ifs with member <;> simp [member]
  · rcases initialise_cases db l u junk with ⟨grps, is, -, -⟩ | ⟨-, is⟩
    · have some : (Lookup.memberGids db u.uname).length ≠ 0 := by omega
      rw [is]
      refine ⟨⟨u.uid, d.gid, _⟩, ?_, rfl⟩
      simp only [npChangeUser, Bool.not_true, Bool.false_eq_true, if_false, some, dflt]
    · rw [is, fresh] at found
      cases found

/-- The groups of a user are set up as they should be exactly if no group can be found, or they are
plain. -/
theorem initialised_iff (db : UserDatabase) (l : Lookup) (u : Npuser) (fresh : u.groups = none)
    (unset : u.ngroups = 0) : Initialised db l u ↔ Fits db l u := by
  constructor
  · intro right
    cases dflt : u.dfltgroup with
    | none =>
        refine .inl ⟨dflt, fun gid known => ?_⟩
        obtain ⟨found, count, group⟩ := initialise_known (u := u) (fun _ => gid)
          (known_gids (by simp [dflt]) fun _ => known)
        obtain ⟨c, done, installed⟩ := right.installed _ found ⟨0, 0, [0]⟩
        by_cases zero : (Lookup.memberGids db u.uname).length = 0
        · -- the groups of the process stay what they were
          rw [map_effective fresh found, zero, List.range_zero, List.map_nil] at installed
          simp only [npChangeUser, count, zero, Bool.not_true, Bool.false_eq_true, if_false,
            if_true, Changed.done.injEq] at done
          rw [← done] at installed
          cases installed
        · simp only [npChangeUser, count, zero, group, dflt, Bool.not_true, Bool.false_eq_true,
            if_false] at done
          cases done
    | some d =>
        refine .inr ⟨d, dflt, or_iff_not_imp_left.mpr fun known => ?_⟩
        have known : Known db l d.gid := not_not.mp known
        obtain ⟨found, -, -⟩ := initialise_known (u := u) (fun _ => d.gid)
          (known_gids (by simpa [dflt] using known) fun _ => known)
        obtain ⟨⟨rest, order, -⟩, once, all⟩ := right.groups _ found
        rw [map_effective fresh found] at order once all
        have stored : Lookup.memberGids db u.uname ≠ [] := by
          intro none
          simp [none, dflt] at order
        have small : (Lookup.memberGids db u.uname).length ≤ 256 := by
          by_contra large
          -- behind the end of the array is the id of the default group
          have same := List.inj_on_of_nodup_map once
            (List.mem_range.mpr (show 0 < (Lookup.memberGids db u.uname).length by omega))
            (List.mem_range.mpr (show 256 < (Lookup.memberGids db u.uname).length by omega))
            (by simp [Lookup.gids, dflt])
          cases same
        rw [ids_eq dflt stored small] at once all
        exact exists_plain stored small once all
  · rintro (⟨dflt, unknown⟩ | ⟨d, dflt, unknown | ⟨front, last, counted, plain⟩⟩)
    · exact initialised_of_unknown fresh unset fun junk => unknown _
    · refine initialised_of_unknown fresh unset fun junk => ?_
      simpa [Lookup.gids, dflt] using unknown
    · exact plain.initialised fresh unset dflt

/-- A user whose groups name it first, and the last of them another one behind it. -/
def groupsOf (wheel : List CStr) : UserDatabase where
  passwd := []
  group := [⟨cstr "alice", 1000, []⟩, ⟨cstr "users", 100, [cstr "alice"]⟩,
    ⟨cstr "wheel", 10, wheel⟩]
  notFound := 2
  strerror _ := cstr "No such file or directory"
  junk _ := 0

/-- The user `alice` before its groups are set up. -/
def alice : Npuser := ⟨cstr "alice", 1000, some ⟨cstr "alice", 1000⟩, none, 0⟩

theorem initialised_iff_alice :
    Initialised (groupsOf [cstr "alice", cstr "bob"]) Lookup.start alice := by
  refine (initialised_iff _ _ _ rfl rfl).mpr (.inr ⟨_, rfl, .inr
    ⟨[⟨cstr "users", 100, [cstr "alice"]⟩], ⟨cstr "wheel", 10, [cstr "alice", cstr "bob"]⟩,
      [⟨cstr "users", 100, [cstr "alice"]⟩, ⟨cstr "wheel", 10, [cstr "alice", cstr "bob"]⟩], ?_⟩⟩)
  exact ⟨by rfl, by simp, .inr ⟨rfl, rfl⟩, by decide, by decide, by decide⟩

/-- `bob` is in front of `alice` in a group: the only group that is stored is the one before it, and
the user ends up with its default group alone. -/
theorem not_initialised_all : ¬ ∀ db l u, u.groups = none → u.ngroups = 0 → Initialised db l u := by
  intro all
  have right := all (groupsOf [cstr "bob", cstr "alice"]) Lookup.start alice rfl rfl
  have enrolled := right.groups (fun _ => 0) (by decide +kernel)
  have missing : (10 : UInt32) ∉ (initialise (groupsOf [cstr "bob", cstr "alice"]) Lookup.start
      alice fun _ => 0).1.effective.map (·.gid) := by
    decide +kernel
  have lists : ⟨cstr "wheel", 10, [cstr "bob", cstr "alice"]⟩ ∈
      listing (groupsOf [cstr "bob", cstr "alice"]) alice.uname :=
    List.mem_filter.mpr ⟨by simp [groupsOf], by decide⟩
  exact missing (enrolled.all _ lists)

end Groups

end Unix

end Npfs
