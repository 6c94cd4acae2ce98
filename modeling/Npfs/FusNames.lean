import Mathlib.Data.List.TakeWhile
import Npfs.Create

/-!
# The names of a walk in `fus`

The two loops of `p9walk` of `fs/fus.c`: the first takes the names of a Twalk out of the body in
place, the second puts them behind a path, until one of them is not found.
-/

namespace Npfs

namespace FusFids

open LittleEndian

/-- `Maxwelem`. -/
def Maxwelem : ℕ := 16

/-- `struct Qid`. -/
structure Qid where
  type : UInt8
  version : UInt32
  path : UInt64
  deriving DecidableEq

/-- What is in `wnames[i]`. -/
inductive Wname where
  /-- Nothing has been stored there. -/
  | unset
  /-- `NULL`. -/
  | null
  /-- A place in the message. -/
  | data (pos : ℕ)

/-- `wnames[i]` and `wlen[i]`. -/
structure Welem where
  name : Wname
  wlen : ℕ

/-- `gint16`. -/
def gint16 (mem : ℕ → UInt8) (data : ℕ) : UInt16 := word16 fun k => mem (data + k)

/-- `gint32`. -/
def gint32 (mem : ℕ → UInt8) (data : ℕ) : UInt32 := word32 fun k => mem (data + k)

/-- A body in the buffer of a worker, for which `connproc` has allocated `conn->msize` bytes and the
size of `conn->buf`, while the body has 7 bytes less than a message of at most `conn->msize`. -/
structure Body where
  /-- The buffer and what is behind it. -/
  mem : ℕ → UInt8
  /-- The size of the buffer. -/
  room : ℕ
  size : ℕ
  inside : size + 30 ≤ room
  /-- An `int`. -/
  small : room < 2 ^ 31

namespace Body

variable (body : Body)

def fid : UInt32 := gint32 body.mem 0

def newfid : UInt32 := gint32 body.mem 4

def nwname : ℕ := (gint16 body.mem 8).toNat

end Body

/-- The memory when a name of `n` bytes has been moved over its count, and ended. -/
def moveName (mem : ℕ → UInt8) (data n : ℕ) (k : ℕ) : UInt8 :=
  if data ≤ k ∧ k < data + n then mem (k + 2) else if k = data + n then 0 else mem k

/-- What `gstr` returns, what it stores in `*s`, and the memory that it leaves. -/
structure Gstr where
  ret : ℤ
  s : Wname
  mem : ℕ → UInt8

/-- `gstr`. -/
def gstr (mem : ℕ → UInt8) (data : ℕ) (maxsize : ℤ) : Gstr :=
  let n := (gint16 mem data).toNat
  if (n : ℤ) ≥ maxsize then ⟨-1, .unset, mem⟩
  else if n ≠ 0 then ⟨n, .data data, moveName mem data n⟩
  else ⟨n, .null, mem⟩

/-- The memory that the first loop of `p9walk` leaves, with `wnames` and `wlen`, and `slen`. -/
structure Names where
  mem : ℕ → UInt8
  names : List Welem
  slen : ℕ

/-- The first loop of `p9walk`; `none` if it stores behind `wnames` and `wlen`, or reads behind the
buffer. -/
def getNames (body : Body) : (turns i n slen : ℕ) → (mem : ℕ → UInt8) → Option Names
  | 0, _, _, slen, mem => some ⟨mem, [], slen⟩
  | turns + 1, i, n, slen, mem =>
    if i < Maxwelem ∧ n + 2 ≤ body.room then
      let got := gstr mem n (Int.bmod (body.size - n) (2 ^ 32))
      -- `wlen[i]` is a `u16`, so that it is never below 0.
      let wlen := (got.ret % 2 ^ 16).toNat
      (getNames body turns (i + 1) (n + (wlen + 2)) (slen + (wlen + 1)) got.mem).map fun rest =>
        { rest with names := ⟨got.s, wlen⟩ :: rest.names }
    else
      none

/-- Store bytes; `none` if it stores outside of the memory. -/
def put (mem : List UInt8) (pos : ℕ) (bytes : List UInt8) : Option (List UInt8) :=
  if pos + bytes.length ≤ mem.length then some (store mem pos bytes) else none

/-- The bytes that `wnames[i]` points to. -/
def Welem.bytes (mem : ℕ → UInt8) (w : Welem) : Option (List UInt8) :=
  match w.name with
  | .unset => none
  | .null => if w.wlen = 0 then some [] else none
  | .data pos => some ((List.range w.wlen).map fun k => mem (pos + k))

/-- `'/'`. -/
def slash : UInt8 := 47

/-- The memory of the path, and `wqids` as far as it is set. -/
structure Walked where
  path : List UInt8
  wqids : List Qid

/-- The second loop of `p9walk`, with what `statqid` finds for each name; `none` if it stores
outside of the path or uses a name that was never set. -/
def walkNames (mem : ℕ → UInt8) (statqid : ℕ → Option Qid) :
    List Welem → (i n : ℕ) → (path : List UInt8) → Option Walked
  | [], _, _, path => some ⟨path, []⟩
  | w :: names, i, n, path => do
    let path ← put path n [slash]
    let name ← w.bytes mem
    let path ← put path (n + 1) name
    let path ← put path (n + 1 + w.wlen) [0]
    match statqid i with
    | none => some ⟨path, []⟩
    | some qid =>
      (walkNames mem statqid names (i + 1) (n + 1 + w.wlen) path).map fun rest =>
        { rest with wqids := qid :: rest.wqids }

/-- A string, if the memory has its terminator. -/
def cut (mem : List UInt8) : Option (List UInt8) :=
  if 0 ∈ mem then some (mem.takeWhile (· ≠ 0)) else none

/-! ## What they are for -/

/-- The names from the place `n` on, if they fit in the body. -/
def bodyNames (body : Body) : (count n : ℕ) → Option (List (List UInt8))
  | 0, _ => some []
  | count + 1, n =>
    let len := (gint16 body.mem n).toNat
    if n + 2 + len ≤ body.size then
      (bodyNames body count (n + (len + 2))).map
        (((List.range len).map fun k => body.mem (n + 2 + k)) :: ·)
    else
      none

/-- The qids of the leading names that are found. -/
def leading (statqid : ℕ → Option Qid) : (count i : ℕ) → List Qid
  | 0, _ => []
  | count + 1, i =>
    match statqid i with
    | none => []
    | some qid => qid :: leading statqid count (i + 1)

/-- The names, each behind a slash. -/
def joined (names : List (List UInt8)) : List UInt8 := names.flatMap (slash :: ·)

namespace Body

variable (body : Body)

/-- The name behind the count at `n`, if `gstr` takes it. -/
def nameAt (n : ℕ) : Option (List UInt8) :=
  let len := (gint16 body.mem n).toNat
  if n + len < body.size then some ((List.range len).map fun k => body.mem (n + 2 + k)) else none

/-- `wlen[i]` of a name. -/
def wlenOf (name : Option (List UInt8)) : ℕ := name.elim 65535 List.length

/-- The first loop reads counts from the buffer only. -/
def Counted : (count n : ℕ) → Prop
  | 0, _ => True
  | count + 1, n => n + 2 ≤ body.room ∧ Counted count (n + (wlenOf (body.nameAt n) + 2))

/-- The first of the names is there, and is not found. -/
structure Missing (statqid : ℕ → Option Qid) : Prop where
  some : body.nwname ≠ 0
  counted : body.Counted body.nwname 10
  first : body.nameAt 10 ≠ none
  missing : statqid 0 = none

/-- All names fit in the body and are found, and none has a byte 0. -/
def Complete (statqid : ℕ → Option Qid) : Prop :=
  ∃ names, bodyNames body body.nwname 10 = some names ∧ (∀ i < body.nwname, statqid i ≠ none) ∧
    ∀ name ∈ names, 0 ∉ name

end Body

/-! ## The first loop -/

namespace Body

variable {body : Body} {statqid : ℕ → Option Qid} {turns i n slen : ℕ} {mem mem' : ℕ → UInt8}
  {name : List UInt8}

/-- The names that the first loop takes. -/
def taken (body : Body) : (count n : ℕ) → List (Option (List UInt8))
  | 0, _ => []
  | count + 1, n => body.nameAt n :: taken body count (n + (wlenOf (body.nameAt n) + 2))

theorem length_taken : (body.taken turns n).length = turns := by
  induction turns generalizing n with
  | zero => rfl
  | succ turns ih => rw [taken, List.length_cons, ih]

theorem gint16_lt : (gint16 mem n).toNat < 2 ^ 16 := UInt16.toNat_lt _

theorem gint16_congr (same : ∀ k ≥ n, mem' k = mem k) : gint16 mem' n = gint16 mem n :=
  congrArg word16 (funext fun k => same (n + k) (Nat.le_add_right n k))

theorem length_nameAt (is : body.nameAt n = some name) :
    name.length = (gint16 body.mem n).toNat := by
  rw [nameAt] at is
  split_ifs at is
  obtain rfl := Option.some.inj is
  rw [List.length_map, List.length_range]

theorem wlenOf_le : wlenOf (body.nameAt n) ≤ 65535 := by
  cases is : body.nameAt n with
  | none => rfl
  | some name =>
      have small : (gint16 body.mem n).toNat < 2 ^ 16 := gint16_lt
      rw [wlenOf, Option.elim_some, length_nameAt is]
      omega

/-- The size that `gstr` gets is an `int`. -/
theorem bmod_rest (below : n < 2 ^ 31) : Int.bmod (body.size - n) (2 ^ 32) = body.size - n := by
  have inside := body.inside
  have small := body.small
  apply Int.bmod_eq_of_le <;> omega

theorem gstr_refuses (behind : ∀ k ≥ n, mem k = body.mem k) (refused : body.nameAt n = none) :
    gstr mem n (body.size - n) = ⟨-1, .unset, mem⟩ := by
  rw [nameAt] at refused
  split_ifs at refused with fits
  rw [gstr, gint16_congr behind]
  exact if_pos (by omega)

/-- A name that `gstr` takes is moved over its count. -/
theorem gstr_takes (behind : ∀ k ≥ n, mem k = body.mem k) (took : body.nameAt n = some name) :
    (gstr mem n (body.size - n)).ret = name.length ∧
      (∀ k, k < n ∨ n + (name.length + 2) ≤ k → (gstr mem n (body.size - n)).mem k = mem k) ∧
      ∀ mem', (∀ k < n + (name.length + 2), mem' k = (gstr mem n (body.size - n)).mem k) →
        Welem.bytes mem' ⟨(gstr mem n (body.size - n)).s, name.length⟩ = some name := by
  have length := length_nameAt took
  rw [nameAt] at took
  split_ifs at took with fits
  have moved : ∀ k < name.length, body.mem (n + 2 + k) = name.getD k 0 := by
    intro k below
    obtain rfl := Option.some.inj took
    rw [length] at below
    simp [List.getD_eq_getElem?_getD, below]
  rw [gstr, gint16_congr behind, ← length, if_neg (by omega)]
  split_ifs with some
  · refine ⟨rfl, fun k outside => ?_, fun mem' same => ?_⟩
    · dsimp only [moveName]
      rw [if_neg (by omega), if_neg (by omega)]
    · refine congrArg Option.some (List.ext_getElem (by simp) fun k below below' => ?_)
      have here := moved k below'
      rw [List.getD_eq_getElem _ _ below'] at here
      have there : mem' (n + k) = moveName mem n name.length (n + k) := same (n + k) (by omega)
      rw [List.getElem_map, List.getElem_range, there, ← here, moveName, if_pos (by omega),
        behind _ (by omega), Nat.add_right_comm]
  · obtain rfl := List.eq_nil_of_length_eq_zero (not_not.mp some)
    exact ⟨rfl, fun _ _ => rfl, fun _ _ => rfl⟩

/-- What `wnames[i]` and `wlen[i]` are for a name. -/
def Stands (mem : ℕ → UInt8) (w : Welem) (name : Option (List UInt8)) : Prop :=
  w.bytes mem = name ∧ w.wlen = wlenOf name

theorem gstr_wlen (behind : ∀ k ≥ n, mem k = body.mem k) :
    ((gstr mem n (body.size - n)).ret % 2 ^ 16).toNat = wlenOf (body.nameAt n) := by
  have most : wlenOf (body.nameAt n) ≤ 65535 := wlenOf_le
  cases took : body.nameAt n with
  | none =>
      rw [gstr_refuses behind took]
      rfl
  | some name =>
      rw [took, wlenOf, Option.elim_some] at most
      rw [(gstr_takes behind took).1, wlenOf, Option.elim_some]
      omega

theorem gstr_mem (behind : ∀ k ≥ n, mem k = body.mem k) {k : ℕ}
    (outside : k < n ∨ n + (wlenOf (body.nameAt n) + 2) ≤ k) :
    (gstr mem n (body.size - n)).mem k = mem k := by
  cases took : body.nameAt n with
  | none => rw [gstr_refuses behind took]
  | some name =>
      rw [took] at outside
      exact (gstr_takes behind took).2.1 k outside

theorem gstr_stands (behind : ∀ k ≥ n, mem k = body.mem k)
    (kept : ∀ k < n + (wlenOf (body.nameAt n) + 2),
      mem' k = (gstr mem n (body.size - n)).mem k) :
    Stands mem' ⟨(gstr mem n (body.size - n)).s, wlenOf (body.nameAt n)⟩ (body.nameAt n) := by
  refine ⟨?_, rfl⟩
  cases took : body.nameAt n with
  | none =>
      rw [gstr_refuses behind took]
      rfl
  | some name =>
      rw [took] at kept
      exact (gstr_takes behind took).2.2 mem' kept

/-- The room that names take in a path. -/
def need (names : List (Option (List UInt8))) : ℕ := (names.map (wlenOf · + 1)).sum

theorem need_cons {first : Option (List UInt8)} {names : List (Option (List UInt8))} :
    need (first :: names) = wlenOf first + 1 + need names := by
  rw [need, List.map_cons, List.sum_cons, need]

/-- One turn of the first loop. -/
theorem getNames_succ (behind : ∀ k ≥ n, mem k = body.mem k) (place : n ≤ 10 + i * 65537)
    (more : i < Maxwelem) (count : n + 2 ≤ body.room) :
    getNames body (turns + 1) i n slen mem =
      (getNames body turns (i + 1) (n + (wlenOf (body.nameAt n) + 2))
        (slen + (wlenOf (body.nameAt n) + 1)) (gstr mem n (body.size - n)).mem).map fun rest =>
          { rest with
            names := ⟨(gstr mem n (body.size - n)).s, wlenOf (body.nameAt n)⟩ :: rest.names } := by
  have below : n < 2 ^ 31 := by
    rw [Maxwelem] at more
    omega
  rw [getNames, if_pos ⟨more, count⟩, bmod_rest below]
  dsimp only
  rw [gstr_wlen behind]

/-- The first loop takes the names, and leaves what is before them as it was. -/
theorem getNames_spec (behind : ∀ k ≥ n, mem k = body.mem k) (place : n ≤ 10 + i * 65537)
    (few : i + turns ≤ Maxwelem) (counted : body.Counted turns n) :
    ∃ got, getNames body turns i n slen mem = some got ∧
      List.Forall₂ (Stands got.mem) got.names (body.taken turns n) ∧
      got.slen = slen + need (body.taken turns n) ∧ ∀ k < n, got.mem k = mem k := by
  induction turns generalizing i n slen mem with
  | zero => exact ⟨⟨mem, [], slen⟩, rfl, .nil, rfl, fun _ _ => rfl⟩
  | succ turns ih =>
      have most : wlenOf (body.nameAt n) ≤ 65535 := wlenOf_le
      have behind' : ∀ k ≥ n + (wlenOf (body.nameAt n) + 2),
          (gstr mem n (body.size - n)).mem k = body.mem k := fun k above =>
        (gstr_mem behind (.inr above)).trans (behind k (by omega))
      obtain ⟨got, is, stands, slen', kept⟩ := @ih (i + 1) _
        (slen + (wlenOf (body.nameAt n) + 1)) _ behind' (by omega) (by omega) counted.2
      refine ⟨{ got with
          names := ⟨(gstr mem n (body.size - n)).s, wlenOf (body.nameAt n)⟩ :: got.names }, ?_,
        .cons (gstr_stands behind kept) stands, ?_, fun k before =>
          (kept k (by omega)).trans (gstr_mem behind (.inl before))⟩
      · rw [getNames_succ behind place (by omega) counted.1]
        exact Option.map_eq_some_iff.mpr ⟨got, is, rfl⟩
      · change got.slen = slen + need (_ :: _)
        rw [need_cons, slen']
        omega

/-- The first loop ends only in this way. -/
theorem counted_of_getNames {got : Names} (behind : ∀ k ≥ n, mem k = body.mem k)
    (place : n ≤ 10 + i * 65537) (most : i ≤ Maxwelem)
    (is : getNames body turns i n slen mem = some got) :
    i + turns ≤ Maxwelem ∧ body.Counted turns n := by
  induction turns generalizing i n slen mem got with
  | zero => exact ⟨most, trivial⟩
  | succ turns ih =>
      have least : wlenOf (body.nameAt n) ≤ 65535 := wlenOf_le
      by_cases inside : i < Maxwelem ∧ n + 2 ≤ body.room
      · rw [getNames_succ behind place inside.1 inside.2] at is
        obtain ⟨rest, is, -⟩ := Option.map_eq_some_iff.mp is
        obtain ⟨few, counted⟩ := ih (fun k above =>
          (gstr_mem behind (.inr above)).trans (behind k (by omega))) (by omega) (by omega) is
        exact ⟨by omega, inside.2, counted⟩
      · rw [getNames, if_neg inside] at is
        cases is

/-! ## Names that fit -/

theorem nameAt_of_fits (fits : n + 2 + (gint16 body.mem n).toNat ≤ body.size) :
    body.nameAt n = some ((List.range (gint16 body.mem n).toNat).map
      fun k => body.mem (n + 2 + k)) := by
  rw [nameAt]
  exact if_pos (by omega)

/-- The first loop takes names that fit in the body as they are. -/
theorem taken_of_bodyNames {names : List (List UInt8)}
    (fit : bodyNames body turns n = some names) :
    body.taken turns n = names.map some ∧ body.Counted turns n := by
  induction turns generalizing n names with
  | zero =>
      obtain rfl := Option.some.inj fit
      exact ⟨rfl, trivial⟩
  | succ turns ih =>
      rw [bodyNames] at fit
      split_ifs at fit with fits
      obtain ⟨rest, fit', rfl⟩ := Option.map_eq_some_iff.mp fit
      have inside := body.inside
      have at' := nameAt_of_fits fits
      have length : wlenOf (body.nameAt n) = (gint16 body.mem n).toNat := by
        rw [at', wlenOf, Option.elim_some, List.length_map, List.length_range]
      rw [← length] at fit'
      obtain ⟨taken, counted⟩ := ih fit'
      refine ⟨?_, by omega, counted⟩
      rw [Body.taken, taken, at']
      rfl

end Body

/-! ## The second loop -/

section Path

variable {statqid : ℕ → Option Qid} {mem : ℕ → UInt8} {names : List (List UInt8)} {i : ℕ}

theorem put_append {front old bytes rest : List UInt8} (same : old.length = bytes.length) :
    put (front ++ (old ++ rest)) front.length bytes = some (front ++ (bytes ++ rest)) := by
  have room : front.length + bytes.length ≤ (front ++ (old ++ rest)).length := by
    simp only [List.length_append]
    omega
  rw [put, if_pos room, store, List.take_left, ← same, ← List.length_append, ← List.append_assoc,
    List.drop_left, List.append_assoc]

/-- The names that the second loop puts behind the path; `none` if it uses one that `gstr` has not
taken. -/
def visited (statqid : ℕ → Option Qid) : (i : ℕ) → List (Option (List UInt8)) →
    Option (List (List UInt8))
  | _, [] => some []
  | _, none :: _ => none
  | i, some name :: names =>
    match statqid i with
    | none => some [name]
    | some _ => (visited statqid (i + 1) names).map (name :: ·)

@[simp] theorem joined_singleton {name : List UInt8} : joined [name] = slash :: name :=
  List.flatMap_singleton _ _

theorem joined_cons {name : List UInt8} : joined (name :: names) = slash :: name ++ joined names :=
  List.flatMap_cons

/-- One turn of the second loop, as far as the path. -/
theorem walkNames_cons {w : Welem} {ws : List Welem} {name front rest : List UInt8}
    (bytes : w.bytes mem = some name) (wlen : w.wlen = name.length)
    (room : name.length + 1 ≤ rest.length) :
    walkNames mem statqid (w :: ws) i front.length (front ++ 0 :: rest) =
      (statqid i).elim (some ⟨front ++ (slash :: name) ++ 0 :: rest.drop (name.length + 1), []⟩)
        fun qid => (walkNames mem statqid ws (i + 1) (front ++ (slash :: name)).length
          (front ++ (slash :: name) ++ 0 :: rest.drop (name.length + 1))).map fun more =>
            { more with wqids := qid :: more.wqids } := by
  obtain ⟨gap, last, behind, rfl, length⟩ : ∃ gap last behind, rest = gap ++ last :: behind ∧
      gap.length = name.length := by
    refine ⟨rest.take name.length, rest[name.length], rest.drop (name.length + 1), ?_, ?_⟩
    · rw [← List.drop_eq_getElem_cons, List.take_append_drop]
    · rw [List.length_take]
      omega
  have put_slash : put (front ++ 0 :: (gap ++ last :: behind)) front.length [slash] =
      some (front ++ slash :: (gap ++ last :: behind)) :=
    @put_append front [0] [slash] (gap ++ last :: behind) rfl
  have put_name : put (front ++ slash :: (gap ++ last :: behind)) (front.length + 1) name =
      some (front ++ slash :: (name ++ last :: behind)) := by
    have put' := @put_append (front ++ [slash]) gap name (last :: behind) length
    simpa using put'
  have put_end : put (front ++ slash :: (name ++ last :: behind))
      (front.length + 1 + name.length) [0] =
      some (front ++ (slash :: name) ++ 0 :: behind) := by
    have put' := @put_append (front ++ (slash :: name)) [last] [0] behind rfl
    simpa [Nat.add_assoc, Nat.add_comm 1] using put'
  have dropped : (gap ++ last :: behind).drop (name.length + 1) = behind := by
    rw [← length, ← List.drop_drop, List.drop_left]
    rfl
  have place : front.length + 1 + name.length = (front ++ (slash :: name)).length := by
    rw [List.length_append, List.length_cons]
    omega
  rw [walkNames, dropped, ← place]
  simp only [put_slash, bytes, put_name, wlen, put_end, Option.bind_eq_bind, Option.bind_some]
  cases statqid i <;> rfl

/-- The second loop extends the path by the names that it visits. -/
theorem walkNames_spec {ws : List Welem} {taken : List (Option (List UInt8))}
    {front rest : List UInt8} (stands : List.Forall₂ (Body.Stands mem) ws taken)
    (room : Body.need taken ≤ rest.length) :
    (visited statqid i taken = none ∧
      walkNames mem statqid ws i front.length (front ++ 0 :: rest) = none) ∨
    ∃ names rest', visited statqid i taken = some names ∧
      walkNames mem statqid ws i front.length (front ++ 0 :: rest) =
        some ⟨front ++ joined names ++ 0 :: rest', leading statqid taken.length i⟩ ∧
      (joined names).length + rest'.length = rest.length := by
  induction stands generalizing i front rest with
  | nil => exact .inr ⟨[], rest, rfl, by simp [walkNames, leading, joined], by simp [joined]⟩
  | @cons w name ws taken stand stands ih =>
      obtain ⟨bytes, wlen⟩ := stand
      rw [Body.need_cons] at room
      cases name with
      | none =>
          refine .inl ⟨rfl, ?_⟩
          have put_slash : put (front ++ 0 :: rest) front.length [slash] =
              some (front ++ slash :: rest) := @put_append front [0] [slash] rest rfl
          rw [walkNames]
          simp only [put_slash, bytes, Option.bind_eq_bind, Option.bind_some, Option.bind_none]
      | some name =>
          have length : Body.wlenOf (some name) = name.length := rfl
          rw [length] at room wlen
          rw [walkNames_cons bytes wlen (by omega)]
          have step : (joined [name]).length + (rest.drop (name.length + 1)).length =
              rest.length := by
            rw [joined_singleton, List.length_cons, List.length_drop]
            omega
          cases found : statqid i with
          | none =>
              refine .inr ⟨[name], rest.drop (name.length + 1), ?_, ?_, step⟩
              · simp only [visited, found]
              · simp [leading, found, joined]
          | some qid =>
              have more := @ih (i + 1) (front ++ (slash :: name)) (rest.drop (name.length + 1))
                (by rw [List.length_drop]; omega)
              rcases more with ⟨stuck, fails⟩ | ⟨names, rest', visits, walks, lengths⟩
              · refine .inl ⟨?_, ?_⟩
                · simp only [visited, found, stuck, Option.map_none]
                · rw [fails]
                  rfl
              · refine .inr ⟨name :: names, rest', ?_, ?_, ?_⟩
                · simp only [visited, found, visits, Option.map_some]
                · rw [walks]
                  simp [leading, found, joined_cons]
                · rw [← step, ← lengths, joined_cons, joined_singleton, List.length_append]
                  omega

/-! ## What the second loop visits -/

variable {taken : List (Option (List UInt8))}

theorem visited_map_some : ∃ k, visited statqid i (names.map some) = some (names.take k) ∧
    (k = (leading statqid names.length i).length ∧ k = names.length ∨
      k = (leading statqid names.length i).length + 1 ∧ k ≤ names.length) := by
  induction names generalizing i with
  | nil => exact ⟨0, rfl, .inl ⟨rfl, rfl⟩⟩
  | cons name names ih =>
      cases found : statqid i with
      | none => exact ⟨1, by simp [visited, found], .inr ⟨by simp [leading, found], by simp⟩⟩
      | some qid =>
          obtain ⟨k, visits, count⟩ := @ih (i + 1)
          refine ⟨k + 1, by simp [visited, found, visits], ?_⟩
          simp only [List.length_cons, leading, found]
          omega

theorem length_leading {count : ℕ} :
    (leading statqid count i).length = count ↔ ∀ k < count, statqid (i + k) ≠ none := by
  induction count generalizing i with
  | zero => simp [leading]
  | succ count ih =>
      cases found : statqid i with
      | none =>
          refine iff_of_false (by simp [leading, found]) fun all => ?_
          exact all 0 (Nat.succ_pos _) found
      | some qid =>
          simp only [leading, found, List.length_cons, Nat.add_right_cancel_iff, ih]
          constructor
          · intro all k below
            cases k with
            | zero => simp [found]
            | succ k =>
                rw [Nat.add_comm k, ← Nat.add_assoc]
                exact all k (by omega)
          · intro all k below
            rw [Nat.add_assoc, Nat.add_comm 1]
            exact all (k + 1) (by omega)

theorem not_mem_joined : 0 ∉ joined names ↔ ∀ name ∈ names, 0 ∉ name := by
  induction names with
  | nil => simp [joined]
  | cons name names ih =>
      rw [joined_cons, List.cons_append, List.mem_cons, List.mem_append, not_or, not_or, ih,
        List.forall_mem_cons]
      exact and_iff_right (by decide)

theorem takeWhile_append {front back : List UInt8} (plain : 0 ∉ front) :
    (front ++ back).takeWhile (· ≠ 0) = front ++ back.takeWhile (· ≠ 0) := by
  refine List.takeWhile_append_of_pos fun b member => ?_
  exact decide_eq_true fun zero => plain (zero ▸ member)

theorem cut_append {front back : List UInt8} (plain : 0 ∉ front) :
    cut (front ++ 0 :: back) = some front := by
  rw [cut, if_pos (by simp), takeWhile_append plain]
  simp

theorem cut_terminated {front back : List UInt8} :
    cut (front ++ 0 :: back) = some (front.takeWhile (· ≠ 0)) := by
  rw [cut, if_pos (by simp), List.takeWhile_append]
  split_ifs with whole
  · rw [List.takeWhile_cons_of_neg (by simp), List.append_nil,
      (List.takeWhile_prefix _).eq_of_length whole]
  · rfl

/-- Behind the path there are exactly the names that were found only if these are all names, and
none has a byte 0. -/
theorem takeWhile_joined {k l : ℕ} (most : l ≤ names.length)
    (count : l = k ∧ l = names.length ∨ l = k + 1) :
    (joined (names.take l)).takeWhile (· ≠ 0) = joined (names.take k) ↔
      k = names.length ∧ ∀ name ∈ names, 0 ∉ name := by
  rcases count with ⟨rfl, rfl⟩ | rfl
  · rw [List.take_length, and_iff_right rfl, ← not_mem_joined]
    constructor
    · intro same zero
      rw [← same] at zero
      simpa using List.mem_takeWhile_imp zero
    · intro plain
      simpa using @takeWhile_append (joined names) [] plain
  · refine iff_of_false (fun same => ?_) (by omega)
    have plain : 0 ∉ joined (names.take k) := by
      rw [← same]
      intro zero
      simpa using List.mem_takeWhile_imp zero
    have longer : joined (names.take (k + 1)) = joined (names.take k) ++ slash :: names[k] := by
      rw [List.take_succ_eq_append_getElem most, joined, List.flatMap_append, ← joined]
      simp
    rw [longer, takeWhile_append plain] at same
    have more := List.append_right_eq_self.mp same
    simp [slash] at more

end Path

end FusFids

end Npfs
