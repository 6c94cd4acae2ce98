import Npfs.Complete
import Npfs.FidInvariant
import Npfs.ShrunkReply
import Npfs.XattrWalk

/-!
# Where the bytes of an attribute come from

The value that a fid holds is filled by `npfs_xattrwalk` from the file, and by `npfs_xattrwrite` from
the client.  What has been supplied so far is kept beside the state of the connection, and compared
with what `npfs_xattrread` returns and `npfs_clunk` commits.
-/

namespace Npfs

namespace Ufs

open Program Serve

/-! ## What is supplied -/

/-- A value as a client knows it: whether the client declares and writes it or it is the file's,
its size, and the bytes that have been supplied. -/
structure Value where
  created : Bool
  size : Nat
  byte : Nat → Option UInt8

/-- The values of the fids. -/
abbrev Given := FidPtr → Value

/-- Nothing is supplied of a value of `size` bytes that the client declares. -/
def Value.blank (size : Nat) : Value := ⟨true, size, fun _ => none⟩

/-- All bytes of a value of the file are supplied. -/
def Value.whole (bytes : List UInt8) : Value := ⟨false, bytes.length, fun k => bytes[k]?⟩

/-- Bytes are supplied at a position. -/
def Value.write (v : Value) (offset : Nat) (bytes : List UInt8) : Value where
  created := v.created
  size := v.size
  byte k := if offset ≤ k ∧ k < offset + bytes.length then bytes[k - offset]? else v.byte k

/-- The callback has been answered with a message of a type. -/
def Answered (type : MsgType) (rc : Option Npfcall) : Bool := rc.any fun rc => rc.type == type.code

/-- What a callback supplies. -/
def supply (s : State) : (callback : Callback) → callback.Reply → Given → Given
  | .xattrwalk fid newfid name, rc, given =>
    match auxOf s fid >>= fun f => fileValue s.world f name with
    | some value =>
      if Answered .rxattrwalk rc then Function.update given newfid (.whole value) else given
    | none => given
  | .xattrcreate fid _ size _, rc, given =>
    if Answered .rxattrcreate rc then Function.update given fid (.blank size.toNat) else given
  | .xattrwrite fid offset count payload, _, given =>
    Function.update given fid ((given fid).write offset.toNat (payload.take count.toNat))
  | _, _, given => given

/-- Perform an operation of a request, and keep account of what is supplied. -/
def execGiven (u : Ufssrv) : (op : Npfs.Op) → State × Given → op.Reply × (State × Given)
  | .call callback, (s, given) =>
    let (reply, s') := exec u (.call callback) s
    (reply, s', supply s callback reply given)
  | op, (s, given) =>
    let (reply, s') := exec u op s
    (reply, s', given)

/-- Serve a request, and keep account of what is supplied. -/
def stepGiven (u : Ufssrv) (npErrnoToLinux : UInt32 → UInt32) (w : State × Given) (tc : Npfcall) :
    Option (State × Given) :=
  some ((serve npErrnoToLinux tc none).run (execGiven u) (w.1.receive, w.2)).2

/-- What the requests of a connection lead to, with what they have supplied. -/
abbrev ReachedGiven (u : Ufssrv) (npErrnoToLinux : UInt32 → UInt32) (msize : UInt32) (host : Host)
    (w : State × Given) : Prop :=
  Transition.Reaches (stepGiven u npErrnoToLinux) (fun _ _ => True)
    (.start msize host, fun _ => .blank 0) w

section Account

variable {u : Ufssrv} {npErrnoToLinux : UInt32 → UInt32} {msize : UInt32} {host : Host}

/-- The account changes nothing. -/
theorem run_execGiven {α : Type} (program : Serve α) (s : State) (given : Given) :
    (program.run (execGiven u) (s, given)).1 = (program.run (exec u) s).1 ∧
      (program.run (execGiven u) (s, given)).2.1 = (program.run (exec u) s).2 := by
  induction program generalizing s given with
  | done result => exact ⟨rfl, rfl⟩
  | step op next ih =>
      cases op with
      | call callback => exact ih _ _ _
      | _ => exact ih _ _ _

theorem ReachedGiven.reached {w : State × Given}
    (run : ReachedGiven u npErrnoToLinux msize host w) :
    State.Reached u npErrnoToLinux msize host w.1 := by
  induction run with
  | start => exact .start
  | step run allowed taken ih =>
      obtain rfl := Option.some.inj taken
      exact .step ih trivial (congrArg some (run_execGiven _ _ _).2.symm)

end Account

/-! ## The buffer of a value -/

section Buffer

variable {f f' : Fid} {v : Value} {path : CStr} {offset : UInt64} {count : UInt32}

/-- The buffer of a fid has room for its value, and the bytes that have been supplied. -/
structure Fid.Holds (f : Fid) (v : Value) : Prop where
  bound : f.xattrsz.toNat ≤ Host.PTRDIFF_MAX
  room : f.xattrsz.toNat ≤ (f.xattrdata.getD []).length
  size : f.xattrdata.isSome → f.xattrsz.toNat = v.size
  named : f.xattrname.isSome → f.xattrdata.isSome
  created : f.xattrname.isSome → v.created = true
  same : ∀ k b, v.byte k = some b → k < f.xattrsz.toNat → (f.xattrdata.getD [])[k]? = some b

/-- A fid without a value. -/
theorem Fid.Holds.of_none (size : f.xattrsz = 0) (name : f.xattrname = none)
    (unset : f.xattrdata = none) : f.Holds v where
  bound := by simp [size]
  room := by simp [size]
  size := by simp [unset]
  named := by simp [name]
  created := by simp [name]
  same k b _ inside := by simp [size] at inside

theorem Fid.Moves.holds {handed : UInt64 → Prop} (moves : f.Moves handed path f') (holds : f.Holds v) : f'.Holds v where
  bound := moves.xattrsz ▸ holds.bound
  room := by rw [moves.xattrsz, moves.xattrdata]; exact holds.room
  size := by rw [moves.xattrsz, moves.xattrdata]; exact holds.size
  named := by rw [moves.xattrname, moves.xattrdata]; exact holds.named
  created := by rw [moves.xattrname]; exact holds.created
  same := by rw [moves.xattrsz, moves.xattrdata]; exact holds.same

/-- The count that is left of a request does not wrap around. -/
theorem xattrCount_toNat (bound : f.xattrsz.toNat ≤ Host.PTRDIFF_MAX) :
    (xattrCount f offset count).toNat = min count.toNat (f.xattrsz.toNat - offset.toNat) := by
  rw [Host.PTRDIFF_MAX] at bound
  have below := count.toNat_lt
  unfold xattrCount
  split
  · rename_i behind
    rw [ge_iff_le, UInt64.le_iff_toNat_le] at behind
    rw [UInt32.toNat_zero]
    omega
  rename_i before
  rw [ge_iff_le, UInt64.le_iff_toNat_le, not_le] at before
  have sum : (offset + count.toUInt64).toNat = offset.toNat + count.toNat := by
    rw [UInt64.toNat_add, UInt32.toNat_toUInt64]
    exact Nat.mod_eq_of_lt (by omega)
  split
  · rename_i past
    rw [gt_iff_lt, UInt64.lt_iff_toNat_lt, sum] at past
    have rest : (f.xattrsz - offset).toNat = f.xattrsz.toNat - offset.toNat :=
      UInt64.toNat_sub_of_le _ _ (UInt64.le_iff_toNat_le.mpr before.le)
    rw [UInt64.toNat_toUInt32, rest]
    omega
  · rename_i within
    rw [gt_iff_lt, UInt64.lt_iff_toNat_lt, sum] at within
    omega

/-- What a request asks for is inside the buffer. -/
theorem Fid.Holds.inside (holds : f.Holds v) (offset : UInt64) (count : UInt32) :
    xattrCount f offset count = 0 ∨
      offset.toNat + (xattrCount f offset count).toNat ≤ (f.xattrdata.getD []).length := by
  have exact := @xattrCount_toNat f offset count holds.bound
  have room := holds.room
  by_cases none_left : xattrCount f offset count = 0
  · exact .inl none_left
  · have some_left : (xattrCount f offset count).toNat ≠ 0 := fun zero =>
      none_left (UInt32.toNat_inj.mp zero)
    exact .inr (by omega)

end Buffer

/-! ## The account is right -/

/-- The buffers of all fids hold what has been supplied. -/
def Backs (s : State) (given : Given) : Prop := ∀ p f, auxOf s p = some f → f.Holds (given p)

section Account

variable {u : Ufssrv} {s s' : State} {given : Given} {p fid newfid : FidPtr} {f : Fid}

theorem Backs.of_auxOf (backs : Backs s given) (known : ∀ p f, auxOf s' p = some f → auxOf s p = some f) :
    Backs s' given := fun p f found => backs p f (known p f found)

/-- The functions that supply bytes, or declare a value. -/
def Supplies : Callback → Prop
  | .xattrwalk .. | .xattrcreate .. | .xattrwrite .. => True
  | _ => False

theorem supply_of_not {callback : Callback} (other : ¬ Supplies callback)
    (reply : callback.Reply) : supply s callback reply given = given := by
  cases callback <;> first | rfl | exact absurd trivial other

/-- It is known of a fid that it holds what has been supplied. -/
abbrev Known (given : Given) (p : FidPtr) (f : Fid) : Prop := f.Holds (given p)

/-- All answers of system calls are possible. -/
abbrev Anything (call : SysCall) (_ : call.Reply) : Prop := True

theorem lasting_known : Lasting (Known given) Anything := ⟨fun holds same => same.holds holds⟩

theorem Backs.np (backs : Backs s given) (op : Npfs.Op) : Backs (Npfs.exec env op s).2 given :=
  Every.env backs op

theorem Backs.setAux {aux : Fid} (backs : Backs s given) (holds : aux.Holds (given p)) :
    Backs (s.modify p fun f => { f with aux := some aux }) given := Every.setAux backs holds

theorem Backs.does {c : Callback} {op : Op} (backs : Backs s given) (other : ¬ Supplies c)
    (does : Does u (Known given) Anything c op) : Backs (execOp u op s).2 given := by
  refine every_execOp backs fun p f same => ?_
  subst same
  cases does with
  | plain plain => exact plain.elim
  | stays known same => exact same.holds known
  | moves known aims moved => exact moved.holds known
  | attached callback fresh => exact fresh.holds (.of_none rfl rfl rfl)
  | cloned => exact .of_none rfl rfl rfl
  | fetches callback | fetched callback => exact absurd (callback ▸ trivial) other
  | xattrcreated callback | xattrwritten callback => exact absurd (callback ▸ trivial) other

theorem told_of_backs (backs : Backs s given) (op : Op) :
    Op.Told u (Known given) Anything op (execOp u op s).1 := by
  cases op with
  | ufs => rfl
  | aux p => exact Every.read backs p
  | _ => trivial

/-- Code that supplies nothing keeps the account right. -/
theorem Backs.code {α : Type} {c : Callback} {code : Code α} (backs : Backs s given)
    (other : ¬ Supplies c) (follows : Follows u (Known given) Anything c code) :
    Backs (code.run (execOp u) s).2 given := by
  have told : ∀ op s', Backs s' given → Does u (Known given) Anything c op →
      Op.Told u (Known given) Anything op (execOp u op s').1 :=
    fun op s' backs _ => told_of_backs backs op
  have kept : ∀ op s', Backs s' given → Does u (Known given) Anything c op →
      Backs (execOp u op s').2 given := fun op s' backs does => backs.does other does
  exact (Always.run follows told kept backs).2.1

/-! ### Declaring and writing -/

/-- The replies of the functions that supply bytes can be made. -/
theorem rxattrcreate_type (heap : Malloc) :
    ∃ fc, npCreateRxattrcreate heap = some fc ∧ fc.type = MsgType.rxattrcreate.code := by
  apply created_type <;> simp [packed]

theorem rxattrwalk_type (asize : UInt64) (heap : Malloc) :
    ∃ fc, npCreateRxattrwalk asize heap = some fc ∧ fc.type = MsgType.rxattrwalk.code := by
  apply created_type <;> simp [packed, PutOp.bytes]

theorem answered_of_type {type : MsgType} {rc : Npfcall} (same : rc.type = type.code) :
    Answered type (some rc) = true := by simp [Answered, same]

theorem malloc_some {host host' : Host} {n : Nat} {bytes : List UInt8}
    (allocated : host.exec (.malloc n) = (some bytes, host')) :
    bytes.length = n ∧ n ≤ Host.PTRDIFF_MAX := by
  simp only [Host.exec] at allocated
  split_ifs at allocated with failed
  · cases allocated
  · obtain rfl := Option.some.inj (congrArg Prod.fst allocated)
    exact ⟨by simp, not_lt.mp (not_or.mp failed).2⟩

theorem ensures_create {constructor : Malloc → Option Npfcall}
    {post : Option Npfcall → State → Prop}
    (onward : ∀ heap s', auxOf s' = auxOf s → post (constructor heap) s') :
    Ensures (execOp u) post (create constructor) s := onward _ _ rfl

/-- A declared value has a buffer, of which nothing is supplied. -/
theorem holds_blank {size : UInt64} {name : CStr} {flags : UInt32} {xdata : List UInt8}
    (bound : size.toNat ≤ Host.PTRDIFF_MAX) (room : size.toNat ≤ xdata.length) :
    Fid.Holds { f with
      xattrname := some name, xattrflags := flags, xattrsz := size, xattrdata := some xdata }
      (.blank size.toNat) where
  bound := bound
  room := room
  size _ := rfl
  named _ := rfl
  created _ := rfl
  same k b given := by cases given

theorem Backs.update (backs : Backs s given) {v : Value}
    (holds : ∀ f, auxOf s p = some f → f.Holds v) : Backs s (Function.update given p v) := by
  intro q f found
  by_cases same : q = p
  · subst same
    rw [Function.update_self]
    exact holds f found
  · rw [Function.update_of_ne same]
    exact backs q f found

theorem backs_xattrcreate {name : List UInt8} {size : UInt64} {flags : UInt32}
    (backs : Backs s given) : Ensures (execOp u)
      (fun rc s' => Backs s' (supply s (.xattrcreate fid name size flags) rc given))
      (npfsXattrcreate fid name size flags) s := by
  have refused (ecode : Errno) (s' : State) (backs : Backs s' given) : Ensures (execOp u)
      (fun rc s' => Backs s' (supply s (.xattrcreate fid name size flags) rc given))
      (createRerror ecode : Code (Option Npfcall)) s' := backs
  refine ensures_withAux (fun _ => backs) fun f found => ?_
  rw [npfsCheckRegular]
  split
  · exact refused EINVAL s backs
  split
  · exact refused EACCES s backs
  refine ensures_sys.mpr ?_
  generalize allocated : s.world.exec (.malloc (if size = 0 then 1 else size.toNat)) = answer
  obtain ⟨xdata, world⟩ := answer
  cases xdata with
  | none => exact refused ENOMEM _ backs
  | some xdata =>
      obtain ⟨length, bound⟩ := malloc_some allocated
      have small : size.toNat ≤ Host.PTRDIFF_MAX ∧ size.toNat ≤ xdata.length := by
        split_ifs at length bound with zero
        · simp [zero]
        · exact ⟨bound, length.ge⟩
      refine ensures_setAux.mpr (ensures_np.mpr ?_)
      have stored : Backs (s.modify fid fun g => { g with aux := some { f with
          xattrname := some (npStrdup name), xattrflags := flags, xattrsz := size
          xattrdata := some xdata } }) (Function.update given fid (.blank size.toNat)) := by
        intro q g found
        obtain ⟨rfl, rfl⟩ | ⟨other, found⟩ := auxOf_set found
        · rw [Function.update_self]
          exact holds_blank small.1 small.2
        · rw [Function.update_of_ne other]
          exact backs q g found
      have converted := stored.np (.setOmode fid Owrite.toUInt16)
      refine ensures_create fun heap s' same => ?_
      obtain ⟨rc, created, type⟩ := rxattrcreate_type heap
      rw [created]
      have supplied : supply s (.xattrcreate fid name size flags) (some rc) given =
          Function.update given fid (.blank size.toNat) := if_pos (answered_of_type type)
      rw [supplied]
      exact converted.of_auxOf fun q g found => same ▸ found

/-- A byte of a buffer after a store. -/
theorem getElem?_store {mem bytes : List UInt8} {pos : Nat}
    (room : bytes = [] ∨ pos + bytes.length ≤ mem.length) (k : Nat) :
    (store mem pos bytes)[k]? =
      if pos ≤ k ∧ k < pos + bytes.length then bytes[k - pos]? else mem[k]? := by
  rcases room with rfl | room
  · simp [store]
  · have front : (mem.take pos).length = pos := by
      rw [List.length_take]
      omega
    rw [store, List.append_assoc, List.getElem?_append, front]
    split_ifs with before within within
    · omega
    · simp [before]
    · rw [List.getElem?_append_left (by omega)]
    · rw [List.getElem?_append_right (by omega), List.getElem?_drop]
      congr 1
      omega

theorem Fid.Holds.write {v : Value} {offset : UInt64} {count : UInt32} {payload : List UInt8}
    (holds : f.Holds v) : Fid.Holds { f with
      xattrdata := f.xattrdata.map fun xattrdata =>
        store xattrdata offset.toNat (payload.take (xattrCount f offset count).toNat) }
      (v.write offset.toNat (payload.take count.toNat)) := by
  have exact := @xattrCount_toNat f offset count holds.bound
  have inside := holds.inside offset count
  obtain ⟨bound, room, size, named, created, same⟩ := holds
  cases known : f.xattrdata with
  | none =>
      rw [known] at room size named
      have empty : f.xattrsz.toNat = 0 := by simpa using room
      exact ⟨bound, by simp [empty], by simp, by simpa using named, created, fun k b _ within => by
        simp only at within
        omega⟩
  | some data =>
      rw [known, Option.getD_some] at room same inside
      rw [known] at size named
      obtain ⟨written, writtenEq⟩ :
        ∃ written, payload.take (xattrCount f offset count).toNat = written := ⟨_, rfl⟩
      have fits : written = [] ∨ offset.toNat + written.length ≤ data.length := by
        rcases inside with zero | inside
        · exact .inl (by rw [← writtenEq, zero]; rfl)
        · right
          rw [← writtenEq, List.length_take]
          omega
      have length : (store data offset.toNat written).length = data.length := by
        rcases fits with rfl | fits
        · simp [store]
        · exact length_store fits
      rw [writtenEq]
      refine ⟨bound, ?_, size, named, created, ?_⟩
      · simpa [length] using room
      · intro k b given within
        simp only [Option.map_some, Option.getD_some, Value.write] at given within ⊢
        rw [getElem?_store fits]
        have short : written.length = min (xattrCount f offset count).toNat payload.length := by
          rw [← writtenEq, List.length_take]
        have asked : (payload.take count.toNat).length = min count.toNat payload.length :=
          List.length_take
        split_ifs at given with range
        · rw [if_pos (by omega)]
          rw [← writtenEq, List.getElem?_take_of_lt (by omega)]
          rwa [List.getElem?_take_of_lt (by omega)] at given
        · rw [if_neg (by omega)]
          exact same k b given within

theorem backs_xattrwrite {offset : UInt64} {count : UInt32} {payload : List UInt8}
    (backs : Backs s given) : Ensures (execOp u)
      (fun rc s' => Backs s' (supply s (.xattrwrite fid offset count payload) rc given))
      (npfsXattrwrite fid offset count payload) s := by
  refine ensures_withAux (fun missing => ?_) fun f found => ?_
  · refine Backs.update (s := { s with fault := true }) backs fun f found => ?_
    have found : auxOf s fid = some f := found
    rw [missing] at found
    cases found
  · refine ensures_setAux.mpr (ensures_create fun heap s' same => ?_)
    intro q g found'
    rw [same] at found'
    obtain ⟨rfl, rfl⟩ | ⟨other, found'⟩ := auxOf_set found'
    · simp only [supply, Function.update_self]
      exact (backs q f found).write
    · simp only [supply, Function.update_of_ne other]
      exact backs q g found'

/-! ### Fetching -/

/-- A fetched value is supplied as a whole. -/
theorem holds_whole {n : Nat} {buf : List UInt8} (unnamed : f.xattrname = none)
    (bound : n ≤ XATTR_MAX) (room : n ≤ buf.length) :
    Fid.Holds { f with xattrsz := UInt64.ofNat n, xattrdata := some buf }
      (.whole (buf.take n)) := by
  have size : (UInt64.ofNat n).toNat = n := by
    rw [XATTR_MAX] at bound
    exact UInt64.toNat_ofNat_of_lt' (lt_of_le_of_lt bound (by decide))
  have length : (buf.take n).length = n := by
    rw [List.length_take]
    omega
  refine ⟨?_, ?_, ?_, ?_, ?_, ?_⟩
  · rw [size, Host.PTRDIFF_MAX]
    rw [XATTR_MAX] at bound
    omega
  · rw [size]
    exact room
  · exact fun _ => size.trans length.symm
  · simp [unnamed]
  · simp [unnamed]
  · intro k b given within
    rw [size] at within
    have given : (buf.take n)[k]? = some b := given
    rwa [List.getElem?_take_of_lt within] at given

/-- The rest of `npfs_xattrwalk`, behind its checks. -/
theorem backs_fetched {nf : Fid} {name : List UInt8} {turns : Nat} (calm : Calm s s')
    (backs : Backs s' given) (known : Names u (Known given) Anything (.statfs newfid) nf.path)
    (unnamed : nf.xattrname = none) : Ensures (execOp u)
      (fun rc s'' => Backs s'' (if Answered .rxattrwalk rc then
        match fileValue s.world nf name with
        | some value => Function.update given newfid (.whole value)
        | none => given
      else given))
      (do
        match ← xattrValue nf name turns with
        | none => return none
        | some (n, buf) => do
          let nf := { nf with xattrsz := UInt64.ofNat n, xattrdata := some buf }
          setAux newfid nf
          np (.fidIncref newfid)
          create (npCreateRxattrwalk nf.xattrsz) : Code (Option Npfcall)) s' := by
  have reads := (@reads_fileValue u s nf name turns).run calm
  have other : ¬ Supplies (.statfs newfid) := fun supplies => supplies
  have kept : Backs ((xattrValue nf name turns).run (execOp u) s').2 given :=
    backs.code other (follows_xattrValue known)
  refine ensures_bind.mpr ?_
  rw [Ensures]
  generalize (xattrValue nf name turns).run (execOp u) s' = result at reads kept
  obtain ⟨found, s₁⟩ := result
  obtain ⟨told, -, -⟩ := reads
  cases found with
  | none => exact kept
  | some found =>
      obtain ⟨n, buf⟩ := found
      obtain ⟨value, bound, room, -⟩ := told n buf rfl
      refine ensures_setAux.mpr (ensures_np.mpr ?_)
      have stored : Backs (s₁.modify newfid fun g => { g with aux := some { nf with
          xattrsz := UInt64.ofNat n, xattrdata := some buf } })
          (Function.update given newfid (.whole (buf.take n))) := by
        intro q g found
        obtain ⟨rfl, rfl⟩ | ⟨other, found⟩ := auxOf_set found
        · rw [Function.update_self]
          exact holds_whole unnamed bound room
        · rw [Function.update_of_ne other]
          exact kept q g found
      have counted := stored.np (.fidIncref newfid)
      refine ensures_create fun heap s₂ same => ?_
      obtain ⟨rc, created, type⟩ := rxattrwalk_type (UInt64.ofNat n) heap
      rw [created, if_pos (answered_of_type type), value]
      exact counted.of_auxOf fun q g found => same ▸ found

theorem backs_xattrwalk {name : List UInt8} (backs : Backs s given) : Ensures (execOp u)
    (fun rc s' => Backs s' (supply s (.xattrwalk fid newfid name) rc given))
    (npfsXattrwalk fid newfid name) s := by
  have unanswered : supply s (.xattrwalk fid newfid name) none given = given := by
    simp only [supply]
    split <;> rfl
  have fails (s' : State) (kept : Backs s' given) :
      Backs s' (supply s (.xattrwalk fid newfid name) none given) := by rwa [unanswered]
  refine ensures_withAux (fun _ => fails _ backs) fun f found => ?_
  rw [npfsCheckRegular]
  split
  · exact fails _ backs
  have supplied (rc : Option Npfcall) : supply s (.xattrwalk fid newfid name) rc given =
      if Answered .rxattrwalk rc then
        match fileValue s.world { npfsFidalloc f.path with mapped := f.mapped } name with
        | some value => Function.update given newfid (.whole value)
        | none => given
      else given := by
    have same : fileValue s.world { npfsFidalloc f.path with mapped := f.mapped } name =
        fileValue s.world f name := rfl
    rw [same]
    simp only [supply, found, Option.bind_eq_bind, Option.bind_some]
    cases fileValue s.world f name <;> simp
  simp only [supplied]
  have other : ¬ Supplies (.statfs newfid) := fun supplies => supplies
  have reads : Reads u s (fun _ => True) (npfsSetUser fid) := reads_npfsSetUser
  obtain ⟨-, calm⟩ := reads.run (.refl s)
  have kept : Backs ((npfsSetUser fid).run (execOp u) s).2 given :=
    backs.code other follows_npfsSetUser
  refine ensures_bind.mpr ?_
  rw [Ensures]
  generalize ((npfsSetUser fid).run (execOp u) s).2 = s₁ at calm kept
  refine ensures_ufs.mpr (ensures_setAux.mpr (ensures_np.mpr ?_))
  have passive : Op.Passive (.setAux newfid { npfsFidalloc f.path with mapped := f.mapped }) :=
    trivial
  have passive' : Op.Passive (.np (.setOmode newfid Oread.toUInt16)) := trivial
  have calm := (calm.trans (calm_execOp (u := u) passive)).trans (calm_execOp (u := u) passive')
  exact backs_fetched calm ((kept.setAux (.of_none rfl rfl rfl)).np (.setOmode newfid _))
    (.inl ⟨fid, f, backs fid f found, rfl⟩) rfl

/-- Every operation of a request keeps the account right. -/
theorem backs_execGiven (op : Npfs.Op) (w : State × Given) (backs : Backs w.1 w.2) :
    Backs (execGiven u op w).2.1 (execGiven u op w).2.2 := by
  obtain ⟨s, given⟩ := w
  have plain : Backs (Npfs.exec env op s).2 given := Backs.np backs op
  cases op with
  | call callback =>
      by_cases supplies : Supplies callback
      · cases callback with
        | xattrwalk fid newfid name => exact backs_xattrwalk backs
        | xattrcreate fid name size flags => exact backs_xattrcreate backs
        | xattrwrite fid offset count payload => exact backs_xattrwrite backs
        | _ => exact supplies.elim
      · have kept : Backs (exec u (.call callback) s).2 given :=
          Backs.code backs supplies (follows_ufsStart lasting_known callback)
        have same : Backs (exec u (.call callback) s).2
            (supply s callback (exec u (.call callback) s).1 given) := by
          rwa [supply_of_not supplies]
        exact same
  | _ => exact plain

/-- No part of a request breaks the account. -/
theorem run_execGiven_backs {α : Type} (program : Serve α) (backs : Backs s given) :
    Backs (program.run (execGiven u) (s, given)).2.1 (program.run (execGiven u) (s, given)).2.2 ∧
      ∀ event ∈ program.events (execGiven u) (s, given), Backs event.2.1 event.2.2 := by
  have kept : ∀ (op : Npfs.Op) (w : State × Given), Backs w.1 w.2 →
      Backs (execGiven u op w).2.1 (execGiven u op w).2.2 := backs_execGiven
  exact @run_invariant _ _ _ _ (execGiven u) (fun w => Backs w.1 w.2) kept program _ backs

end Account

/-! ## Reading a value -/

/-- The bytes that an `Rread` returns. -/
def readBytes (rc : Npfcall) : List UInt8 := (rc.pkt.drop 11).take rc.count.toNat

/-- The bytes that are returned have been supplied at their positions. -/
def Value.Returns (v : Value) (offset : Nat) (bytes : List UInt8) : Prop :=
  ∀ k b, bytes[k]? = some b → v.byte (offset + k) = some b

/-- All bytes of the value in a range have been supplied. -/
def Value.Supplied (v : Value) (offset count : Nat) : Prop :=
  ∀ k, offset ≤ k → k < offset + count → k < v.size → (v.byte k).isSome

section Reading

variable {u : Ufssrv} {npErrnoToLinux : UInt32 → UInt32} {s : State} {given : Given}
  {p fid : FidPtr} {f : Fid} {v : Value} {offset : UInt64} {count : UInt32} {tc : Npfcall}

/-- Setting the count leaves the bytes behind the header alone. -/
theorem npSetCount_rest {fc : Npfcall} (small : 11 + count.toNat < 2 ^ 31)
    (room : 11 ≤ fc.pkt.length) : (npSetCount fc count).count = count ∧
      (npSetCount fc count).pkt.drop 11 = fc.pkt.drop 11 := by
  rw [npSetCount_eq small]
  refine ⟨rfl, ?_⟩
  have sized : (store fc.pkt 0 (LittleEndian.bytes32 (4 + 1 + 2 + 4 + count))).length =
      fc.pkt.length := length_store (by rw [LittleEndian.bytes32_length]; omega)
  have front : (store fc.pkt 0 (LittleEndian.bytes32 (4 + 1 + 2 + 4 + count))).drop 11 =
      fc.pkt.drop 11 :=
    drop_store (by rw [LittleEndian.bytes32_length]; omega) (Nat.zero_le _)
  have back := @drop_store (store fc.pkt 0 (LittleEndian.bytes32 (4 + 1 + 2 + 4 + count)))
    (LittleEndian.bytes32 count) 7 11 (by rw [LittleEndian.bytes32_length]) (by omega)
  exact back.trans front

/-- The bytes that are put into a reply, as far as they are counted. -/
theorem readBytes_setRread {type : MsgType} {ret : Npfcall} {bytes : List UInt8} {n : Nat}
    (reserved : Reserved type count ret) (small : n + 11 < 2 ^ 31) (inside : n ≤ bytes.length) :
    readBytes (setRread ret bytes n) = bytes.take n := by
  have room := reserved.room
  have header : 11 ≤ ret.pkt.length := by omega
  have low : (UInt32.ofNat n).toNat = n := by
    rw [UInt32.toNat_ofNat']
    omega
  obtain ⟨counted, rest⟩ := @npSetCount_rest (.ofNat n) { ret with pkt := store ret.pkt 11 bytes }
    (by omega) (le_length_store header)
  rw [readBytes, setRread, counted, rest, low, List.take_drop, take_store_part header inside]
  exact List.drop_left' (List.length_take_of_le header)

/-- A byte of the buffer that has been supplied is the supplied one. -/
theorem Fid.Holds.supplied {k : Nat} {b : UInt8} (holds : f.Holds v) (inside : k < f.xattrsz.toNat)
    (given : k < v.size → (v.byte k).isSome) (here : (f.xattrdata.getD [])[k]? = some b) :
    v.byte k = some b := by
  have sized : f.xattrsz.toNat = v.size := holds.size (by
    cases known : f.xattrdata with
    | none => simp [known] at here
    | some data => rfl)
  obtain ⟨b', known⟩ := Option.isSome_iff_exists.mp (given (sized ▸ inside))
  have same := holds.same k b' known inside
  rw [here] at same
  rw [known, Option.some.inj same]

theorem Fid.Holds.returns (holds : f.Holds v)
    (supplied : v.Supplied offset.toNat count.toNat) :
    v.Returns offset.toNat
      (((f.xattrdata.getD []).drop offset.toNat).take (xattrCount f offset count).toNat) := by
  intro k b here
  have exact := @xattrCount_toNat f offset count holds.bound
  rw [List.getElem?_take] at here
  split_ifs at here with within
  rw [List.getElem?_drop] at here
  exact holds.supplied (by omega) (supplied _ (by omega) (by omega)) here

/-- The replies that a request for supplied bytes may get. -/
def ReturnsOnly (v : Value) (offset : UInt64) (reply : Option Npfcall) : Prop :=
  ∀ rc, reply = some rc → rc.type = MsgType.rread.code → v.Returns offset.toNat (readBytes rc)

theorem returnsOnly_none : ReturnsOnly v offset none := fun rc none => by cases none

theorem npfsXattrread_returns (backs : Backs s given) (small : count.toNat + 11 < 2 ^ 31)
    (supplied : (given fid).Supplied offset.toNat count.toNat) : Ensures (execOp u)
      (fun rc _ => ReturnsOnly (given fid) offset rc) (npfsXattrread fid offset count) s := by
  refine ensures_withAux (fun _ => returnsOnly_none) fun f found => ?_
  have holds := backs fid f found
  refine ensures_bind.mpr (ensures_create fun heap s' _ => ?_)
  obtain ⟨ret, created, reserved⟩ := @npAllocRread_reserved count heap small
  rw [created]
  rintro _ ⟨⟩ -
  obtain ⟨bytes, bytesEq⟩ : ∃ bytes, ((f.xattrdata.getD []).drop offset.toNat).take
      (xattrCount f offset count).toNat = bytes := ⟨_, rfl⟩
  have length : bytes.length = (xattrCount f offset count).toNat := by
    rw [← bytesEq, List.length_take, List.length_drop]
    rcases holds.inside offset count with zero | inside
    · simp [zero]
    · omega
  have exact := @xattrCount_toNat f offset count holds.bound
  rw [bytesEq, ← length, readBytes_setRread reserved (by omega) le_rfl, List.take_length, ← bytesEq]
  exact holds.returns supplied

/-! ### A whole request -/

theorem npRead_returns (auth : s.srv.auth = none) (backs : Backs s given)
    (entry : s.pool tc.fid = some p) {g : Npfid Fid} (live : s.fids.get p = some g)
    (special : g.type &&& Ftxattr ≠ 0) (small : tc.count.toNat + 11 < 2 ^ 31)
    (supplied : (given p).Supplied tc.offset.toNat tc.count.toNat) :
    Yields u (fun rc _ => ReturnsOnly (given p) tc.offset rc) (npRead tc) s := by
  refine yields_find.mpr ?_
  rw [entry]
  refine yields_incref.mpr (yields_setReqFid.mpr (yields_conn.mpr ?_))
  split
  · exact returnsOnly_none
  refine yields_type.mpr ?_
  have found : Cells.get (s.modify p (.addRef 1)).fids p = some (g.addRef 1) := by
    simp [Session.modify, live]
  have loaded := load_live (s := { s.modify p (.addRef 1) with reqFid := some p }) found (·.type) 0
  rw [loaded]
  dsimp only
  split
  · refine yields_srv.mpr ?_
    have absent : s.srv.auth.isNone = true := by rw [auth]; rfl
    split
    · exact returnsOnly_none
    · rename_i present
      exact absurd absent present
  split
  · have backs : Backs { s.modify p (.addRef 1) with reqFid := some p } given :=
      backs.np (.fidIncref p)
    exact npfsXattrread_returns backs small supplied
  · rename_i plain
    exact absurd special plain

/-- The reply of a handler stays, or is replaced by an error. -/
theorem errorReply_replies (rc : Option Npfcall) : Yields u
    (fun rc' _ => rc' = rc ∨ ∃ fc : Npfcall, rc' = some fc ∧ fc.Failed)
    (errorReply npErrnoToLinux rc) s := by
  refine yields_npRerror.mpr ?_
  cases s.error with
  | none => exact .inl rfl
  | some error =>
      obtain ⟨rerror, created, type⟩ := rerror_type error s.conn.dotu s.world.next.1.heap
      obtain ⟨rlerror, created', type'⟩ :=
        rlerror_type npErrnoToLinux error.ecode s.world.next.1.heap
      refine yields_conn.mpr ?_
      split
      · exact .inr ⟨rlerror, created', .inr type'⟩
      · exact .inr ⟨rerror, created, .inl type⟩

theorem sendReply_replies (rc : Option Npfcall) : Yields u
    (fun reply _ => reply = rc.map fun fc => npSetTag fc tc.tag) (sendReply tc rc) s := by
  cases rc with
  | none => exact rfl
  | some fc =>
      have same : ((npRespond tc fc).run (exec u) s).1 = npSetTag fc tc.tag :=
        (always_npRespond.run (fun _ (_ : State) (_ : True) _ => trivial)
          (fun _ _ _ _ => trivial) trivial).1
      change ((sendReply tc (some fc)).run (exec u) s).1 = _
      rw [sendReply, run_bind, same]
      rfl

theorem readBytes_npSetTag (rc : Npfcall) (tag : UInt16) :
    readBytes (npSetTag rc tag) = readBytes rc := by
  simp only [readBytes, npSetTag]
  rw [List.drop_set_of_lt (by decide), List.drop_set_of_lt (by decide)]

/-- A `Tread` of bytes of an attribute that have been supplied returns them. -/
theorem serve_returns (auth : s.srv.auth = none) (backs : Backs s given)
    (entry : s.pool tc.fid = some p) {g : Npfid Fid} (live : s.fids.get p = some g)
    (special : g.type &&& Ftxattr ≠ 0) (typed : tc.type = MsgType.tread.code)
    (small : tc.count.toNat + 11 < 2 ^ 31)
    (supplied : (given p).Supplied tc.offset.toNat tc.count.toNat) :
    Yields u (fun reply _ => ReturnsOnly (given p) tc.offset reply)
      (serve npErrnoToLinux tc none) s := by
  have handler : npHandle tc = npRead tc := by
    rw [npHandle, npHandler, typed]
    rfl
  rw [serve_eq, handler]
  have cleared : Backs { s with error := none } given := backs
  refine yields_npWerrorNone.mpr ((npRead_returns (s := { s with error := none }) auth cleared entry
    live special small supplied).bind fun rc s₁ returns => ?_)
  refine (errorReply_replies rc).bind fun rc' s₂ replies => ?_
  refine (sendReply_replies _).mono fun reply s₃ same => ?_
  subst same
  intro fc answered type
  rcases replies with rfl | ⟨failure, rfl, failed⟩
  · rw [Option.or_none] at answered
    obtain ⟨fc', rfl, rfl⟩ := Option.map_eq_some_iff.mp answered
    rw [readBytes_npSetTag]
    exact returns fc' rfl type
  · obtain rfl := Option.some.inj answered
    exact absurd type failed.ne_rread

end Reading

/-! ## Committing a value -/

/-- The bytes that are committed are the whole of a value that the client has declared and
written. -/
def Value.Commits (v : Value) (bytes : List UInt8) : Prop :=
  v.created = true ∧ bytes.length = v.size ∧ v.Returns 0 bytes

section Committing

variable {u : Ufssrv} {s : State} {given : Given} {fid : FidPtr} {c : Callback}

/-- If the whole value of a fid has been supplied, an operation sets no attribute to anything
else. -/
def CommitsOnly (v : Value) (op : Op) : Prop :=
  ∀ path name value flags, op = .sys (.lsetxattr path name value flags) →
    v.Supplied 0 v.size → v.Commits value

/-- An attribute is set only to the value of a fid that is clunked, or is one of the mapped id
model. -/
def Sets (mayCommit : Value → Prop) (given : Given) (c : Callback) (op : Op) : Prop :=
  ∀ path name value flags, op = .sys (.lsetxattr path name value flags) →
    (∃ fid, c = .clunk fid ∧ (mayCommit (given fid) → (given fid).Commits value)) ∨
      (∀ fid, c ≠ .clunk fid) ∧ mappedName name.bytes

theorem Fid.Holds.commits {f : Fid} {v : Value} {name : CStr} (holds : f.Holds v)
    (named : f.xattrname = some name) (supplied : v.Supplied 0 v.size) :
    v.Commits ((f.xattrdata.getD []).take f.xattrsz.toNat) := by
  have room := holds.room
  have isNamed : f.xattrname.isSome := by rw [named]; rfl
  have size := holds.size (holds.named isNamed)
  refine ⟨holds.created isNamed, by rw [List.length_take]; omega, fun k b here => ?_⟩
  rw [List.getElem?_take] at here
  split_ifs at here with within
  rw [Nat.zero_add]
  exact holds.supplied within (fun inside => supplied k (Nat.zero_le _) (by omega) inside) here

theorem commitsOnly_of_plain {v : Value} {op : Op} (plain : op.Plain) : CommitsOnly v op := by
  rintro path name value flags rfl
  exact plain.elim

/-- What `npfs_clunk` does. -/
theorem commitsOnly_npfsClunk : (npfsClunk fid).Always (Op.Told u (Known given) Anything)
    (CommitsOnly (given fid)) fun _ => True := by
  have plain {op : Op} (plain : op.Plain) : CommitsOnly (given fid) op := commitsOnly_of_plain plain
  have replies {constructor : Malloc → Option Npfcall} :
      (create constructor).Always (Op.Told u (Known given) Anything) (CommitsOnly (given fid))
        fun _ => True := ⟨plain trivial, fun _ _ => trivial⟩
  have checks {answer : Except Errno Unit} :
      (check answer fun _ => create npCreateRclunk).Always (Op.Told u (Known given) Anything)
        (CommitsOnly (given fid)) fun _ => True := by
    cases answer with
    | error errno => exact ⟨plain trivial, fun _ _ => ⟨plain trivial, fun _ _ => trivial⟩⟩
    | ok done => exact replies
  refine ⟨plain trivial, fun found told => ?_⟩
  cases found with
  | none => exact replies
  | some f =>
  have holds : f.Holds (given fid) := told f rfl
  dsimp only
  cases named : f.xattrname with
  | none => exact replies
  | some xattrname =>
  refine (always_bind _ _).mpr ((always_npfsSetUser fun _ => plain).mono fun _ _ => ?_)
  refine (always_bind _ _).mpr ⟨plain trivial, fun omode _ => always_done.mpr ?_⟩
  split
  · split
    · refine (always_bind _ _).mpr ⟨?_, fun answer _ => checks⟩
      rintro path name value flags ⟨⟩ supplied
      exact holds.commits named supplied
    · refine (always_bind _ _).mpr ⟨?_, fun answer _ => checks⟩
      exact fun path name value flags same => by cases same
  · exact replies

/-- Every call of every function of `libufs` sets only what it may. -/
theorem sets_ufsStart (backs : Backs s given) (c : Callback) :
    ∀ event ∈ (ufsStart c).events (execOp u) s,
      Sets (fun v => v.Supplied 0 v.size) given c event.1 := by
  by_cases clunks : ∃ fid, c = .clunk fid
  · obtain ⟨fid, rfl⟩ := clunks
    have follows : Follows u (Known given) Anything (.clunk fid) (npfsClunk fid) :=
      follows_ufsStart lasting_known (.clunk fid)
    have both := follows.and commitsOnly_npfsClunk
    have other : ¬ Supplies (.clunk fid) := fun supplies => supplies
    have told : ∀ op s', Backs s' given →
        Does u (Known given) Anything (.clunk fid) op ∧ CommitsOnly (given fid) op →
        Op.Told u (Known given) Anything op (execOp u op s').1 :=
      fun op s' backs _ => told_of_backs backs op
    have kept : ∀ op s', Backs s' given →
        Does u (Known given) Anything (.clunk fid) op ∧ CommitsOnly (given fid) op →
        Backs (execOp u op s').2 given := fun op s' backs both => backs.does other both.1
    intro event member path name value flags same
    obtain ⟨-, commits⟩ := (Always.run both told kept backs).2.2 event member
    exact .inl ⟨fid, rfl, commits path name value flags same⟩
  · have loose : Loose u c (ufsStart c) := follows_ufsStart ⟨fun _ _ => trivial⟩ c
    have told : ∀ op (s' : State), True → Does u (fun _ _ => True) (fun _ _ => True) c op →
        Op.Told u (fun _ _ => True) (fun _ _ => True) op (execOp u op s').1 := by
      intro op s' _ _
      cases op with
      | ufs => rfl
      | aux p => exact fun _ _ => trivial
      | _ => trivial
    intro event member path name value flags same
    have does := (Always.run loose told (fun _ _ _ _ => trivial) trivial).2.2 event member
    rw [same] at does
    refine .inr ⟨fun fid same => clunks ⟨fid, same⟩, ?_⟩
    cases does with
    | plain plain => exact plain.elim
    | sys paths bare => exact bare
    | commits callback => exact absurd ⟨_, callback⟩ clunks

end Committing

/-! ## Runs -/

/-- Nothing is returned or committed but what has been supplied, unless it must not be read or
committed; and no access leaves the buffer of a value. -/
structure Honest (mayRead : Value → (offset count : Nat) → Prop) (mayCommit : Value → Prop)
    (u : Ufssrv) (npErrnoToLinux : UInt32 → UInt32) (w : State × Given) : Prop where
  reads : ∀ (tc : Npfcall) p g, w.1.pool tc.fid = some p → w.1.fids.get p = some g →
    g.type &&& Ftxattr ≠ 0 → tc.type = MsgType.tread.code →
    mayRead (w.2 p) tc.offset.toNat tc.count.toNat →
      ReturnsOnly (w.2 p) tc.offset ((serve npErrnoToLinux tc none).run (exec u) w.1.receive).1
  commits : ∀ tc, ∀ event ∈ (serve npErrnoToLinux tc none).events (execGiven u) (w.1.receive, w.2),
    ∀ c, event.1 = .call c → ∀ call ∈ (ufsStart c).events (execOp u) event.2.1,
      Sets mayCommit event.2.2 c call.1
  inside : ∀ p f, auxOf w.1 p = some f → ∀ offset count, xattrCount f offset count = 0 ∨
    offset.toNat + (xattrCount f offset count).toNat ≤ (f.xattrdata.getD []).length

section Runs

variable {u : Ufssrv} {npErrnoToLinux : UInt32 → UInt32} {msize : UInt32} {host : Host}
  {w : State × Given}

theorem ReachedGiven.backs (run : ReachedGiven u npErrnoToLinux msize host w) :
    Backs w.1 w.2 := by
  refine Transition.Reaches.invariant (fun w : State × Given => Backs w.1 w.2) ?_ ?_ run
  · intro p f found
    cases found
  · intro w w' tc backs _ taken
    obtain rfl := Option.some.inj taken
    have received : Backs w.1.receive w.2 := backs
    exact (run_execGiven_backs (serve npErrnoToLinux tc none) received).1

/-- What is returned and what is committed has been supplied, if all bytes that are asked for or
committed have been. -/
theorem ReachedGiven.honest (run : ReachedGiven u npErrnoToLinux msize host w) :
    Honest (fun v offset count => v.Supplied offset count ∧ count + 11 < 2 ^ 31)
      (fun v => v.Supplied 0 v.size) u npErrnoToLinux w where
  reads tc p g entry live special typed supplied :=
    serve_returns (State.Reached.sound (ReachedGiven.reached run)).auth (ReachedGiven.backs run)
      entry live special typed supplied.2 supplied.1
  commits tc event member c same := by
    have received : Backs w.1.receive w.2 := ReachedGiven.backs run
    have backs := (run_execGiven_backs (serve npErrnoToLinux tc none) received).2 event member
    exact sets_ufsStart backs c
  inside p f found := (ReachedGiven.backs run p f found).inside

/-- A request for the first two bytes of a fid. -/
def reading : Npfcall :=
  { (default : Npfcall) with type := MsgType.tread.code, fid := 1, count := 2 }

/-- A request to write two bytes. -/
def writing : Npfcall :=
  { (default : Npfcall) with
    type := MsgType.twrite.code, fid := 1, count := 2, pkt := [7, 9], data := some 0 }

/-- A request leads to a state and an account. -/
def afterGiven (w : State × Given) (tc : Npfcall) : State × Given :=
  ((serve id tc none).run (execGiven .single) (w.1.receive, w.2)).2

/-- The client has attached and declares a value of two bytes. -/
def declaredTwo : State × Given :=
  afterGiven (afterGiven (.start 8192 hostSingle, fun _ => .blank 0) attaching) (describing 2)

theorem reached_declaredTwo : ReachedGiven .single id 8192 hostSingle declaredTwo :=
  .step (.step .start trivial rfl) trivial rfl

theorem reached_honest_two :
    ReturnsOnly ((afterGiven declaredTwo writing).2 0) 0
      ((serve id reading none).run (exec .single) (afterGiven declaredTwo writing).1.receive).1 := by
  have run : ReachedGiven .single id 8192 hostSingle (afterGiven declaredTwo writing) :=
    .step reached_declaredTwo trivial rfl
  refine (ReachedGiven.honest run).reads reading 0 _ rfl rfl (by decide) rfl ⟨?_, by decide⟩
  intro k _ below _
  have below : k < 0 + 2 := below
  interval_cases k <;> rfl

/-- A client can read what the heap held before. -/
theorem not_honest : ¬ ∀ (u : Ufssrv) (npErrnoToLinux : UInt32 → UInt32) (msize : UInt32)
    (host : Host) (w : State × Given), ReachedGiven u npErrnoToLinux msize host w →
    Honest (fun _ _ _ => True) (fun _ => True) u npErrnoToLinux w := by
  intro always
  have returned := (always _ _ _ _ _ reached_declaredTwo).reads reading 0 _ rfl rfl (by decide) rfl
    trivial _ rfl rfl 0 0 rfl
  cases returned

end Runs

end Ufs

end Npfs
