import Npfs.Fid
import Npfs.Windows

/-!
# The messages of p9sk1

The ticket request, the tickets and the authenticators of `libnpauth/msgs.c`, with their encryption,
and the string functions of `libnpauth/help.c`. DES itself is a parameter.
-/

namespace Npfs.P9sk1

/-! ## Failure -/

/-- Why a function does not return a result. -/
inductive Trouble where
  /-- It returns `-1`, perhaps after a call of `np_werror`. -/
  | failed (error : Option Nperror)
  /-- Its behaviour is undefined. -/
  | undefined

/-- What a function returns. -/
abbrev Attempt : Type → Type := Except Trouble

/-- `EINVAL`. -/
def EINVAL : UInt32 := 22

/-- `EPROTONOSUPPORT`. -/
def EPROTONOSUPPORT : UInt32 := 93

/-- `err`. -/
def err {α : Type} (msg : CStr) (no : UInt32) : Attempt α := .error (.failed (some (.of msg no)))

/-- `return -1`. -/
def minusOne {α : Type} : Attempt α := .error (.failed none)

/-- A result of `-1` makes the caller return `err(msg, no)`. -/
def orErr {α : Type} (attempt : Attempt α) (msg : CStr) (no : UInt32) : Attempt α :=
  match attempt with
  | .error (.failed _) => err msg no
  | attempt => attempt

@[simp] theorem orErr_ok {α : Type} (result : α) (msg : CStr) (no : UInt32) :
    orErr (.ok result) msg no = .ok result := rfl

/-! ## Encryption -/

/-- A block of DES, such as a challenge. -/
abbrev Block : Type := List.Vector UInt8 8

/-- A key of 7 bytes. -/
abbrev Key : Type := List.Vector UInt8 7

/-- What is used of the DES library. -/
structure Des where
  Schedule : Type
  /-- `DES_set_odd_parity`. -/
  setOddParity : Block → Block
  /-- `DES_set_key_checked`: the key schedule, or nothing when the key is refused. -/
  setKeyChecked : Block → Option Schedule
  /-- `DES_ecb_encrypt`, which permutes the blocks. -/
  ecbEncrypt : Schedule → Equiv.Perm Block

/-- The 8 bytes that `setKey` makes of a key. -/
def expandKey (key : Key) : Block :=
  ⟨[key.get 0,
    (key.get 0 <<< 7) ||| (key.get 1 >>> 1),
    (key.get 1 <<< 6) ||| (key.get 2 >>> 2),
    (key.get 2 <<< 5) ||| (key.get 3 >>> 3),
    (key.get 3 <<< 4) ||| (key.get 4 >>> 4),
    (key.get 4 <<< 3) ||| (key.get 5 >>> 5),
    (key.get 5 <<< 2) ||| (key.get 6 >>> 6),
    key.get 6 <<< 1], rfl⟩

/-- `setKey`.  It ignores that a key is refused, and the schedule is then never written. -/
def setKey (des : Des) (key : Key) : Attempt des.Schedule :=
  match des.setKeyChecked (des.setOddParity (expandKey key)) with
  | some sched => .ok sched
  | none => .error .undefined

/-- The offsets at which `_encrypt` encrypts a block: every 7 bytes, and at the end. -/
def offsets (n : Nat) : List Nat :=
  (List.range ((n - 1) / 7)).map (7 * ·) ++
    if (n - 1) % 7 = 0 then [] else [(n - 1) / 7 * 7 - 7 + (n - 1) % 7]

/-- `_encrypt`. -/
def encrypt (des : Des) (buf : List UInt8) (n : Nat) (key : Key) : Attempt (List UInt8) :=
  if n < 8 then minusOne
  else do
    let sched ← setKey des key
    return Windows.forward (des.ecbEncrypt sched) (offsets n) buf

/-- `_decrypt`. -/
def decrypt (des : Des) (buf : List UInt8) (n : Nat) (key : Key) : Attempt (List UInt8) :=
  if n < 8 then minusOne
  else do
    let sched ← setKey des key
    return Windows.backward (des.ecbEncrypt sched) (offsets n) buf

/-! ## Fields -/

theorem zero_not_mem_takeWhile (buf : List UInt8) : 0 ∉ buf.takeWhile (· ≠ 0) := by
  intro member
  simpa using List.all_eq_true.mp List.all_takeWhile 0 member

/-- The string in a buffer. -/
def CStr.at (buf : List UInt8) : CStr :=
  ⟨buf.takeWhile (· ≠ 0), zero_not_mem_takeWhile buf⟩

/-- `enc4`. -/
def enc4 (x : Int32) : List UInt8 :=
  [(x >>> 24).toInt8.toUInt8, (x >>> 16).toInt8.toUInt8, (x >>> 8).toInt8.toUInt8,
    x.toInt8.toUInt8]

/-- `dec4`.  A `char` is signed. -/
def dec4 (buf : List UInt8) : Int32 :=
  let p (i : Nat) : Int32 := (buf.getD i 0).toInt8.toInt32
  (p 0 <<< 24) ||| (p 1 <<< 16) ||| (p 2 <<< 8) ||| p 3

/-- `decFixed` of a field of `n` bytes. -/
def decFixed (n : Nat) (buf : List UInt8) : Attempt (List.Vector UInt8 n × List UInt8) :=
  if within : n ≤ buf.length then .ok (⟨buf.take n, by simpa⟩, buf.drop n)
  else .error .undefined

/-- `decPad`, which reads up to a terminator, or the `sz + 1` bytes from the start of the field. -/
def decPad (sz : Nat) (buf : List UInt8) : Attempt (CStr × List UInt8) :=
  if buf.length ≤ sz ∧ 0 ∉ buf then .error .undefined
  else if sz < (CStr.at buf).strlen then minusOne
  else .ok (CStr.at buf, buf.drop sz)

/-- A string in a field of `sz` bytes. -/
def padded (sz : Nat) (r : CStr) : List UInt8 := r.bytes ++ List.replicate (sz - r.strlen) 0

/-- `encPad`. -/
def encPad (sz : Nat) (r : CStr) : Attempt (List UInt8) :=
  if sz ≤ r.strlen then minusOne else .ok (padded sz r)

/-- `*buf++`. -/
def decType : List UInt8 → Attempt (UInt8 × List UInt8)
  | [] => .error .undefined
  | type :: buf => .ok (type, buf)

/-! ## Messages -/

/-- `AuthTreq`. -/
def AuthTreq : UInt8 := 1

/-- `AuthOK`. -/
def AuthOK : UInt8 := 4

/-- `AuthTs`. -/
def AuthTs : UInt8 := 64

/-- `AuthTc`. -/
def AuthTc : UInt8 := 65

/-- `AuthAs`. -/
def AuthAs : UInt8 := 66

/-- `AuthAc`. -/
def AuthAc : UInt8 := 67

/-- `struct ticketreq`. -/
structure Ticketreq where
  type : UInt8
  ids : CStr
  dom : CStr
  ch : Block
  idc : CStr
  idr : CStr

/-- `struct ticket`. -/
structure Ticket where
  type : UInt8
  ch : Block
  idc : CStr
  idr : CStr
  key : Key

/-- `struct auth`. -/
structure Auth where
  type : UInt8
  ch : Block
  gen : Int32

/-- `decTicketReq`. -/
def decTicketReq (buf : List UInt8) : Attempt Ticketreq := do
  let (type, buf) ← decType buf
  let (ids, buf) ← decPad 28 buf
  let (dom, buf) ← decPad 48 buf
  let (ch, buf) ← decFixed 8 buf
  let (idc, buf) ← decPad 28 buf
  let (idr, _) ← decPad 28 buf
  return { type, ids, dom, ch, idc, idr }

/-- `encTicketReq`. -/
def encTicketReq (r : Ticketreq) : Attempt (List UInt8) := do
  let ids ← encPad 28 r.ids
  let dom ← encPad 48 r.dom
  let idc ← encPad 28 r.idc
  let idr ← encPad 28 r.idr
  return r.type :: (ids ++ (dom ++ (r.ch.toList ++ (idc ++ idr))))

/-- `decTicket`. -/
def decTicket (des : Des) (buf : List UInt8) (key : Key) : Attempt Ticket := do
  let buf ← decrypt des buf 72 key
  let (type, buf) ← decType buf
  let (ch, buf) ← decFixed 8 buf
  let (idc, buf) ← decPad 28 buf
  let (idr, buf) ← decPad 28 buf
  let (key, _) ← decFixed 7 buf
  return { type, ch, idc, idr, key }

/-- `encTicket`. -/
def encTicket (des : Des) (r : Ticket) (key : Key) : Attempt (List UInt8) := do
  let idc ← encPad 28 r.idc
  let idr ← encPad 28 r.idr
  encrypt des (r.type :: (r.ch.toList ++ (idc ++ (idr ++ r.key.toList)))) 72 key

/-- `decAuth`. -/
def decAuth (des : Des) (buf : List UInt8) (key : Key) : Attempt Auth := do
  let buf ← decrypt des buf 13 key
  let (type, buf) ← decType buf
  let (ch, buf) ← decFixed 8 buf
  return { type, ch, gen := dec4 buf }

/-- `encAuth`. -/
def encAuth (des : Des) (r : Auth) (key : Key) : Attempt (List UInt8) :=
  encrypt des (r.type :: (r.ch.toList ++ enc4 r.gen)) 13 key

/-! ## What is encoded is decoded -/

section Decoding

variable {des : Des} {key : Key} {rest : List UInt8}

/-- The library takes the key. -/
def Des.Accepts (des : Des) (key : Key) : Prop :=
  (des.setKeyChecked (des.setOddParity (expandKey key))).isSome

theorem setKey_accepted (accepts : des.Accepts key) : ∃ sched, setKey des key = .ok sched := by
  obtain ⟨sched, taken⟩ := Option.isSome_iff_exists.mp accepts
  exact ⟨sched, by rw [setKey, taken]⟩

theorem setKey_refused (refuses : ¬ des.Accepts key) : setKey des key = .error .undefined := by
  rw [setKey, Option.not_isSome_iff_eq_none.mp refuses]

/-- Encrypted bytes are as many as before, and are decrypted to what they were. -/
theorem encrypt_accepted (accepts : des.Accepts key) (buf : List UInt8) {n : Nat} (long : 8 ≤ n) :
    ∃ sealed, encrypt des buf n key = .ok sealed ∧ sealed.length = buf.length ∧
      decrypt des sealed n key = .ok buf := by
  obtain ⟨sched, taken⟩ := setKey_accepted accepts
  have enough : ¬ n < 8 := by omega
  refine ⟨Windows.forward (des.ecbEncrypt sched) (offsets n) buf, ?_, by simp, ?_⟩
  · rw [encrypt, if_neg enough, taken]
    rfl
  · rw [decrypt, if_neg enough, taken]
    exact congrArg Except.ok (Windows.backward_forward _ _ _)

theorem encrypt_refused (refuses : ¬ des.Accepts key) {buf : List UInt8} {n : Nat} (long : 8 ≤ n) :
    encrypt des buf n key = .error .undefined := by
  rw [encrypt, if_neg (by omega), setKey_refused refuses]
  rfl

@[simp] theorem decType_cons (type : UInt8) : decType (type :: rest) = .ok (type, rest) := rfl

@[simp] theorem decFixed_append {n : Nat} (field : List.Vector UInt8 n) :
    decFixed n (field.toList ++ rest) = .ok (field, rest) := by
  have length : field.toList.length = n := field.2
  rw [decFixed, dif_pos (by simp)]
  congr 2
  · exact Subtype.ext (List.take_left' length)
  · exact List.drop_left' length

/-- A string in front of its terminator. -/
theorem CStr.at_append (s : CStr) {tail : List UInt8} (ends : tail.head? = some 0) :
    CStr.at (s.bytes ++ tail) = s := by
  obtain ⟨bytes, noNul⟩ := s
  obtain ⟨tail, rfl⟩ : ∃ tail', tail = 0 :: tail' := by
    cases tail with
    | nil => simp at ends
    | cons b tail => exact ⟨tail, by simpa using ends⟩
  have stays : ∀ b ∈ bytes, decide (b ≠ 0) = true := fun b member =>
    decide_eq_true fun zero => noNul (zero ▸ member)
  simp only [CStr.at, CStr.mk.injEq]
  rw [List.takeWhile_append_of_pos stays]
  simp

theorem length_padded {sz : Nat} {r : CStr} (short : r.strlen < sz) :
    (padded sz r).length = sz := by
  have shorter : r.bytes.length < sz := short
  rw [padded, List.length_append, List.length_replicate, CStr.strlen]
  omega

theorem encPad_short {sz : Nat} {r : CStr} (short : r.strlen < sz) :
    encPad sz r = .ok (padded sz r) := if_neg (by omega)

theorem decPad_append {sz : Nat} {r : CStr} (short : r.strlen < sz) :
    decPad sz (padded sz r ++ rest) = .ok (r, rest) := by
  have ends : (List.replicate (sz - r.strlen) (0 : UInt8) ++ rest).head? = some 0 := by
    obtain ⟨k, more⟩ : ∃ k, sz - r.strlen = k + 1 := ⟨sz - r.strlen - 1, by omega⟩
    rw [more]
    rfl
  have found : CStr.at (padded sz r ++ rest) = r := by
    rw [padded, List.append_assoc, CStr.at_append r ends]
  have ended : (0 : UInt8) ∈ padded sz r ++ rest := by
    refine List.mem_append_left _ (List.mem_append_right _ ?_)
    exact List.mem_replicate.mpr ⟨by omega, rfl⟩
  rw [decPad, if_neg fun both => both.2 ended, found, if_neg (by omega),
    List.drop_left' (length_padded short)]

theorem decPad_padded {sz : Nat} {r : CStr} (short : r.strlen < sz) :
    decPad sz (padded sz r) = .ok (r, []) := by
  have whole : decPad sz (padded sz r ++ []) = .ok (r, []) := decPad_append short
  rwa [List.append_nil] at whole

theorem decFixed_toList {n : Nat} (field : List.Vector UInt8 n) :
    decFixed n field.toList = .ok (field, []) := by
  have whole : decFixed n (field.toList ++ []) = .ok (field, []) := decFixed_append field
  rwa [List.append_nil] at whole

/-- The strings of a ticket request fit into their fields. -/
structure Ticketreq.Fits (r : Ticketreq) : Prop where
  ids : r.ids.strlen < 28
  dom : r.dom.strlen < 48
  idc : r.idc.strlen < 28
  idr : r.idr.strlen < 28

theorem encTicketReq_fits {r : Ticketreq} (fits : r.Fits) :
    ∃ buf, encTicketReq r = .ok buf ∧ buf.length = 141 ∧ decTicketReq buf = .ok r := by
  obtain ⟨ids, dom, idc, idr⟩ := fits
  refine ⟨_, by simp only [encTicketReq, encPad_short ids, encPad_short dom, encPad_short idc,
    encPad_short idr]; rfl, ?_, ?_⟩
  · simp [length_padded ids, length_padded dom, length_padded idc, length_padded idr]
  · simp [decTicketReq, decPad_append ids, decPad_append dom, decPad_append idc, decPad_padded idr,
      bind, Except.bind, pure, Except.pure]

theorem encTicket_fits {r : Ticket} (accepts : des.Accepts key) (idc : r.idc.strlen < 28)
    (idr : r.idr.strlen < 28) :
    ∃ buf, encTicket des r key = .ok buf ∧ buf.length = 72 ∧ decTicket des buf key = .ok r := by
  obtain ⟨buf, sealed, length, opened⟩ := encrypt_accepted accepts (n := 72)
    (r.type :: (r.ch.toList ++ (padded 28 r.idc ++ (padded 28 r.idr ++ r.key.toList)))) (by omega)
  refine ⟨buf, ?_, ?_, ?_⟩
  · simp only [encTicket, encPad_short idc, encPad_short idr]
    exact sealed
  · rw [length]
    simp [length_padded idc, length_padded idr]
  · simp [decTicket, opened, decPad_append idc, decPad_append idr, decFixed_toList, bind,
      Except.bind, pure, Except.pure]

theorem encTicket_refused {r : Ticket} (refuses : ¬ des.Accepts key) (idc : r.idc.strlen < 28)
    (idr : r.idr.strlen < 28) : encTicket des r key = .error .undefined := by
  simp only [encTicket, encPad_short idc, encPad_short idr]
  exact encrypt_refused (n := 72) refuses (by omega)

theorem encAuth_accepted {r : Auth} (accepts : des.Accepts key) :
    ∃ buf, encAuth des r key = .ok buf ∧ buf.length = 13 ∧
      decAuth des buf key = .ok { r with gen := dec4 (enc4 r.gen) } := by
  obtain ⟨buf, sealed, length, opened⟩ := encrypt_accepted accepts (n := 13)
    (r.type :: (r.ch.toList ++ enc4 r.gen)) (by omega)
  refine ⟨buf, sealed, ?_, ?_⟩
  · rw [length]
    simp [enc4]
  · simp [decAuth, opened, bind, Except.bind, pure, Except.pure]

/-- A byte that is decoded to zero has no bit set. -/
theorem getLsbD_of_byte_eq_zero {y : BitVec 32} {k j : Nat} (position : k ≤ 24) (inside : j < 8)
    (zero : BitVec.signExtend 32 (BitVec.signExtend 8 y) <<< k = 0#32) : y.getLsbD j = false := by
  have bit := congrArg (·.getLsbD (k + j)) zero
  simp only [BitVec.getLsbD_shiftLeft, BitVec.getLsbD_signExtend, BitVec.getLsbD_zero] at bit
  simpa [inside, show k + j < 32 by omega, show j < 32 by omega] using bit

/-- The counts of which every byte is zero. -/
theorem dec4_enc4_eq_zero {x : Int32} : dec4 (enc4 x) = 0 ↔ x = 0 := by
  constructor
  · intro zero
    have bits := congrArg Int32.toBitVec zero
    simp only [dec4, enc4] at bits
    simp at bits
    obtain ⟨⟨⟨high, upper⟩, lower⟩, low⟩ := bits
    apply Int32.toBitVec_inj.mp
    apply BitVec.eq_of_getLsbD_eq
    intro i inside
    have byte (k : Nat) (position : k ≤ 24) (within : k ≤ i ∧ i < k + 8)
        (zero : BitVec.signExtend 32 (BitVec.signExtend 8 (x.toBitVec.sshiftRight k)) <<< k =
          0#32) : x.toBitVec.getLsbD i = false := by
      have bit := getLsbD_of_byte_eq_zero position (j := i - k) (by omega) zero
      rw [BitVec.getLsbD_sshiftRight] at bit
      have same : k + (i - k) = i := by omega
      simpa [same, inside, show ¬ 32 ≤ i - k by omega] using bit
    have cleared : x.toBitVec.getLsbD i = false := by
      obtain first | second | third | fourth :
          24 ≤ i ∨ (16 ≤ i ∧ i < 24) ∨ (8 ≤ i ∧ i < 16) ∨ i < 8 := by omega
      · exact byte 24 (by omega) (by omega) high
      · exact byte 16 (by omega) (by omega) upper
      · exact byte 8 (by omega) (by omega) lower
      · exact getLsbD_of_byte_eq_zero (k := 0) (by omega) fourth (by simpa using low)
    rw [cleared]
    simp
  · rintro rfl
    rfl

end Decoding

end Npfs.P9sk1
