import Npfs.AuthMessages

/-!
# What the codecs of p9sk1 undo

The calls of `_encrypt` and `_decrypt` one by one, the round trips of the messages, and what
`decPad` makes of bytes that no encoder has written.
-/

namespace Npfs.P9sk1

/-! ## Chained blocks -/

/-- A keyed family of permutations in the place of DES. -/
def Des.ofFamily (setOddParity : Block → Block) (family : Block → Equiv.Perm Block) : Des where
  Schedule := Block
  setOddParity
  setKeyChecked := some
  ecbEncrypt := family

section Blocks

variable {n : ℕ} {buf : List UInt8}

/-- Decrypted bytes are encrypted to what they were. -/
theorem decrypt_accepted {des : Des} {key : Key} (accepts : des.Accepts key) (buf : List UInt8)
    {n : ℕ} (long : 8 ≤ n) :
    ∃ opened, decrypt des buf n key = .ok opened ∧ opened.length = buf.length ∧
      encrypt des opened n key = .ok buf := by
  obtain ⟨sched, taken⟩ := setKey_accepted accepts
  have enough : ¬ n < 8 := by omega
  refine ⟨Windows.backward (des.ecbEncrypt sched) (offsets n) buf, ?_, ?_, ?_⟩
  · rw [decrypt, if_neg enough, taken]
    rfl
  · rw [Windows.backward_eq_forward, Windows.length_forward]
  · rw [encrypt, if_neg enough, taken]
    exact congrArg Except.ok (Windows.forward_backward _ _ _)

end Blocks

/-! ## What is decoded of what was encoded -/

/-- No byte of the number that a `char` makes negative has a bit above it that is clear. -/
def Survives (gen : Int32) : Prop :=
  ∀ k ∈ [0, 8, 16], gen.toBitVec.getLsbD (k + 7) = true →
    ∀ i, k + 8 ≤ i → i < 32 → gen.toBitVec.getLsbD i = true

/-- The strings of a ticket fit into their fields. -/
structure Ticket.Fits (r : Ticket) : Prop where
  idc : r.idc.strlen < 28
  idr : r.idr.strlen < 28

section Generations

variable {x : Int32} {y : BitVec 32}

/-- The bits of a byte that is decoded through a `char`. -/
theorem getLsbD_byte {k i : ℕ} (position : k ≤ 24) (inside : i < 32) :
    (BitVec.signExtend 32 (BitVec.signExtend 8 (y.sshiftRight k)) <<< k).getLsbD i =
      (decide (k ≤ i) && if i < k + 8 then y.getLsbD i else y.getLsbD (k + 7)) := by
  have top : BitVec.getLsbD (BitVec.signExtend 8 (y.sshiftRight k)) 7 = y.getLsbD (k + 7) := by
    rw [BitVec.getLsbD_signExtend, BitVec.getLsbD_sshiftRight]
    simp [show k + 7 < 32 by omega]
  rw [BitVec.getLsbD_shiftLeft, BitVec.getLsbD_signExtend]
  rcases lt_or_ge i k with before | from_
  · simp [before, not_le.mpr before]
  have shifted : i - k < 32 := by omega
  simp only [inside, shifted, not_lt.mpr from_, from_, decide_true, decide_false, Bool.not_false,
    Bool.true_and]
  by_cases within : i < k + 8
  · rw [if_pos (by omega : i - k < 8), if_pos within, BitVec.getLsbD_signExtend,
      BitVec.getLsbD_sshiftRight]
    simp [show k + (i - k) = i by omega, inside, show i - k < 8 by omega, show i - k < 32 by omega]
  · rw [if_neg (by omega : ¬ i - k < 8), if_neg within, BitVec.msb_eq_getLsbD_last]
    exact top

theorem getLsbD_dec4 {i : ℕ} (inside : i < 32) :
    (dec4 (enc4 x)).toBitVec.getLsbD i = true ↔
      x.toBitVec.getLsbD i = true ∨
        ∃ k ∈ [0, 8, 16], k + 8 ≤ i ∧ x.toBitVec.getLsbD (k + 7) = true := by
  have whole : (dec4 (enc4 x)).toBitVec.getLsbD i =
      ((((x.toBitVec.sshiftRight 24).signExtend 8).signExtend 32 <<< 24).getLsbD i ||
        (((x.toBitVec.sshiftRight 16).signExtend 8).signExtend 32 <<< 16).getLsbD i ||
        (((x.toBitVec.sshiftRight 8).signExtend 8).signExtend 32 <<< 8).getLsbD i ||
        (((x.toBitVec.sshiftRight 0).signExtend 8).signExtend 32 <<< 0).getLsbD i) := by
    simp [dec4, enc4]
  rw [whole, getLsbD_byte (by omega) inside, getLsbD_byte (by omega) inside,
    getLsbD_byte (by omega) inside, getLsbD_byte (by omega) inside]
  simp only [Bool.or_eq_true, Bool.and_eq_true, decide_eq_true_eq, List.mem_cons,
    List.not_mem_nil, or_false, exists_eq_or_imp, exists_eq_left]
  obtain low | second | third | high : i < 8 ∨ (8 ≤ i ∧ i < 16) ∨ (16 ≤ i ∧ i < 24) ∨ 24 ≤ i := by
    omega
  · simp [low, show ¬ 24 ≤ i by omega, show ¬ 16 ≤ i by omega, show ¬ 8 ≤ i by omega]
  · simp [second, show ¬ 24 ≤ i by omega, show ¬ 16 ≤ i by omega, show ¬ i < 8 by omega]
  · simp [third, show ¬ 24 ≤ i by omega, show ¬ i < 16 by omega, show ¬ i < 8 by omega,
      show 8 ≤ i by omega, or_comm, or_left_comm]
  · simp [high, inside, show ¬ i < 24 by omega, show ¬ i < 16 by omega, show ¬ i < 8 by omega,
      show 8 ≤ i by omega, show 16 ≤ i by omega, or_comm, or_left_comm]

/-- A number comes back if no byte of it spills into the ones above. -/
theorem dec4_enc4_iff : dec4 (enc4 x) = x ↔ Survives x := by
  constructor
  · intro same k member sign i above inside
    have bit := (@getLsbD_dec4 x i inside).mpr (.inr ⟨k, member, above, sign⟩)
    rwa [same] at bit
  · intro survives
    refine Int32.toBitVec_inj.mp (BitVec.eq_of_getLsbD_eq fun i inside => ?_)
    rw [Bool.eq_iff_iff, getLsbD_dec4 inside]
    constructor
    · rintro (bit | ⟨k, member, above, sign⟩)
      · exact bit
      · exact survives k member sign i above inside
    · exact .inl

end Generations

section Codecs

variable {des : Des} {key : Key}

theorem encPad_long {sz : ℕ} {r : CStr} (long : ¬ r.strlen < sz) : encPad sz r = minusOne :=
  if_pos (not_lt.mp long)

theorem encTicketReq_long {r : Ticketreq} (long : ¬ r.Fits) : encTicketReq r = minusOne := by
  rw [encTicketReq]
  by_cases ids : r.ids.strlen < 28
  · rw [encPad_short ids]
    by_cases dom : r.dom.strlen < 48
    · rw [encPad_short dom]
      by_cases idc : r.idc.strlen < 28
      · rw [encPad_short idc]
        by_cases idr : r.idr.strlen < 28
        · exact absurd ⟨ids, dom, idc, idr⟩ long
        · rw [encPad_long idr]
          rfl
      · rw [encPad_long idc]
        rfl
    · rw [encPad_long dom]
      rfl
  · rw [encPad_long ids]
    rfl

theorem encTicket_long {r : Ticket} (long : ¬ r.Fits) : encTicket des r key = minusOne := by
  rw [encTicket]
  by_cases idc : r.idc.strlen < 28
  · rw [encPad_short idc]
    by_cases idr : r.idr.strlen < 28
    · exact absurd ⟨idc, idr⟩ long
    · rw [encPad_long idr]
      rfl
  · rw [encPad_long idc]
    rfl

theorem encTicketReq_round (r : Ticketreq) :
    (r.Fits → ∃ buf, encTicketReq r = .ok buf ∧ decTicketReq buf = .ok r) ∧
      (¬ r.Fits → encTicketReq r = minusOne) := by
  refine ⟨fun fits => ?_, encTicketReq_long⟩
  obtain ⟨buf, encoded, -, decoded⟩ := encTicketReq_fits fits
  exact ⟨buf, encoded, decoded⟩

theorem encTicket_round (accepts : des.Accepts key) (r : Ticket) :
    (r.Fits → ∃ buf, encTicket des r key = .ok buf ∧ decTicket des buf key = .ok r) ∧
      (¬ r.Fits → encTicket des r key = minusOne) := by
  refine ⟨fun fits => ?_, encTicket_long⟩
  obtain ⟨buf, encoded, -, decoded⟩ := encTicket_fits accepts fits.idc fits.idr
  exact ⟨buf, encoded, decoded⟩

theorem encAuth_round (accepts : des.Accepts key) (r : Auth) :
    ∃ buf, encAuth des r key = .ok buf ∧ (decAuth des buf key = .ok r ↔ Survives r.gen) := by
  obtain ⟨buf, encoded, -, decoded⟩ := @encAuth_accepted des key r accepts
  refine ⟨buf, encoded, ?_⟩
  rw [decoded, ← dec4_enc4_iff]
  constructor
  · intro same
    exact congrArg Auth.gen (Except.ok.inj same)
  · intro same
    rw [same]

end Codecs

/-- Ticket requests and tickets come back as they were, unless a string of them is refused, and an
authenticator comes back exactly when its number does. -/
theorem codecs_iff (setOddParity : Block → Block) (family : Block → Equiv.Perm Block) (key : Key) :
    (∀ r : Ticketreq,
      (r.Fits → ∃ buf, encTicketReq r = .ok buf ∧ decTicketReq buf = .ok r) ∧
        (¬ r.Fits → encTicketReq r = minusOne)) ∧
    (∀ r : Ticket,
      (r.Fits → ∃ buf, encTicket (.ofFamily setOddParity family) r key = .ok buf ∧
        decTicket (.ofFamily setOddParity family) buf key = .ok r) ∧
        (¬ r.Fits → encTicket (.ofFamily setOddParity family) r key = minusOne)) ∧
    ∀ r : Auth, ∃ buf, encAuth (.ofFamily setOddParity family) r key = .ok buf ∧
      (decAuth (.ofFamily setOddParity family) buf key = .ok r ↔ Survives r.gen) :=
  ⟨encTicketReq_round, encTicket_round rfl, encAuth_round rfl⟩

/-- The number 128 comes back as `-128`. -/
theorem not_codecs_all : ¬ ∀ (setOddParity : Block → Block) (family : Block → Equiv.Perm Block)
    (key : Key) (r : Auth), ∃ buf, encAuth (.ofFamily setOddParity family) r key = .ok buf ∧
      decAuth (.ofFamily setOddParity family) buf key = .ok r := by
  intro all
  obtain ⟨buf, encoded, decoded⟩ := all id (fun _ => Equiv.refl Block)
    (List.Vector.replicate 7 0) ⟨AuthAc, List.Vector.replicate 8 0, 128⟩
  obtain ⟨buf', encoded', iff_survives⟩ := @encAuth_round
    (.ofFamily id fun _ => Equiv.refl Block) (List.Vector.replicate 7 0) rfl
    ⟨AuthAc, List.Vector.replicate 8 0, 128⟩
  obtain rfl := Except.ok.inj (encoded.symm.trans encoded')
  have spills := iff_survives.mp decoded 0 (by simp) (by decide) 8 (by decide) (by decide)
  exact absurd spills (by decide)

/-! ## Fields that no encoder has filled -/

/-- The bytes of a field. -/
def fieldAt (pos len : ℕ) (buf : List UInt8) : List UInt8 := (buf.drop pos).take len

/-- There is a terminator in the field. -/
def Terminated (buf : List UInt8) (field : ℕ × ℕ) : Prop := 0 ∈ fieldAt field.1 field.2 buf

/-- The byte behind the field is one, and not a terminator. -/
def Bounded (buf : List UInt8) (field : ℕ × ℕ) : Prop :=
  ∃ b, buf[field.1 + field.2]? = some b ∧ b ≠ 0

/-- The padded fields of a ticket request. -/
def ticketreqFields : List (ℕ × ℕ) := [(1, 28), (29, 48), (85, 28), (113, 28)]

/-- The padded fields of a ticket. -/
def ticketFields : List (ℕ × ℕ) := [(9, 28), (37, 28)]

/-- The message is decoded exactly when each padded field has its own terminator, and no byte behind
the message is read. -/
def Decodes {α : Type} (buf : List UInt8) (fields : List (ℕ × ℕ)) (strings : α → List CStr)
    (attempt : Attempt α) : Prop :=
  match attempt with
  | .ok r => (∀ field ∈ fields, Terminated buf field) ∧
      strings r = fields.map fun field => CStr.at (fieldAt field.1 field.2 buf)
  | .error (.failed _) => ¬ ∀ field ∈ fields, Terminated buf field
  | .error .undefined => False

/-- Every padded field has a terminator, or a field without one is followed by a byte that is
none. -/
def Guarded (buf : List UInt8) (fields : List (ℕ × ℕ)) : Prop :=
  (∀ field ∈ fields, Terminated buf field) ∨
    ∃ field ∈ fields, ¬ Terminated buf field ∧ Bounded buf field

section Padded

variable {buf : List UInt8} {pos len : ℕ}

/-- The string of a field that has a terminator does not depend on what follows. -/
theorem at_append_of_mem {field : List UInt8} (ended : 0 ∈ field) (rest : List UInt8) :
    CStr.at (field ++ rest) = CStr.at field ∧ (CStr.at field).strlen < field.length := by
  obtain ⟨front, tail, rfl, noNul⟩ := List.eq_append_cons_of_mem ended
  have before : ∀ b ∈ front, decide (b ≠ 0) = true := fun b member =>
    decide_eq_true fun zero => noNul (zero ▸ member)
  have string (more : List UInt8) : (front ++ 0 :: more).takeWhile (· ≠ 0) = front := by
    rw [List.takeWhile_append_of_pos before]
    simp
  have whole : (front ++ 0 :: tail) ++ rest = front ++ 0 :: (tail ++ rest) := by simp
  constructor
  · simp only [CStr.at, CStr.mk.injEq]
    rw [whole, string, string]
  · simp only [CStr.at, CStr.strlen, string, List.length_append, List.length_cons]
    omega

/-- The string of a field without a terminator goes on behind it. -/
theorem strlen_at_append {field : List UInt8} (open_ : 0 ∉ field) (rest : List UInt8) :
    (CStr.at (field ++ rest)).strlen = field.length + (CStr.at rest).strlen := by
  have before : ∀ b ∈ field, decide (b ≠ 0) = true := fun b member =>
    decide_eq_true fun zero => open_ (zero ▸ member)
  simp only [CStr.at, CStr.strlen]
  rw [List.takeWhile_append_of_pos before, List.length_append]

/-- A field is decoded if a terminator is in it or right behind it. -/
theorem decPad_cases (long : pos + len ≤ buf.length) :
    Terminated buf (pos, len) ∧
        decPad len (buf.drop pos) = .ok (CStr.at (fieldAt pos len buf), buf.drop (pos + len)) ∨
      ¬ Terminated buf (pos, len) ∧ (
        buf[pos + len]? = some 0 ∧
            (∃ s, decPad len (buf.drop pos) = .ok (s, buf.drop (pos + len))) ∨
          Bounded buf (pos, len) ∧ decPad len (buf.drop pos) = minusOne ∨
          buf.length = pos + len ∧ decPad len (buf.drop pos) = .error .undefined) := by
  have split : buf.drop pos = fieldAt pos len buf ++ buf.drop (pos + len) := by
    rw [fieldAt, ← List.drop_drop, List.take_append_drop]
  have length : (fieldAt pos len buf).length = len := by
    rw [fieldAt, List.length_take, List.length_drop]
    omega
  have behind : (buf.drop pos).drop len = buf.drop (pos + len) := List.drop_drop
  by_cases ended : 0 ∈ fieldAt pos len buf
  · refine .inl ⟨ended, ?_⟩
    obtain ⟨same, short⟩ := at_append_of_mem ended (buf.drop (pos + len))
    have there : 0 ∈ buf.drop pos := split ▸ List.mem_append_left _ ended
    rw [← split] at same
    rw [length] at short
    rw [decPad, if_neg fun both => both.2 there, same, if_neg short.not_gt, behind]
  · refine .inr ⟨ended, ?_⟩
    have next : buf[pos + len]? = (buf.drop (pos + len)).head? := by
      rw [List.head?_drop]
    have strlen := strlen_at_append ended (buf.drop (pos + len))
    rw [← split, length] at strlen
    cases rest : buf.drop (pos + len) with
    | nil =>
        have whole : buf.length = pos + len := by
          have gone := congrArg List.length rest
          rw [List.length_drop, List.length_nil] at gone
          omega
        have none : 0 ∉ buf.drop pos := by rwa [split, rest, List.append_nil]
        have short : (buf.drop pos).length ≤ len := by
          rw [List.length_drop]
          omega
        exact .inr (.inr ⟨whole, by rw [decPad, if_pos ⟨short, none⟩]⟩)
    | cons b tail =>
        have more : ¬ (buf.drop pos).length ≤ len := by
          rw [split, rest, List.length_append, length, List.length_cons]
          omega
        rw [rest] at strlen next
        rw [decPad, if_neg fun both => more both.1, strlen, behind, rest]
        by_cases zero : b = 0
        · subst zero
          refine .inl ⟨next, _, if_neg ?_⟩
          simp [CStr.at, CStr.strlen]
        · refine .inr (.inl ⟨⟨b, next, zero⟩, if_pos ?_⟩)
          simp [CStr.at, CStr.strlen, zero]

/-- A field of which the following byte is in the message is decoded or refused. -/
theorem decPad_inner (inside : pos + len < buf.length) :
    (∃ s, decPad len (buf.drop pos) = .ok (s, buf.drop (pos + len)) ∧
      (Terminated buf (pos, len) → s = CStr.at (fieldAt pos len buf)) ∧
        ¬ (¬ Terminated buf (pos, len) ∧ Bounded buf (pos, len))) ∨
      (¬ Terminated buf (pos, len) ∧ Bounded buf (pos, len)) ∧
        decPad len (buf.drop pos) = minusOne := by
  rcases decPad_cases inside.le with
    ⟨ended, decoded⟩ | ⟨open_, ⟨zero, s, decoded⟩ | ⟨bounded, refused⟩ | ⟨whole, -⟩⟩
  · exact .inl ⟨_, decoded, fun _ => rfl, fun both => both.1 ended⟩
  · refine .inl ⟨s, decoded, fun ended => absurd ended open_, ?_⟩
    rintro ⟨-, b, next, other⟩
    exact other (Option.some.inj (next.symm.trans zero))
  · exact .inr ⟨⟨open_, bounded⟩, refused⟩
  · omega

/-- The last field of a message is decoded only if it has a terminator. -/
theorem decPad_last (last : pos + len = buf.length) :
    Terminated buf (pos, len) ∧
        decPad len (buf.drop pos) = .ok (CStr.at (fieldAt pos len buf), buf.drop (pos + len)) ∨
      ¬ Terminated buf (pos, len) ∧ decPad len (buf.drop pos) = .error .undefined := by
  rcases decPad_cases last.le with
    decoded | ⟨open_, ⟨zero, -⟩ | ⟨⟨b, next, -⟩, -⟩ | ⟨-, outside⟩⟩
  · exact .inl decoded
  · rw [List.getElem?_eq_none last.ge] at zero
    cases zero
  · rw [List.getElem?_eq_none last.ge] at next
    cases next
  · exact .inr ⟨open_, outside⟩

theorem decFixed_drop {n : ℕ} (inside : pos + n ≤ buf.length) :
    ∃ field, decFixed n (buf.drop pos) = .ok (field, buf.drop (pos + n)) := by
  have room : n ≤ (buf.drop pos).length := by
    rw [List.length_drop]
    omega
  refine ⟨⟨(buf.drop pos).take n, List.length_take_of_le room⟩, ?_⟩
  rw [decFixed, dif_pos room, List.drop_drop]

theorem decType_eq (some : 0 < buf.length) : ∃ type, decType buf = .ok (type, buf.drop 1) := by
  cases buf with
  | nil => cases some
  | cons type rest => exact ⟨type, rfl⟩

/-- No field is guarded by the byte behind it. -/
theorem guarded_iff {fields : List (ℕ × ℕ)}
    (none : ∀ field ∈ fields, ¬ (¬ Terminated buf field ∧ Bounded buf field)) :
    Guarded buf fields ↔ ∀ field ∈ fields, Terminated buf field := by
  constructor
  · rintro (ended | ⟨field, member, guarded⟩)
    · exact ended
    · exact absurd guarded (none field member)
  · exact .inl

/-- A message that is refused for a field that is guarded. -/
theorem decodes_minusOne {α : Type} {fields : List (ℕ × ℕ)} (strings : α → List CStr)
    {field : ℕ × ℕ} (member : field ∈ fields)
    (guarded : ¬ Terminated buf field ∧ Bounded buf field) :
    Decodes buf fields strings minusOne ↔ Guarded buf fields :=
  iff_of_true (fun ended => guarded.1 (ended field member)) (.inr ⟨field, member, guarded⟩)

/-- The strings of a ticket request, in the order of its fields. -/
def Ticketreq.strings (r : Ticketreq) : List CStr := [r.ids, r.dom, r.idc, r.idr]

/-- The strings of a ticket. -/
def Ticket.strings (r : Ticket) : List CStr := [r.idc, r.idr]

theorem decTicketReq_decodes (sized : buf.length = 141) :
    Decodes buf ticketreqFields Ticketreq.strings (decTicketReq buf) ↔
      Guarded buf ticketreqFields := by
  obtain ⟨type, typed⟩ := @decType_eq buf (by omega)
  rw [decTicketReq, typed]
  simp only [bind, Except.bind]
  rcases @decPad_inner buf 1 28 (by omega) with ⟨ids, decoded, idsAt, noIds⟩ | ⟨guarded, refused⟩
  swap
  · rw [refused]
    exact decodes_minusOne _ (by simp [ticketreqFields]) guarded
  rw [decoded]
  simp only
  rcases @decPad_inner buf 29 48 (by omega) with ⟨dom, decoded, domAt, noDom⟩ | ⟨guarded, refused⟩
  swap
  · rw [refused]
    exact decodes_minusOne _ (by simp [ticketreqFields]) guarded
  obtain ⟨ch, fixed⟩ := @decFixed_drop buf 77 8 (by omega)
  rw [decoded]
  simp only [fixed]
  rcases @decPad_inner buf 85 28 (by omega) with ⟨idc, decoded, idcAt, noIdc⟩ | ⟨guarded, refused⟩
  swap
  · rw [refused]
    exact decodes_minusOne _ (by simp [ticketreqFields]) guarded
  rw [decoded]
  simp only
  have last : ¬ Bounded buf (113, 28) := by
    rintro ⟨b, next, -⟩
    rw [List.getElem?_eq_none (by omega)] at next
    cases next
  have guards : Guarded buf ticketreqFields ↔ ∀ field ∈ ticketreqFields, Terminated buf field := by
    refine guarded_iff fun field member => ?_
    simp only [ticketreqFields, List.mem_cons, List.not_mem_nil, or_false] at member
    rcases member with rfl | rfl | rfl | rfl
    · exact noIds
    · exact noDom
    · exact noIdc
    · exact fun both => last both.2
  rw [guards]
  rcases @decPad_last buf 113 28 (by omega) with ⟨ended, decoded⟩ | ⟨open_, outside⟩
  · rw [decoded]
    refine and_iff_left_of_imp fun ended => ?_
    simp only [ticketreqFields, List.mem_cons, List.not_mem_nil, or_false, forall_eq_or_imp,
      forall_eq] at ended
    simp only [Ticketreq.strings, ticketreqFields, List.map_cons, List.map_nil, idsAt ended.1,
      domAt ended.2.1, idcAt ended.2.2.1]
  · rw [outside]
    exact iff_of_false id fun ended => open_ (ended (113, 28) (by simp [ticketreqFields]))

theorem decTicket_decodes {des : Des} {key : Key} {plain : List UInt8} (sized : plain.length = 72)
    (decrypted : decrypt des buf 72 key = .ok plain) :
    Decodes plain ticketFields Ticket.strings (decTicket des buf key) ↔
      Guarded plain ticketFields := by
  obtain ⟨type, typed⟩ := @decType_eq plain (by omega)
  obtain ⟨ch, fixed⟩ := @decFixed_drop plain 1 8 (by omega)
  rw [decTicket, decrypted]
  simp only [bind, Except.bind, typed, fixed]
  rcases @decPad_inner plain 9 28 (by omega) with ⟨idc, decoded, idcAt, noIdc⟩ | ⟨guarded, refused⟩
  swap
  · rw [refused]
    exact decodes_minusOne _ (by simp [ticketFields]) guarded
  rw [decoded]
  simp only
  rcases @decPad_inner plain 37 28 (by omega) with
    ⟨idr, decoded, idrAt, noIdr⟩ | ⟨guarded, refused⟩
  swap
  · rw [refused]
    exact decodes_minusOne _ (by simp [ticketFields]) guarded
  obtain ⟨session, last⟩ := @decFixed_drop plain 65 7 (by omega)
  rw [decoded]
  simp only [last]
  have guards : Guarded plain ticketFields ↔ ∀ field ∈ ticketFields, Terminated plain field := by
    refine guarded_iff fun field member => ?_
    simp only [ticketFields, List.mem_cons, List.not_mem_nil, or_false] at member
    rcases member with rfl | rfl
    · exact noIdc
    · exact noIdr
  rw [guards]
  refine and_iff_left_of_imp fun ended => ?_
  simp only [ticketFields, List.mem_cons, List.not_mem_nil, or_false, forall_eq_or_imp,
    forall_eq] at ended
  simp only [Ticket.strings, ticketFields, List.map_cons, List.map_nil, idcAt ended.1,
    idrAt ended.2]

end Padded

/-- A ticket request and the decrypted bytes of a ticket are decoded field by field exactly when
they are guarded. -/
theorem padded_iff (setOddParity : Block → Block) (family : Block → Equiv.Perm Block) (key : Key) :
    (∀ buf : List UInt8, buf.length = 141 →
      (Decodes buf ticketreqFields Ticketreq.strings (decTicketReq buf) ↔
        Guarded buf ticketreqFields)) ∧
    ∀ buf : List UInt8, buf.length = 72 →
      ∃ plain, decrypt (.ofFamily setOddParity family) buf 72 key = .ok plain ∧
        (Decodes plain ticketFields Ticket.strings
          (decTicket (.ofFamily setOddParity family) buf key) ↔ Guarded plain ticketFields) := by
  refine ⟨fun buf => decTicketReq_decodes, fun buf sized => ?_⟩
  obtain ⟨plain, decrypted, length, -⟩ :=
    @decrypt_accepted (.ofFamily setOddParity family) key rfl buf 72 (by omega)
  exact ⟨plain, decrypted, decTicket_decodes (by omega) decrypted⟩

/-- A request of which every field is empty. -/
theorem padded_iff_empty : Decodes (List.replicate 141 0) ticketreqFields Ticketreq.strings
    (decTicketReq (List.replicate 141 0)) := by
  have ended : ∀ field ∈ ticketreqFields, Terminated (List.replicate 141 0) field := by
    unfold Terminated
    decide
  have sized : (List.replicate 141 (0 : UInt8)).length = 141 := List.length_replicate
  have decoded := (padded_iff id (fun _ => Equiv.refl Block) (List.Vector.replicate 7 0)).1 _ sized
  rw [decoded]
  exact .inl ended

/-- The first name takes its whole field, and the empty second one ends it. -/
def fullField : List UInt8 := 1 :: (List.replicate 28 97 ++ List.replicate 112 0)

theorem not_padded_all : ¬ ∀ buf : List UInt8, buf.length = 141 →
    Decodes buf ticketreqFields Ticketreq.strings (decTicketReq buf) := by
  intro all
  have sized : fullField.length = 141 := by simp [fullField]
  have guarded (buf : List UInt8) (sized : buf.length = 141) : Guarded buf ticketreqFields :=
    (decTicketReq_decodes sized).mp (all buf sized)
  rcases guarded fullField sized with ended | ⟨field, member, open_, b, next, other⟩
  · have first := ended (1, 28) (by decide)
    revert first
    unfold Terminated
    decide
  · simp only [ticketreqFields, List.mem_cons, List.not_mem_nil, or_false] at member
    rcases member with rfl | rfl | rfl | rfl
    · exact other (Option.some.inj next).symm
    · exact other (Option.some.inj next).symm
    · exact other (Option.some.inj next).symm
    · cases next

end Npfs.P9sk1
