import Npfs.ParserRun

/-!
# The packet as a whole

How `np_deserialize` starts on a packet and how it ends: the size field, the window behind it, the
type byte, and the overflow test.  `explains_packet` applies the account of a parser's run to the
packet, and `parsed_of_some` says what an accepted message is.
-/

namespace Npfs

open Layout Program LittleEndian

/-! ## From the size field to the fields of the type -/

theorem zeroAccepts_strs (n : Nat) : (strs n).ZeroAccepts := by
  induction n with
  | zero => trivial
  | succ n ih => exact ih

theorem lenient_strs (n : Nat) : (strs n).Lenient := by
  induction n with
  | zero => trivial
  | succ n ih => exact ⟨zeroAccepts_strs n, ih⟩

theorem zeroAccepts_qids (n : Nat) : (qids n).ZeroAccepts := by
  induction n with
  | zero => trivial
  | succ n ih => exact ih

theorem lenient_qids (n : Nat) : (qids n).Lenient := by
  induction n with
  | zero => trivial
  | succ n ih =>
      exact ⟨zeroAccepts_qids n, fun _ =>
        ⟨zeroAccepts_qids n, fun _ => ⟨zeroAccepts_qids n, fun _ => ih⟩⟩⟩

/-- A message type that `np_deserialize` has a `case` for. -/
def MsgType.Handled (type : MsgType) : Prop := type ≠ .tlerror ∧ type ≠ .terror

theorem zeroAccepts_ofType (dotu : Bool) {type : MsgType} (handled : type.Handled) :
    (ofType dotu type).ZeroAccepts := by
  obtain ⟨notTlerror, notTerror⟩ := handled
  cases type <;> cases dotu <;> simp_all [ofType, ZeroAccepts, int, qid, Layout.stat, strs, qids]

theorem lenient_ofType (dotu : Bool) (type : MsgType) : (ofType dotu type).Lenient := by
  cases type
  case twalk =>
    refine ⟨by simp [ZeroAccepts, int, strs], fun _ => ⟨by simp [ZeroAccepts, strs], fun _ =>
      ⟨by simp [ZeroAccepts, strs], fun nwname => ?_⟩⟩⟩
    dsimp only
    split
    · trivial
    · exact lenient_strs nwname
  case rwalk =>
    refine ⟨by simp [ZeroAccepts, qids], fun nwqid => ?_⟩
    dsimp only
    split
    · trivial
    · exact lenient_qids nwqid
  all_goals cases dotu <;> simp [ofType, ZeroAccepts, Lenient, int, qid, Layout.stat]

/-- The fields behind the type byte. -/
def Layout.behindType (dotu : Bool) (type : Nat) : Layout :=
  match MsgType.ofCode? (UInt8.ofNat type) with
  | none | some .tlerror | some .terror => reject
  | some type => int .u16 (ofType dotu type)

theorem fcall_eq (dotu : Bool) : fcall dotu = .word .u8 (behindType dotu) := rfl

theorem behindType_cases (dotu : Bool) (code : UInt8) :
    (behindType dotu code.toNat = .reject ∧
      ∀ type, MsgType.ofCode? code = some type → ¬type.Handled) ∨
    ∃ type, MsgType.ofCode? code = some type ∧ type.Handled ∧
      behindType dotu code.toNat = int .u16 (ofType dotu type) := by
  unfold behindType
  rw [UInt8.ofNat_toNat]
  rcases named : MsgType.ofCode? code with _ | type
  · exact Or.inl ⟨rfl, by simp⟩
  · by_cases handled : type.Handled
    · refine Or.inr ⟨type, rfl, handled, ?_⟩
      obtain ⟨notTlerror, notTerror⟩ := handled
      cases type <;> first | rfl | contradiction
    · left
      have unhandled : type = .tlerror ∨ type = .terror := by
        simpa only [MsgType.Handled, not_and_or, not_not] using handled
      rcases unhandled with rfl | rfl <;> simpa [behindType] using handled

theorem announcedSize_bytes32 (size : UInt32) (rest : List UInt8) :
    announcedSize (bytes32 size ++ rest) = size := word32_bytes32 size

/-- The parser of everything behind the size field of a packet. -/
def packetParser (fc : Npfcall) (data : List UInt8) (dotu : Bool) : Get (Option Npfcall) :=
  getFcall dotu { fc with size := announcedSize data }

/-- The reads that `np_deserialize` makes behind the size field. -/
def packetReads (fc : Npfcall) (data : List UInt8) (dotu : Bool) : List Read :=
  (packetParser fc data dotu).events GetOp.exec (packetBody data)

/-- The parser behind the type byte. -/
def afterType (dotu : Bool) (fc : Npfcall) (type : UInt8) : Get (Option Npfcall) := do
  let tag ← getInt16
  let fc := { fc with type, tag, fid := NOFID, afid := NOFID, newfid := NOFID }
  match MsgType.ofCode? type with
  | none => return none
  | some type => getBody dotu fc type

theorem getFcall_eq (dotu : Bool) (fc : Npfcall) :
    getFcall dotu fc = .step .int8 (afterType dotu fc) := rfl

theorem follows_afterType (dotu : Bool) (fc : Npfcall) (code : UInt8) :
    Follows (behindType dotu code.toNat) (afterType dotu fc code) := by
  rcases behindType_cases dotu code with ⟨layout, unhandled⟩ | ⟨type, named, -, layout⟩
  · rw [layout]
    intro tag
    rcases named : MsgType.ofCode? code with _ | type
    · rfl
    · have refused := unhandled type named
      rcases type <;> first | rfl | exact absurd ⟨by decide, by decide⟩ refused
  · rw [layout]
    refine follows_int16 fun tag => ?_
    rw [named]
    exact follows_getBody dotu _ type

theorem lenient_behindType (dotu : Bool) (code : UInt8) :
    (behindType dotu code.toNat).Lenient := by
  rcases behindType_cases dotu code with ⟨layout, -⟩ | ⟨type, -, handled, layout⟩
  · rw [layout]
    trivial
  · rw [layout]
    exact ⟨zeroAccepts_ofType dotu handled, fun _ => lenient_ofType dotu type⟩

theorem packetBody_window {data : List UInt8} (least : 5 ≤ (announcedSize data).toNat)
    (most : (announcedSize data).toNat < 2 ^ 31 + 4) :
    (packetBody data).ep = (announcedSize data).toNat := by
  have minus : (announcedSize data - 4).toNat = (announcedSize data).toNat - 4 :=
    UInt32.toNat_sub_of_le _ _ (UInt32.le_iff_toNat_le.mpr
      (by simpa using (by omega : 4 ≤ (announcedSize data).toNat)))
  simp only [packetBody, Cbuf.bufInit]
  rw [cint_of_lt (by omega), minus]
  omega

/-- A packet without a type byte, or with a size that does not fit, has an empty window. -/
theorem packetBody_empty {data : List UInt8}
    (outside : (announcedSize data).toNat < 5 ∨ 2 ^ 31 + 4 ≤ (announcedSize data).toNat) :
    (packetBody data).ep ≤ 4 := by
  have bound := (announcedSize data).toNat_lt
  simp only [packetBody, Cbuf.bufInit]
  have minus : (announcedSize data - 4).toNat =
      (2 ^ 32 - 4 + (announcedSize data).toNat) % 2 ^ 32 := UInt32.toNat_sub _ _
  by_cases small : (announcedSize data - 4).toNat < 2 ^ 31
  · rw [cint_of_lt small]
    omega
  · rw [cint_of_ge (by omega)]
    have := (announcedSize data - 4).toNat_lt
    omega

/-- Where the bytes of a packet stop decides what `np_deserialize` does with it. -/
theorem explains_packet (fc : Npfcall) (data : List UInt8) (dotu : Bool) :
    (packetStop data dotu).Explains (announcedSize data).toNat
      ((packetParser fc data dotu).run GetOp.exec (packetBody data))
      (packetReads fc data dotu) := by
  simp only [packetStop, packetParser, packetReads, getFcall_eq]
  split
  case isTrue outside =>
    have missing : (packetBody data).ep < (packetBody data).p + GetOp.int8.width := by
      have := packetBody_empty outside
      simp only [packetBody, Cbuf.bufInit, GetOp.width] at this ⊢
      omega
    rw [run_step, GetOp.exec_of_missing missing]
    exact not_accepts_of_rejects (show Rejects (afterType dotu _ 0) from fun _ => rfl) _
  case isFalse inside =>
    obtain ⟨least, most⟩ : 5 ≤ (announcedSize data).toNat ∧
        (announcedSize data).toNat < 2 ^ 31 + 4 := by omega
    have window := packetBody_window least most
    rw [fcall_eq, scan, if_neg (by omega), if_neg (by simp only [Width.size]; omega)]
    have code : UInt8.toNat (GetOp.int8.value (packetBody data)) = wordAt data 4 .u8 := rfl
    rw [← code]
    exact Stop.Explains.step (by simp [packetBody, Cbuf.bufInit]) window (by simp [GetOp.width])
      (by simp [packetBody, Cbuf.bufInit, GetOp.width]; omega)
      (explains_scan (follows_afterType dotu _ _) (lenient_behindType dotu _) rfl rfl window
        (by omega) (by simp only [Width.size]; omega))

/-! ## Accepted messages -/

theorem npDeserialize_eq (fc : Npfcall) (data : List UInt8) (dotu : Bool) :
    npDeserialize fc data dotu =
      overflowTest ((packetParser fc data dotu).run GetOp.exec (packetBody data)) := rfl

theorem overflowTest_eq_some {out : Option Npfcall × Cbuf} {message : Npfcall} :
    overflowTest out = some message ↔ out.1 = some message ∧ Accepts out := by
  obtain ⟨result, buf⟩ := out
  cases result with
  | none => simp [overflowTest]
  | some fc => cases overflow : buf.bufCheckOverflow <;> simp [overflowTest, Accepts, overflow]

theorem overflowTest_eq_none {out : Option Npfcall × Cbuf} :
    overflowTest out = none ↔ ¬Accepts out := by
  obtain ⟨result, buf⟩ := out
  cases result with
  | none => simp [overflowTest, Accepts]
  | some fc => cases overflow : buf.bufCheckOverflow <;> simp [overflowTest, Accepts, overflow]

theorem exists_of_accepts {fc : Npfcall} {data : List UInt8} {dotu : Bool}
    (accepts : Accepts ((packetParser fc data dotu).run GetOp.exec (packetBody data))) :
    ∃ message, npDeserialize fc data dotu = some message := by
  obtain ⟨message, result⟩ := Option.isSome_iff_exists.mp accepts.1
  exact ⟨message, npDeserialize_eq fc data dotu ▸ overflowTest_eq_some.mpr ⟨result, accepts⟩⟩

/-- The counts of a walk and of its answer are in range. -/
def Npfcall.WalkInRange (fc : Npfcall) (type : MsgType) : Prop :=
  (type = .twalk → fc.nwname.toNat ≤ MAXWELEM) ∧ (type = .rwalk → fc.nwqid.toNat ≤ MAXWELEM)

theorem Collects.mono {α : Type} {weak strong : List (Int × Option Int) → α → Prop}
    (implies : ∀ regions result, strong regions result → weak regions result)
    {collected : List (Int × Option Int)} {parser : Get α}
    (collects : Collects strong collected parser) : Collects weak collected parser := by
  induction parser generalizing collected with
  | done result => exact implies _ _ collects
  | step op next ih => exact fun reply => ih reply (collects reply)

theorem Collects.of_forall {α : Type} {holds : List (Int × Option Int) → α → Prop}
    (always : ∀ regions result, holds regions result) (collected : List (Int × Option Int))
    (parser : Get α) : Collects holds collected parser := by
  induction parser generalizing collected with
  | done result => exact always _ _
  | step op next ih => exact fun reply => ih reply _

theorem inRange_getBody (dotu : Bool) (fc : Npfcall) (type : MsgType) :
    Collects (fun _ result => ∀ message, result = some message →
      type.Handled ∧ message.WalkInRange type) [] (getBody dotu fc type) := by
  by_cases isTwalk : type = .twalk
  · subst isTwalk
    intro fid newfid nwname
    change Collects _ _ (if UInt16.toNat nwname > MAXWELEM then _ else _)
    split
    case isTrue => rintro _ ⟨⟩
    case isFalse small =>
      refine collects_getWnames _ _ (by omega) fun names wnames same => ?_
      rintro _ ⟨⟩
      exact ⟨⟨by decide, by decide⟩, fun _ => Nat.le_of_not_lt small, by simp⟩
  by_cases isRwalk : type = .rwalk
  · subst isRwalk
    intro nwqid
    change Collects _ _ (if UInt16.toNat nwqid > MAXWELEM then _ else _)
    split
    case isTrue => rintro _ ⟨⟩
    case isFalse small =>
      refine collects_getWqids _ _ fun wqids => ?_
      rintro _ ⟨⟩
      exact ⟨⟨by decide, by decide⟩, by simp, fun _ => Nat.le_of_not_lt small⟩
  by_cases handled : type.Handled
  · exact Collects.of_forall (fun _ _ _ _ =>
      ⟨handled, fun same => absurd same isTwalk, fun same => absurd same isRwalk⟩) _ _
  · have refused : type = .tlerror ∨ type = .terror := by
      simpa only [MsgType.Handled, not_and_or, not_not] using handled
    rcases refused with rfl | rfl <;> rintro _ ⟨⟩

/-- What the parse of a packet leaves behind: the type that was parsed, and its regions. -/
structure Npfcall.Parsed (dotu : Bool) (size : UInt32) (regions : List (Int × Option Int))
    (fc : Npfcall) (type : MsgType) : Prop where
  named : MsgType.ofCode? fc.type = some type
  handled : type.Handled
  size_eq : fc.size = size
  regions_eq : regions = messageRegions dotu fc type
  inRange : fc.WalkInRange type

theorem collects_and {α : Type} {first second : List (Int × Option Int) → α → Prop}
    {collected : List (Int × Option Int)} {parser : Get α}
    (left : Collects first collected parser) (right : Collects second collected parser) :
    Collects (fun regions result => first regions result ∧ second regions result) collected
      parser := by
  induction parser generalizing collected with
  | done result => exact ⟨left, right⟩
  | step op next ih => exact fun reply => ih reply (left reply) (right reply)

theorem collects_afterType (dotu : Bool) (fc : Npfcall) (code : UInt8) :
    Collects (fun regions result => ∀ message, result = some message →
      ∃ type, message.Parsed dotu fc.size regions type) [] (afterType dotu fc code) := by
  intro tag
  rcases named : MsgType.ofCode? code with _ | type
  · rintro _ ⟨⟩
  · refine Collects.mono ?_ (collects_and (collects_getBody dotu _ type)
      (inRange_getBody dotu _ type))
    rintro regions result ⟨collects, inRange⟩ message rfl
    obtain ⟨sameType, sameSize, same⟩ := collects message rfl
    obtain ⟨handled, inRange⟩ := inRange message rfl
    exact ⟨type, by rw [sameType]; exact named, handled, sameSize, same, inRange⟩

theorem parsed_of_some {fc : Npfcall} {data : List UInt8} {dotu : Bool} {message : Npfcall}
    (accepted : npDeserialize fc data dotu = some message) :
    ∃ type, message.Parsed dotu (announcedSize data)
      ((packetReads fc data dotu).filterMap Read.region?) type := by
  obtain ⟨result, -⟩ := overflowTest_eq_some.mp accepted
  have collected : Collects (fun regions result => ∀ message, result = some message →
      ∃ type, message.Parsed dotu (announcedSize data) regions type) []
      (packetParser fc data dotu) := by
    rw [packetParser, getFcall_eq]
    exact fun code => collects_afterType dotu { fc with size := announcedSize data } code
  exact collected.run (packetBody data) message result

end Npfs
