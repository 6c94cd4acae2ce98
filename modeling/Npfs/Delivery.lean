import Npfs.CreateCall
import Npfs.ReadProc
import Npfs.RoundTripDotl

/-!
# Delivery of the calls of a connection

The packets of any number of calls, one behind the other and cut anyhow by the transport, become the
same calls in the same order on the other side.
-/

namespace Npfs

open Layout LittleEndian Program

/-! ## What stands behind a packet -/

section Behind

variable {α : Type} {buf buf' : Cbuf}

theorem bufCheckOverflow_congr (place : buf'.p = buf.p) (window : buf'.ep = buf.ep) :
    buf'.bufCheckOverflow = buf.bufCheckOverflow := by
  rw [Cbuf.bufCheckOverflow, Cbuf.bufCheckOverflow, decide_eq_decide, place, window]

/-- Two cursors stand at the same place of packets that agree up to their end. -/
structure Cbuf.Agrees (buf buf' : Cbuf) : Prop where
  nonneg : 0 ≤ buf.p
  place : buf'.p = buf.p
  window : buf'.ep = buf.ep
  same : ∀ j : ℕ, (j : ℤ) < buf.ep → buf'.mem.getD j 0 = buf.mem.getD j 0

namespace Cbuf.Agrees

theorem byte (agrees : buf.Agrees buf') {k width : ℕ} (inside : k < width)
    (fits : buf.p + width ≤ buf.ep) : buf'.byte k = buf.byte k := by
  have nonneg := agrees.nonneg
  rw [Cbuf.byte, Cbuf.byte, agrees.place]
  apply agrees.same
  omega

theorem value (agrees : buf.Agrees buf') {op : GetOp} (fits : buf.p + op.width ≤ buf.ep) :
    op.value buf' = op.value buf := by
  cases op with
  | int8 => exact agrees.byte Nat.one_pos fits
  | int16 =>
      have same {k : ℕ} (inside : k < 2) := agrees.byte inside fits
      simp (disch := decide) only [GetOp.value, word16, same]
  | int32 =>
      have same {k : ℕ} (inside : k < 4) := agrees.byte inside fits
      simp (disch := decide) only [GetOp.value, word32, same]
  | int64 =>
      have same {k : ℕ} (inside : k < 8) := agrees.byte inside fits
      simp (disch := decide) only [GetOp.value, word64, same]
  | alloc len => exact congrArg some agrees.place

theorem spoil (agrees : buf.Agrees buf') : buf.spoil.Agrees buf'.spoil := by
  obtain ⟨nonneg, place, window, same⟩ := agrees
  rw [Cbuf.spoil, Cbuf.spoil, place, window]
  split_ifs with before
  · exact ⟨by dsimp only; omega, rfl, rfl, same⟩
  · exact ⟨nonneg, place, window, same⟩

/-- An operation gives the same on both, and ends at the same place. -/
theorem exec (agrees : buf.Agrees buf') (op : GetOp) :
    (op.exec buf').1 = (op.exec buf).1 ∧
      (op.exec buf').2.bufCheckOverflow = (op.exec buf).2.bufCheckOverflow := by
  by_cases fits : buf.p + op.width ≤ buf.ep
  · have fits' : buf'.p + op.width ≤ buf'.ep := by rwa [agrees.place, agrees.window]
    rw [GetOp.exec_of_fits fits, GetOp.exec_of_fits fits']
    exact ⟨agrees.value fits,
      bufCheckOverflow_congr (congrArg (· + op.width) agrees.place) agrees.window⟩
  · have missing : buf.ep < buf.p + op.width := not_le.mp fits
    have missing' : buf'.ep < buf'.p + op.width := by rwa [agrees.place, agrees.window]
    rw [GetOp.exec_of_missing missing, GetOp.exec_of_missing missing']
    exact ⟨rfl, bufCheckOverflow_congr agrees.spoil.place agrees.spoil.window⟩

/-- An operation that does not move back keeps them at the same place. -/
theorem next (agrees : buf.Agrees buf') {op : GetOp} (forward : 0 ≤ op.width) :
    (op.exec buf).2.Agrees (op.exec buf').2 := by
  by_cases fits : buf.p + op.width ≤ buf.ep
  · have fits' : buf'.p + op.width ≤ buf'.ep := by rwa [agrees.place, agrees.window]
    rw [GetOp.exec_of_fits fits, GetOp.exec_of_fits fits']
    exact ⟨Int.add_nonneg agrees.nonneg forward, congrArg (· + op.width) agrees.place,
      agrees.window, agrees.same⟩
  · have missing : buf.ep < buf.p + op.width := not_le.mp fits
    have missing' : buf'.ep < buf'.p + op.width := by rwa [agrees.place, agrees.window]
    rw [GetOp.exec_of_missing missing, GetOp.exec_of_missing missing']
    exact agrees.spoil

end Cbuf.Agrees

/-- A parser does the same on both; only its last step may move back. -/
theorem run_congr {layout : Layout} {parser : Get (Option α)} (follows : Follows layout parser)
    (agrees : buf.Agrees buf') :
    (parser.run GetOp.exec buf').1 = (parser.run GetOp.exec buf).1 ∧
      ((parser.run GetOp.exec buf).1.isSome →
        (parser.run GetOp.exec buf').2.bufCheckOverflow =
          (parser.run GetOp.exec buf).2.bufCheckOverflow) := by
  induction layout generalizing parser buf buf' with
  | done =>
      obtain ⟨result, rfl⟩ := follows
      exact ⟨rfl, fun _ => bufCheckOverflow_congr agrees.place agrees.window⟩
  | reject =>
      rw [Rejects.run follows, Rejects.run follows]
      exact ⟨rfl, nofun⟩
  | word width next ih =>
      obtain ⟨rest, rfl, follows⟩ := follows
      rw [run_step, run_step, (agrees.exec width.op).1]
      exact ih _ (follows _) (agrees.next (by simp))
  | str next ih =>
      obtain ⟨rest, rfl, follows⟩ := follows
      have counted : (GetOp.int16.exec buf).2.Agrees (GetOp.int16.exec buf').2 :=
        agrees.next (by decide)
      rw [run_step, run_step, (agrees.exec .int16).1, run_step, run_step, (counted.exec _).1]
      exact ih (follows _ _) (counted.next (Int.natCast_nonneg _))
  | blob =>
      obtain ⟨rest, rfl, finished⟩ := follows
      have counted : (GetOp.int32.exec buf).2.Agrees (GetOp.int32.exec buf').2 :=
        agrees.next (by decide)
      rw [run_step, run_step, (agrees.exec .int32).1, run_step, run_step, (counted.exec _).1]
      obtain ⟨result, done⟩ := finished (GetOp.int32.exec buf).1
        ((GetOp.alloc (cint (GetOp.int32.exec buf).1)).exec (GetOp.int32.exec buf).2).1
      rw [done]
      exact ⟨rfl, fun _ => (counted.exec _).2⟩

theorem overflowTest_congr {layout : Layout} {parser : Get (Option Npfcall)}
    (follows : Follows layout parser) (agrees : buf.Agrees buf') :
    overflowTest (parser.run GetOp.exec buf') = overflowTest (parser.run GetOp.exec buf) := by
  obtain ⟨result, overflow⟩ := run_congr follows agrees
  revert result overflow
  generalize parser.run GetOp.exec buf = out
  generalize parser.run GetOp.exec buf' = out'
  intro result overflow
  obtain ⟨message, last⟩ := out
  obtain ⟨message', last'⟩ := out'
  obtain rfl : message' = message := result
  cases message' with
  | none => rfl
  | some fc =>
      have same : last'.bufCheckOverflow = last.bufCheckOverflow := overflow rfl
      simp only [overflowTest, same]

end Behind

/-- A packet is parsed alike, whatever stands behind it. -/
theorem npDeserialize_append (old : Npfcall) {pkt : List UInt8} (dotu : Bool)
    (whole : (announcedSize pkt).toNat = pkt.length) (enough : 5 ≤ pkt.length)
    (small : pkt.length < 2 ^ 31) (behind : List UInt8) :
    npDeserialize old (pkt ++ behind) dotu = npDeserialize old pkt dotu := by
  have sizes : announcedSize (pkt ++ behind) = announcedSize pkt :=
    announcedSize_append (by omega) behind
  have window : (packetBody pkt).ep = (announcedSize pkt).toNat :=
    packetBody_window (by omega) (by omega)
  have agrees : (packetBody pkt).Agrees (packetBody (pkt ++ behind)) := by
    refine ⟨by simp [packetBody, Cbuf.bufInit], rfl, ?_, ?_⟩
    · rw [packetBody, packetBody, sizes]
      rfl
    · intro j inside
      rw [window] at inside
      exact List.getD_append _ _ _ _ (by omega)
  rw [npDeserialize_eq, npDeserialize_eq, packetParser, packetParser, sizes]
  refine @overflowTest_congr _ _ (fcall dotu) _ ?_ agrees
  exact ⟨afterType dotu _, rfl, fun code => follows_afterType dotu _ code⟩

/-! ## What the fields point at -/

section Fields

variable {pkt bytes : List UInt8} {dotu : Bool}

theorem DataAt.append {ptr : Option ℤ} (at_ : DataAt pkt ptr bytes) (behind : List UInt8) :
    DataAt (pkt ++ behind) ptr bytes := by
  obtain ⟨start, place, inside, found⟩ := at_
  refine ⟨start, place, ?_, ?_⟩
  · rw [List.length_append]
    omega
  · rw [List.drop_append_of_le_length (by omega), List.take_append_of_le_length, found]
    rw [List.length_drop]
    omega

theorem StrAt.append {s : Npstr} (at_ : StrAt pkt s bytes) (behind : List UInt8) :
    StrAt (pkt ++ behind) s bytes :=
  ⟨at_.1, at_.2.append behind⟩

theorem StatAt.append {stat : Npstat} {wstat : Npwstat} (at_ : StatAt pkt dotu stat wstat)
    (behind : List UInt8) : StatAt (pkt ++ behind) dotu stat wstat :=
  { at_ with
    name := at_.name.append behind
    uid := at_.uid.append behind
    gid := at_.gid.append behind
    muid := at_.muid.append behind
    extension := fun extended => (at_.extension extended).append behind }

/-- What a message carries, it carries in a longer packet too. -/
theorem BaseCall.Carried.append {call : BaseCall} {fc : Npfcall}
    (carried : call.Carried dotu pkt fc) (behind : List UInt8) :
    call.Carried dotu (pkt ++ behind) { fc with pkt := pkt ++ behind } := by
  cases call with
  | tversion | rversion | rread | twstat => exact ⟨carried.1, carried.2.append behind⟩
  | rerror ename ecode => exact ⟨carried.1.append behind, carried.2⟩
  | tattach fid afid uname aname nUname =>
      obtain ⟨fid, afid, uname, aname, nUname⟩ := carried
      exact ⟨fid, afid, uname.append behind, aname.append behind, nUname⟩
  | twalk fid newfid wnames =>
      obtain ⟨fid, newfid, nwname, names⟩ := carried
      exact ⟨fid, newfid, nwname, names.imp fun _ _ at_ => at_.append behind⟩
  | tcreate fid name perm mode =>
      obtain ⟨fid, name, perm, mode⟩ := carried
      exact ⟨fid, name.append behind, perm, mode⟩
  | twrite fid offset count data =>
      obtain ⟨fid, offset, count, data⟩ := carried
      exact ⟨fid, offset, count, data.append behind⟩
  | rstat wstat => exact StatAt.append carried behind
  | _ => exact carried

theorem DotlCall.Carried.append {npErrnoToLinux : UInt32 → UInt32} {call : DotlCall} {fc : Npfcall}
    (carried : call.Carried npErrnoToLinux pkt fc) (behind : List UInt8) :
    call.Carried npErrnoToLinux (pkt ++ behind) { fc with pkt := pkt ++ behind } := by
  cases call with
  | tlcreate fid name flags mode gid =>
      obtain ⟨fid, name, flags, mode, gid⟩ := carried
      exact ⟨fid, name.append behind, flags, mode, gid⟩
  | tsymlink dfid name symtgt gid =>
      obtain ⟨dfid, name, symtgt, gid⟩ := carried
      exact ⟨dfid, name.append behind, symtgt.append behind, gid⟩
  | tmknod dfid name mode major minor gid =>
      obtain ⟨dfid, name, mode, major, minor, gid⟩ := carried
      exact ⟨dfid, name.append behind, mode, major, minor, gid⟩
  | trename | txattrwalk | tlink => exact ⟨carried.1, carried.2.1, carried.2.2.append behind⟩
  | rreadlink target => exact StrAt.append carried behind
  | txattrcreate fid name asize flags =>
      obtain ⟨fid, name, asize, flags⟩ := carried
      exact ⟨fid, name.append behind, asize, flags⟩
  | rreaddir count data => exact ⟨carried.1, carried.2.append behind⟩
  | tlock fid type flags offset length procid clientid =>
      obtain ⟨fid, type, flags, offset, length, procid, clientid⟩ := carried
      exact ⟨fid, type, flags, offset, length, procid, clientid.append behind⟩
  | tgetlock fid type offset length procid clientid =>
      obtain ⟨fid, type, offset, length, procid, clientid⟩ := carried
      exact ⟨fid, type, offset, length, procid, clientid.append behind⟩
  | rgetlock type offset length procid clientid =>
      obtain ⟨type, offset, length, procid, clientid⟩ := carried
      exact ⟨type, offset, length, procid, clientid.append behind⟩
  | tmkdir dfid name mode gid =>
      obtain ⟨dfid, name, mode, gid⟩ := carried
      exact ⟨dfid, name.append behind, mode, gid⟩
  | trenameat odfid oname ndfid nname =>
      obtain ⟨odfid, oname, ndfid, nname⟩ := carried
      exact ⟨odfid, oname.append behind, ndfid, nname.append behind⟩
  | tunlinkat dfid name flags =>
      obtain ⟨dfid, name, flags⟩ := carried
      exact ⟨dfid, name.append behind, flags⟩
  | _ => exact carried

end Fields

/-! ## The packets of the calls -/

namespace CreateCall

/-- The calls whose messages are read back. -/
def ReadsBack (dotu : Bool) : CreateCall → Prop
  | .base call => call.InRange dotu
  | .dotl call => call.InRange ∧ call.Recoverable
  | .tauth .. | .rerror1 .. | .lerror _ | .rgetlock .. => False

/-- The message carries the arguments of the call. -/
def Carried (npErrnoToLinux : UInt32 → UInt32) (dotu : Bool) :
    CreateCall → List UInt8 → Npfcall → Prop
  | .base call => call.Carried dotu
  | .dotl call => call.Carried npErrnoToLinux
  | .tauth .. | .rerror1 .. | .lerror _ | .rgetlock .. => fun _ _ => False

end CreateCall

/-! ## What is enqueued -/

/-- The call is what `np_deserialize` makes of its packet. -/
def Npfcall.IsParse (dotu : Bool) (fc : Npfcall) : Prop :=
  ∃ old message, npDeserialize old fc.pkt dotu = some message ∧ fc = { message with pkt := fc.pkt }

section Enqueued

variable {msize : ℕ} {dotu : Bool} {incalls : ℕ → Incall msize} {s : Receiver}

theorem round_parses (parsed : ∀ fc ∈ s.enqueued, fc.IsParse dotu) :
    ∀ fc ∈ (round msize dotu incalls s).2.enqueued, fc.IsParse dotu := by
  unfold round
  dsimp only
  split
  · exact parsed
  split
  · exact parsed
  split
  · exact parsed
  · next message accepted =>
    split
    · exact parsed
    · intro fc member
      rcases List.mem_append.mp member with member | single
      · exact parsed fc member
      · obtain rfl := List.mem_singleton.mp single
        exact ⟨s.fc, message, accepted, rfl⟩

theorem again_parses {fuel : ℕ} {leave : Leave} {s' : Receiver}
    (ran : again msize dotu incalls fuel s = (leave, s'))
    (parsed : ∀ fc ∈ s.enqueued, fc.IsParse dotu) : ∀ fc ∈ s'.enqueued, fc.IsParse dotu := by
  induction fuel generalizing s with
  | zero =>
      obtain ⟨-, rfl⟩ := Prod.mk.inj ran
      exact parsed
  | succ fuel ih =>
      have next := @round_parses msize dotu incalls s parsed
      rw [again] at ran
      split at ran
      · next s' round =>
        rw [round] at next
        exact ih ran next
      · rw [ran] at next
        exact next

theorem readLoop_parses {cuts : ℕ → ℕ} {fuel k : ℕ} {leave : Leave} {s' : Receiver}
    (ran : readLoop msize dotu incalls cuts fuel k s = (leave, s'))
    (parsed : ∀ fc ∈ s.enqueued, fc.IsParse dotu) : ∀ fc ∈ s'.enqueued, fc.IsParse dotu := by
  induction fuel generalizing s k with
  | zero =>
      obtain ⟨-, rfl⟩ := Prod.mk.inj ran
      exact parsed
  | succ fuel ih =>
      rw [readLoop] at ran
      dsimp only at ran
      split at ran
      · obtain ⟨-, rfl⟩ := Prod.mk.inj ran
        exact parsed
      split at ran
      · next s'' rounds => exact ih ran (again_parses rounds parsed)
      · exact again_parses ran parsed

end Enqueued

/-! ## Delivery -/

/-- A packet that is read as a message of this type, with this tag, whatever the recycled call. -/
structure IsPacket (dotu : Bool) (type : MsgType) (tag : UInt16)
    (carried : List UInt8 → Npfcall → Prop) (pkt : List UInt8) : Prop where
  sized : (announcedSize pkt).toNat = pkt.length
  enough : 5 ≤ pkt.length
  small : pkt.length < 2 ^ 31
  read : ∀ old, ∃ message, npDeserialize old pkt dotu = some message ∧
    message.type = type.code ∧ message.tag = tag ∧ carried pkt message

section Packets

variable {msize : ℕ} {dotu : Bool} {type : MsgType} {carried : List UInt8 → Npfcall → Prop}
  {create : Malloc → Option Npfcall} {heap : Malloc} {fc : Npfcall} {tag : UInt16}
  {pkt : List UInt8}

@[simp] theorem retag_length (tag : Option UInt16) (fc : Npfcall) :
    (retag tag fc).pkt.length = fc.pkt.length := by
  cases tag with
  | none => rfl
  | some tag => simp [retag, npSetTag]

/-- What a constructor builds is a packet if it is read back. -/
theorem RoundTrip.isPacket (trip : RoundTrip create dotu type carried)
    (created : create heap = some fc) (small : fc.pkt.length < 2 ^ 31) (tag : Option UInt16) :
    IsPacket dotu type (tag.getD NOTAG) carried (retag tag fc).pkt := by
  have read (old : Npfcall) : ∃ message, npDeserialize old (retag tag fc).pkt dotu = some message ∧
      message.type = type.code ∧ message.tag = tag.getD NOTAG ∧
      message.size.toNat = fc.pkt.length ∧ carried (retag tag fc).pkt message := by
    obtain ⟨fc', created', read⟩ := trip heap old tag
    obtain rfl : fc' = fc := Option.some.inj (created'.symm.trans created)
    exact read
  obtain ⟨message, accepted, -, -, size, -⟩ := read default
  obtain ⟨_, parsed⟩ := parsed_of_some accepted
  have sized : (announcedSize (retag tag fc).pkt).toNat = (retag tag fc).pkt.length := by
    rw [← parsed.size_eq, size, retag_length]
  refine ⟨sized, ?_, by rwa [retag_length], ?_⟩
  · by_contra short
    rw [npDeserialize_small default dotu (by omega)] at accepted
    cases accepted
  · intro old
    obtain ⟨message, accepted, type, tag, -, carried⟩ := read old
    exact ⟨message, accepted, type, tag, carried⟩

theorem BaseCall.isPacket {call : BaseCall} (inRange : call.InRange dotu)
    (created : call.run dotu heap = some fc) (small : fc.pkt.length < 2 ^ 31)
    (tag : Option UInt16) :
    IsPacket dotu call.type (tag.getD NOTAG) (call.Carried dotu) (retag tag fc).pkt := by
  have number {type : MsgType} {n : ℕ} {fields : List PutOp} {carried : List UInt8 → Npfcall → Prop}
      (fits : ∀ op ∈ fields, op.Fits) (length : (packed fields []).length = n)
      (few : n + 7 < 2 ^ 31) (created : npCreate type (.ofNat n) fields heap = some fc)
      (reads : ∀ pkt fc, Reads pkt (getBody dotu fc type) (packed fields [])
        (Parsed fc (carried pkt))) :
      IsPacket dotu type (tag.getD NOTAG) carried (retag tag fc).pkt :=
    (roundTrip_ofNat fits length few reads).isPacket created small tag
  cases call with
  | tversion msize version | rversion msize version =>
      exact (roundTrip_version inRange fun _ => rfl).isPacket created small tag
  | rauth qid | rattach qid => exact (roundTrip_qid fun _ => rfl).isPacket created small tag
  | rerror ename ecode => exact (roundTrip_rerror inRange).isPacket created small tag
  | tflush oldtag =>
      exact number (n := 2) (by simp) rfl (by omega) created
        fun pkt fc => reads_int16 (reads_parsed ⟨rfl, rfl, rfl⟩ rfl)
  | rflush | rclunk | rremove | rwstat =>
      exact (roundTrip_empty fun _ => rfl).isPacket created small tag
  | tattach fid afid uname aname nUname =>
      exact (roundTrip_tattach inRange.1 inRange.2).isPacket created small tag
  | twalk fid newfid wnames =>
      exact (roundTrip_twalk inRange.1 inRange.2).isPacket created small tag
  | rwalk wqids => exact (roundTrip_rwalk inRange).isPacket created small tag
  | topen fid mode =>
      exact number (n := 5) (by simp) rfl (by omega) created
        fun pkt fc => reads_int32 (reads_int8 (reads_parsed ⟨rfl, rfl, rfl⟩ ⟨rfl, rfl⟩))
  | ropen qid iounit | rcreate qid iounit =>
      exact (roundTrip_qidIounit fun _ => rfl).isPacket created small tag
  | tcreate fid name perm mode => exact (roundTrip_tcreate inRange).isPacket created small tag
  | tread fid offset count => exact (roundTrip_fidRange fun _ => rfl).isPacket created small tag
  | rread count data => exact (roundTrip_rread inRange.1 inRange.2).isPacket created small tag
  | twrite fid offset count data =>
      exact (roundTrip_twrite inRange.1 inRange.2).isPacket created small tag
  | rwrite count =>
      exact number (n := 4) (by simp) rfl (by omega) created
        fun pkt fc => reads_int32 (reads_parsed ⟨rfl, rfl, rfl⟩ rfl)
  | tclunk fid | tremove fid | tstat fid =>
      exact (roundTrip_fid fun _ => rfl).isPacket created small tag
  | rstat wstat => exact (roundTrip_rstat inRange).isPacket created small tag
  | twstat fid wstat => exact (roundTrip_twstat inRange).isPacket created small tag

namespace IsPacket

theorem announced (packet : IsPacket dotu type tag carried pkt) (behind : List UInt8) :
    (announcedSize (pkt ++ behind)).toNat = pkt.length := by
  have enough := packet.enough
  rw [announcedSize_append (by omega), packet.sized]

/-- The packet is the first message of a stream. -/
theorem front (packet : IsPacket dotu type tag carried pkt) (fits : pkt.length ≤ msize)
    (behind : List UInt8) : frontMessage msize dotu (pkt ++ behind) = some pkt.length := by
  have enough := packet.enough
  obtain ⟨message, accepted, -⟩ := packet.read default
  rw [frontMessage, packet.announced, if_pos]
  refine ⟨?_, fits, ?_, ?_⟩
  · rw [List.length_append]
    omega
  · rw [List.length_append]
    omega
  · rw [List.take_left, accepted]
    rfl

/-- What is made of a buffer that starts with the packet. -/
theorem arrived (packet : IsPacket dotu type tag carried pkt) {fc : Npfcall}
    (parse : fc.IsParse dotu) (message : fc.message = pkt)
    (longer : ∀ message behind, carried pkt message →
      carried (pkt ++ behind) { message with pkt := pkt ++ behind }) :
    fc.type = type.code ∧ fc.tag = tag ∧ carried fc.pkt fc := by
  obtain ⟨old, message', accepted, same⟩ := parse
  obtain ⟨behind, whole⟩ : ∃ behind, pkt ++ behind = fc.pkt := by
    rw [← message]
    exact ⟨_, List.take_append_drop _ _⟩
  obtain ⟨read, accepted', type, tag, holds⟩ := packet.read old
  rw [← whole, npDeserialize_append old dotu packet.sized packet.enough packet.small, accepted']
    at accepted
  obtain rfl := Option.some.inj accepted
  have holds := longer _ behind holds
  rw [whole, ← same] at holds
  rw [same]
  refine ⟨type, tag, ?_⟩
  rw [← same]
  exact holds

end IsPacket

end Packets

/-- These are the packets of the calls, with their tags. -/
def SentCall (npErrnoToLinux : UInt32 → UInt32) (msize : ℕ) (dotu : Bool) :
    List (CreateCall × Option UInt16) → List (List UInt8) → Prop :=
  List.Forall₂ fun call pkt => call.1.ReadsBack dotu ∧ pkt.length ≤ msize ∧
    ∃ heap fc, call.1.run npErrnoToLinux dotu heap = some fc ∧ pkt = (retag call.2 fc).pkt

/-- The call has arrived with its tag and its arguments. -/
def Arrived (npErrnoToLinux : UInt32 → UInt32) (dotu : Bool) (call : CreateCall × Option UInt16)
    (fc : Npfcall) : Prop :=
  fc.type = call.1.type.code ∧ fc.tag = call.2.getD NOTAG ∧
    call.1.Carried npErrnoToLinux dotu fc.pkt fc

/-- However the transport cuts the stream, the other side enqueues these calls and no others, in
their order, and nothing is left. -/
def Delivered (npErrnoToLinux : UInt32 → UInt32) (msize : ℕ) (dotu : Bool)
    (calls : List (CreateCall × Option UInt16)) (stream : List UInt8) : Prop :=
  ∀ (incalls : ℕ → Incall msize) (cuts : ℕ → ℕ),
    let (leave, s) := npConnReadProc msize dotu incalls cuts stream
    leave = .ends ∧ List.Forall₂ (Arrived npErrnoToLinux dotu) calls s.enqueued ∧
      s.received ++ s.unread = []

section Delivery

variable {npErrnoToLinux : UInt32 → UInt32} {msize : ℕ} {dotu : Bool}
  {calls : List (CreateCall × Option UInt16)} {packets : List (List UInt8)}

theorem CreateCall.isPacket {call : CreateCall} (back : call.ReadsBack dotu) {heap : Malloc}
    {fc : Npfcall} (created : call.run npErrnoToLinux dotu heap = some fc)
    (small : fc.pkt.length < 2 ^ 31) (tag : Option UInt16) :
    IsPacket dotu call.type (tag.getD NOTAG) (call.Carried npErrnoToLinux dotu)
      (retag tag fc).pkt := by
  cases call with
  | base call => exact BaseCall.isPacket back created small tag
  | dotl call =>
      exact (roundTrips_of_recoverable npErrnoToLinux dotu call back.1 back.2).isPacket created
        small tag
  | _ => exact back.elim

theorem CreateCall.Carried.append {call : CreateCall} {pkt : List UInt8} {fc : Npfcall}
    (carried : call.Carried npErrnoToLinux dotu pkt fc) (behind : List UInt8) :
    call.Carried npErrnoToLinux dotu (pkt ++ behind) { fc with pkt := pkt ++ behind } := by
  cases call with
  | base call => exact BaseCall.Carried.append carried behind
  | dotl call => exact DotlCall.Carried.append carried behind
  | _ => exact carried

/-- The reference takes a stream of packets apart where they were put together. -/
theorem SentCall.split (sent : SentCall npErrnoToLinux msize dotu calls packets) (small : msize < 2 ^ 31) :
    Framing.split (frontMessage msize dotu) packets.flatten = (packets, []) := by
  induction sent with
  | nil => exact Framing.split_of_none rfl
  | @cons call pkt calls packets head rest ih =>
      obtain ⟨back, fits, heap, fc, created, rfl⟩ := head
      have packet := CreateCall.isPacket back created (by rw [retag_length] at fits; omega) call.2
      rw [List.flatten_cons, Framing.split_of_some lawful_frontMessage (packet.front fits _),
        List.take_left, List.drop_left, ih]

/-- Calls that hold the packets have arrived. -/
theorem SentCall.arrived (sent : SentCall npErrnoToLinux msize dotu calls packets) (small : msize < 2 ^ 31)
    {enqueued : List Npfcall} (messages : enqueued.map Npfcall.message = packets)
    (parses : ∀ fc ∈ enqueued, fc.IsParse dotu) :
    List.Forall₂ (Arrived npErrnoToLinux dotu) calls enqueued := by
  induction sent generalizing enqueued with
  | nil =>
      obtain rfl := List.map_eq_nil_iff.mp messages
      exact .nil
  | @cons call pkt calls packets head rest ih =>
      obtain ⟨fc, others, rfl, message, following⟩ := List.map_eq_cons_iff.mp messages
      obtain ⟨back, fits, heap, built, created, rfl⟩ := head
      have packet := CreateCall.isPacket back created (by rw [retag_length] at fits; omega) call.2
      obtain ⟨first, parses⟩ := List.forall_mem_cons.mp parses
      exact .cons (packet.arrived first message fun _ behind carried => carried.append behind)
        (ih following parses)

end Delivery

/-- The packets of any calls, put one behind the other, are delivered. -/
theorem delivered (npErrnoToLinux : UInt32 → UInt32) (msize : Fin (2 ^ 31)) (dotu : Bool)
    (calls : List (CreateCall × Option UInt16)) (packets : List (List UInt8))
    (sent : SentCall npErrnoToLinux msize dotu calls packets) :
    Delivered npErrnoToLinux msize dotu calls packets.flatten := by
  intro incalls cuts
  have split := sent.split msize.isLt
  obtain ⟨leave, s, ran, outcome⟩ :=
    npConnReadProc_spec msize.isLt dotu packets.flatten incalls cuts
  have parses : ∀ fc ∈ s.enqueued, fc.IsParse dotu := by
    have loop := ran
    unfold npConnReadProc at loop
    exact readLoop_parses loop (by simp)
  rw [ran]
  rcases outcome with ⟨rfl, ends⟩ | ⟨overruns, -⟩
  · have whole := ends.sound.split
    rw [split, Framing.split_of_none ends.stuck, List.append_nil] at whole
    obtain ⟨messages, left⟩ := Prod.mk.inj whole
    exact ⟨rfl, sent.arrived msize.isLt messages.symm parses, left.symm⟩
  · obtain ⟨-, some, -⟩ := overruns
    rw [split] at some
    cases some

/-- A `Tclunk` and a `Tgetattr`. -/
theorem sent_two : SentCall id (64 : Fin (2 ^ 31)) true
    [(.base (.tclunk 7), some 3), (.dotl (.tgetattr 7 1), some 4)]
    [[11, 0, 0, 0, 120, 3, 0, 7, 0, 0, 0],
      [19, 0, 0, 0, 24, 4, 0, 7, 0, 0, 0, 1, 0, 0, 0, 0, 0, 0, 0]] := by
  refine .cons ⟨trivial, by decide, ⟨default, fun _ => 0⟩, _, rfl, by decide⟩ (.cons ?_ .nil)
  exact ⟨⟨trivial, trivial⟩, by decide, ⟨default, fun _ => 0⟩, _, rfl, by decide⟩

theorem delivered_two : Delivered id (64 : Fin (2 ^ 31)) true
    [(.base (.tclunk 7), some 3), (.dotl (.tgetattr 7 1), some 4)]
    [11, 0, 0, 0, 120, 3, 0, 7, 0, 0, 0,
      19, 0, 0, 0, 24, 4, 0, 7, 0, 0, 0, 1, 0, 0, 0, 0, 0, 0, 0] :=
  delivered id 64 true _ _ sent_two

end Npfs
