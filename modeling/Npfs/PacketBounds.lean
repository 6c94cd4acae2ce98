import Npfs.Packet

/-!
# Bounds and completeness of `np_deserialize`

`np_deserialize` accepts a packet whose bytes stop at a field boundary, and one whose data count
has its top bit set, besides the complete ones.  The two theorems of this file say for which packets
the regions it hands out lie inside the packet, and for which packets acceptance means that every
field was there.
-/

namespace Npfs

open Layout Program LittleEndian

/-! ## The pointers of an accepted message -/

/-- Every string and the data of a message lie inside a packet of `size` bytes. -/
structure Npfcall.Inside (dotu : Bool) (size : Nat) (fc : Npfcall) (type : MsgType) : Prop where
  strings : ∀ s ∈ messageStrings dotu fc type, RegionInside size s.len.toNat s.str
  data : ∀ region ∈ messageData fc type, RegionInside size region.1.toNat region.2

/-- If the packet is accepted, its regions are inside it and the cursor only moved forward inside
it. -/
def BoundsKept (fc : Npfcall) (data : List UInt8) (dotu : Bool) : Prop :=
  ∀ message, npDeserialize fc data dotu = some message →
    (∃ type, MsgType.ofCode? message.type = some type ∧
      message.Inside dotu (announcedSize data).toNat type) ∧
    ∀ read ∈ packetReads fc data dotu, read.Orderly (announcedSize data).toNat

theorem Read.Orderly.nonneg {size : Int} {read : Read} (orderly : read.Orderly size) {len : Int}
    {ptr : Option Int} (region : read.region? = some (len, ptr)) : 0 ≤ len := by
  obtain ⟨op, buf⟩ := read
  cases op with
  | alloc amount =>
      obtain ⟨rfl, rfl⟩ := by simpa [Read.region?] using region
      have forward := orderly.forward
      by_cases fits : buf.p + amount ≤ buf.ep
      · rw [Read.after, GetOp.exec_of_fits fits] at forward
        simp only [Cbuf.advance, GetOp.width] at forward
        omega
      · obtain ⟨start, pointer, -⟩ := orderly.region _ _ rfl
        have missing := congrArg Prod.fst
          (@GetOp.exec_of_missing (.alloc amount) buf (not_le.mp fits))
        exact absurd (missing.symm.trans pointer) (by simp [GetOp.blank])
  | _ => simp [Read.region?] at region

/-- The regions of a message that was parsed by orderly reads are inside the packet. -/
theorem inside_of_orderly {dotu : Bool} {size : UInt32} {reads : List Read} {message : Npfcall}
    {type : MsgType} (parsed : message.Parsed dotu size (reads.filterMap Read.region?) type)
    (orderly : ∀ read ∈ reads, read.Orderly size.toNat) :
    message.Inside dotu size.toNat type := by
  have covered : ∀ region ∈ messageRegions dotu message type,
      0 ≤ region.1 ∧ RegionInside size.toNat region.1 region.2 := by
    rintro ⟨len, ptr⟩ member
    rw [← parsed.regions_eq] at member
    obtain ⟨read, member, region⟩ := List.mem_filterMap.mp member
    exact ⟨(orderly read member).nonneg region, (orderly read member).region _ _ region⟩
  refine ⟨fun s member => ?_, fun region member => ?_⟩
  · exact (covered s.region (List.mem_append_left _ (List.mem_map_of_mem member))).2
  · have regionMember : (cint region.1, region.2) ∈ messageRegions dotu message type :=
      List.mem_append_right _ (List.mem_map.mpr ⟨region, Option.mem_toList.mpr member, rfl⟩)
    obtain ⟨nonneg, inside⟩ := covered _ regionMember
    have small : region.1.toNat < 2 ^ 31 := by
      by_contra large
      simp only [cint_of_ge (not_lt.mp large)] at nonneg
      have := region.1.toNat_lt
      omega
    simpa only [cint_of_lt small] using inside

theorem boundsKept_of_orderly {fc : Npfcall} {data : List UInt8} {dotu : Bool}
    (orderly : ∀ read ∈ packetReads fc data dotu, read.Orderly (announcedSize data).toNat) :
    BoundsKept fc data dotu := by
  intro message accepted
  obtain ⟨type, parsed⟩ := parsed_of_some accepted
  exact ⟨⟨type, parsed.named, inside_of_orderly parsed orderly⟩, orderly⟩

theorem boundsKept_of_not_accepts {fc : Npfcall} {data : List UInt8} {dotu : Bool}
    (refused : ¬Accepts ((packetParser fc data dotu).run GetOp.exec (packetBody data))) :
    BoundsKept fc data dotu := fun _ accepted =>
  absurd (overflowTest_eq_some.mp accepted).2 refused

theorem not_boundsKept_of_dangling {fc : Npfcall} {data : List UInt8} {dotu : Bool}
    (dangling : packetStop data dotu = .dangling) : ¬BoundsKept fc data dotu := by
  intro kept
  have explained := explains_packet fc data dotu
  rw [dangling] at explained
  obtain ⟨accepts, len, -, read, member, region⟩ := explained
  obtain ⟨message, accepted⟩ := exists_of_accepts accepts
  obtain ⟨start, pointer, -⟩ := ((kept message accepted).2 read member).region _ _ region
  exact absurd pointer (by simp)

theorem not_boundsKept_of_wild {fc : Npfcall} {data : List UInt8} {dotu : Bool}
    (wild : packetStop data dotu = .wild) : ¬BoundsKept fc data dotu := by
  intro kept
  have explained := explains_packet fc data dotu
  rw [wild] at explained
  obtain ⟨accepts, read, member, back⟩ := explained
  obtain ⟨message, accepted⟩ := exists_of_accepts accepts
  exact absurd ((kept message accepted).2 read member).forward (not_le.mpr back)

/-- `np_deserialize` hands out regions inside the packet, through a cursor that stays inside it,
exactly for the packets whose bytes neither stop right behind the length of a string or of data
that is not empty nor carry a data count with its top bit set. -/
theorem boundsKept_iff (fc : Npfcall) (data : List UInt8) (dotu : Bool) :
    BoundsKept fc data dotu ↔
      packetStop data dotu ≠ .dangling ∧ packetStop data dotu ≠ .wild := by
  refine ⟨fun kept => ⟨fun dangling => not_boundsKept_of_dangling dangling kept,
    fun wild => not_boundsKept_of_wild wild kept⟩, fun ⟨notDangling, notWild⟩ => ?_⟩
  have explained := explains_packet fc data dotu
  cases stop : packetStop data dotu with
  | dangling => exact absurd stop notDangling
  | wild => exact absurd stop notWild
  | complete pos =>
      rw [stop] at explained
      exact boundsKept_of_orderly fun read member => (explained.2.2.2 read member).2
  | boundary =>
      rw [stop] at explained
      exact boundsKept_of_orderly explained.2.1
  | torn =>
      rw [stop] at explained
      exact boundsKept_of_not_accepts explained
  | refused =>
      rw [stop] at explained
      exact boundsKept_of_not_accepts explained

/-- A `Tversion` that ends behind the length of its version string is accepted, with a version of
five bytes at `NULL`. -/
theorem not_boundsKept_tversion :
    ¬∀ (fc : Npfcall) (data : List UInt8) (dotu : Bool),
      (announcedSize data).toNat ≤ data.length → BoundsKept fc data dotu := by
  intro kept
  refine not_boundsKept_of_dangling ?_
    (kept default [13, 0, 0, 0, 100, 255, 255, 0, 32, 0, 0, 5, 0] true (by decide))
  decide

/-! ## Completeness -/

/-- If the packet is accepted, its type is handled, its element counts are in range, every field of
its layout ends inside the packet, and no read of the parser had to make a value up. -/
def CompletenessKept (fc : Npfcall) (data : List UInt8) (dotu : Bool) : Prop :=
  ∀ message, npDeserialize fc data dotu = some message →
    (∃ type, MsgType.ofCode? message.type = some type ∧ type.Handled ∧ message.WalkInRange type) ∧
    (∃ pos ≤ (announcedSize data).toNat, packetStop data dotu = .complete pos) ∧
    ∀ read ∈ packetReads fc data dotu, read.Found

theorem completenessKept_of_not_accepts {fc : Npfcall} {data : List UInt8} {dotu : Bool}
    (refused : ¬Accepts ((packetParser fc data dotu).run GetOp.exec (packetBody data))) :
    CompletenessKept fc data dotu := fun _ accepted =>
  absurd (overflowTest_eq_some.mp accepted).2 refused

theorem completenessKept_iff (fc : Npfcall) (data : List UInt8) (dotu : Bool) :
    CompletenessKept fc data dotu ↔ packetStop data dotu ≠ .boundary ∧
      packetStop data dotu ≠ .dangling ∧ packetStop data dotu ≠ .wild := by
  have explained := explains_packet fc data dotu
  have incomplete : Accepts ((packetParser fc data dotu).run GetOp.exec (packetBody data)) →
      (∀ pos, packetStop data dotu ≠ .complete pos) → ¬CompletenessKept fc data dotu := by
    intro accepts notComplete kept
    obtain ⟨message, accepted⟩ := exists_of_accepts accepts
    obtain ⟨-, ⟨pos, -, complete⟩, -⟩ := kept message accepted
    exact notComplete pos complete
  cases stop : packetStop data dotu with
  | complete pos =>
      rw [stop] at explained
      obtain ⟨-, -, bound, reads⟩ := explained
      refine ⟨fun _ => by simp, fun _ message accepted => ?_⟩
      obtain ⟨type, parsed⟩ := parsed_of_some accepted
      exact ⟨⟨type, parsed.named, parsed.handled, parsed.inRange⟩,
        ⟨pos, by exact_mod_cast bound, stop⟩, fun read member => (reads read member).1⟩
  | boundary =>
      rw [stop] at explained
      simpa using incomplete explained.1 (by simp [stop])
  | dangling =>
      rw [stop] at explained
      simpa using incomplete explained.1 (by simp [stop])
  | wild =>
      rw [stop] at explained
      simpa using incomplete explained.1 (by simp [stop])
  | torn =>
      rw [stop] at explained
      exact ⟨fun _ => by simp, fun _ => completenessKept_of_not_accepts explained⟩
  | refused =>
      rw [stop] at explained
      exact ⟨fun _ => by simp, fun _ => completenessKept_of_not_accepts explained⟩

/-! ## Cutting a message -/

/-- A message whose fields fill the packet exactly. -/
def ValidMessage (data : List UInt8) (dotu : Bool) : Prop :=
  (announcedSize data).toNat ≤ data.length ∧
    packetStop data dotu = .complete (announcedSize data).toNat

/-- The packet cut to `k` bytes, with its size field rewritten. -/
def cut (data : List UInt8) (k : Nat) : List UInt8 :=
  bytes32 (UInt32.ofNat k) ++ (data.take k).drop 4

theorem cut_getD {data : List UInt8} {k j : Nat} (least : 4 ≤ j) (inside : j < k) :
    (cut data k).getD j 0 = data.getD j 0 := by
  obtain ⟨j, rfl⟩ := Nat.exists_eq_add_of_le least
  simp only [cut, List.getD_eq_getElem?_getD]
  rw [List.getElem?_append_right (by simp), bytes32_length, Nat.add_sub_cancel_left,
    List.getElem?_drop, List.getElem?_take_of_lt inside]

theorem announcedSize_cut (data : List UInt8) (k : Nat) :
    announcedSize (cut data k) = UInt32.ofNat k := announcedSize_bytes32 _ _

theorem wordAt_cut {data : List UInt8} {k i : Nat} (width : Width) (least : 4 ≤ i)
    (inside : i + width.size ≤ k) : wordAt (cut data k) i width = wordAt data i width := by
  have same : ∀ j < width.size, (cut data k).getD (i + j) 0 = data.getD (i + j) 0 :=
    fun j bound => cut_getD (by omega) (by omega)
  cases width
  case u8 => simpa [wordAt] using congrArg UInt8.toNat (same 0 (by decide))
  all_goals
    simp only [Width.size] at same
    simp (disch := decide) only [wordAt, word16, word32, word64, same]

/-- The fields of a message do not fit into fewer bytes than they fill. -/
theorem scan_cut {data : List UInt8} {size k : Nat} {layout : Layout} {i : Nat} (least : 4 ≤ i)
    (inside : i ≤ k) (shorter : k < size) (whole : layout.scan data size i = .complete size) :
    (∀ pos, layout.scan (cut data k) k i ≠ .complete pos) ∧
      layout.scan (cut data k) k i ≠ .wild := by
  induction layout generalizing i with
  | done =>
      simp only [scan, Stop.complete.injEq] at whole
      omega
  | reject => simp [scan] at whole
  | word width next ih =>
      simp only [scan] at whole ⊢
      rw [if_neg (by omega)] at whole
      split at whole
      case isTrue => simp at whole
      case isFalse =>
        split
        case isTrue => simp
        case isFalse =>
          split
          case isTrue => simp
          case isFalse enough =>
            rw [wordAt_cut width least (by omega)]
            exact ih _ (by omega) (by omega) whole
  | str next ih =>
      simp only [scan] at whole ⊢
      rw [if_neg (by omega)] at whole
      split at whole
      case isTrue => simp at whole
      case isFalse =>
        split
        case isTrue => simp
        case isFalse =>
          split
          case isTrue => simp
          case isFalse enough =>
            rw [wordAt_cut .u16 least (by simp only [Width.size]; omega)]
            split
            case isTrue fits =>
              rw [if_pos (by omega)] at whole
              exact ih (by omega) fits whole
            case isFalse =>
              split <;> simp
  | blob =>
      simp only [scan] at whole ⊢
      rw [if_neg (by omega)] at whole
      split at whole
      case isTrue => simp at whole
      case isFalse =>
        split at whole
        case isTrue => simp at whole
        case isFalse small =>
          split
          case isTrue => simp
          case isFalse =>
            split
            case isTrue => simp
            case isFalse enough =>
              rw [wordAt_cut .u32 least (by simp only [Width.size]; omega), if_neg small]
              split at whole
              case isTrue =>
                simp only [Stop.complete.injEq] at whole
                rw [if_neg (by omega)]
                split <;> simp
              case isFalse => split at whole <;> simp at whole

theorem packetStop_cut {data : List UInt8} {dotu : Bool} {k : Nat}
    (valid : ValidMessage data dotu) (shorter : k < (announcedSize data).toNat) :
    (∀ pos, packetStop (cut data k) dotu ≠ .complete pos) ∧
      packetStop (cut data k) dotu ≠ .wild := by
  have whole := valid.2
  have bound := (announcedSize data).toNat_lt
  have size : (announcedSize (cut data k)).toNat = k := by
    rw [announcedSize_cut]
    exact UInt32.toNat_ofNat_of_lt' (by simp only [UInt32.size]; omega)
  simp only [packetStop, size] at whole ⊢
  split at whole
  case isTrue => simp at whole
  case isFalse =>
    split
    case isTrue => simp
    case isFalse => exact scan_cut (by omega) (by omega) shorter whole

/-- A valid message that is cut short is turned down unless the cut falls between two fields or
right behind the length of a string or of data. -/
theorem cut_rejected_iff (fc : Npfcall) {data : List UInt8} {dotu : Bool} {k : Nat}
    (valid : ValidMessage data dotu) (shorter : k < (announcedSize data).toNat) :
    npDeserialize fc (cut data k) dotu = none ↔
      packetStop (cut data k) dotu ≠ .boundary ∧ packetStop (cut data k) dotu ≠ .dangling := by
  obtain ⟨notComplete, notWild⟩ := packetStop_cut valid shorter
  have explained := explains_packet fc (cut data k) dotu
  rw [npDeserialize_eq, overflowTest_eq_none]
  cases stop : packetStop (cut data k) dotu with
  | complete pos => exact absurd stop (notComplete pos)
  | wild => exact absurd stop notWild
  | boundary =>
      rw [stop] at explained
      simpa using explained.1
  | dangling =>
      rw [stop] at explained
      simpa using explained.1
  | torn =>
      rw [stop] at explained
      exact ⟨fun _ => by simp, fun _ => explained⟩
  | refused =>
      rw [stop] at explained
      exact ⟨fun _ => by simp, fun _ => explained⟩

/-- `np_deserialize` accepts complete messages only, exactly for the packets whose bytes stop
neither between two fields, nor right behind the length of a string or of data, nor in data whose
count has its top bit set; and it turns a shortened message down exactly when the cut is not at one
of these places. -/
theorem complete_iff (fc : Npfcall) (data : List UInt8) (dotu : Bool) :
    (CompletenessKept fc data dotu ↔ packetStop data dotu ≠ .boundary ∧
      packetStop data dotu ≠ .dangling ∧ packetStop data dotu ≠ .wild) ∧
    (ValidMessage data dotu → ∀ k < (announcedSize data).toNat,
      (npDeserialize fc (cut data k) dotu = none ↔
        packetStop (cut data k) dotu ≠ .boundary ∧ packetStop (cut data k) dotu ≠ .dangling)) :=
  ⟨completenessKept_iff fc data dotu, fun valid _ shorter => cut_rejected_iff fc valid shorter⟩

/-- A `Tclunk` of seven bytes has no fid, and is accepted with one of zero. -/
theorem not_complete_tclunk :
    ¬∀ (fc : Npfcall) (data : List UInt8) (dotu : Bool),
      (announcedSize data).toNat ≤ data.length → CompletenessKept fc data dotu := by
  intro kept
  have stop : packetStop [7, 0, 0, 0, 120, 1, 0] true = .boundary := by decide
  exact ((completenessKept_iff _ _ _).mp (kept default _ true (by decide))).1 stop

/-- Cut to ten bytes a `Tclunk` is turned down; cut to seven it is not. -/
theorem complete_iff_tclunk :
    npDeserialize default (cut [11, 0, 0, 0, 120, 1, 0, 5, 0, 0, 0] 10) true = none ∧
      npDeserialize default (cut [11, 0, 0, 0, 120, 1, 0, 5, 0, 0, 0] 7) true ≠ none := by
  have cuts := (complete_iff default [11, 0, 0, 0, 120, 1, 0, 5, 0, 0, 0] true).2
    ⟨by decide, by decide⟩
  exact ⟨(cuts 10 (by decide)).mpr (by decide), fun rejected =>
    absurd ((cuts 7 (by decide)).mp rejected).1 (by decide)⟩

end Npfs
