import Npfs.Fid

/-!
# Reads of a mailbox

`fs/mboxfs.c`: the text of a field, a content type or a MIME header is printed from its start on at
every read.  Each string is cut to the part of it that is in the window, and one variable counts the
bytes that were copied and says where in the text the next string is.
-/

namespace Npfs

namespace Mboxfs

/-! ## The records -/

/-- `struct mailimf_mailbox`. -/
structure Mailbox where
  mbDisplayName : Option CStr
  mbAddrSpec : CStr

/-- `struct mailimf_address`, by `ad_type`. -/
inductive Address where
  | error
  | group (grpMbList : List Mailbox)
  | mailbox (adMailbox : Mailbox)

/-- `struct mailimf_field`, by `fld_type`. -/
inductive Field where
  | fldSubject (sbjValue : Option CStr)
  | fldFrom (frmMbList : List Mailbox)
  | fldTo (toAddrList : List Address)
  | fldCc (ccAddrList : List Address)
  | fldReplyTo (rtAddrList : List Address)
  /-- With what `asctime_r` writes for the date, without its last byte. -/
  | fldOrigDate (date : CStr) (dtZone : Int32)
  | other

/-- `struct mailmime_discrete_type`, by `dt_type`. -/
inductive DiscreteType where
  | error
  | text
  | image
  | audio
  | video
  | application
  | extension (dtExtension : CStr)

/-- `struct mailmime_composite_type`, by `ct_type`. -/
inductive CompositeType where
  | error
  | message
  | multipart
  | extension (ctToken : CStr)

/-- `struct mailmime_type`, by `tp_type`. -/
inductive ContentKind where
  | error
  | discrete (tpDiscreteType : DiscreteType)
  | composite (tpCompositeType : CompositeType)

/-- `struct mailmime_parameter`. -/
structure Parameter where
  paName : Option CStr
  paValue : Option CStr

/-- `struct mailmime_content`. -/
structure Content where
  ctType : ContentKind
  ctSubtype : CStr
  ctParameters : List Parameter

/-- `struct mailmime_mechanism`, by `enc_type`. -/
inductive Mechanism where
  | error
  | sevenBit
  | eightBit
  | binary
  | quotedPrintable
  | base64
  | token (encToken : Option CStr)

/-- `struct mailmime_disposition_type`, by `dsp_type`. -/
inductive DispositionType where
  | error
  | inlined
  | attachment
  | extension (dspExtension : Option CStr)

/-- `struct mailmime_disposition_parm`, by `pa_type`. -/
inductive DispositionParm where
  | error
  | filename (paFilename : Option CStr)
  | creationDate (paCreationDate : Option CStr)
  | modificationDate (paModificationDate : Option CStr)
  | readDate (paReadDate : Option CStr)
  | size (paSize : UInt64)
  | parameter (paParameter : Parameter)

/-- `struct mailmime_disposition`. -/
structure Disposition where
  dspType : DispositionType
  dspParms : List DispositionParm

/-- `struct mailmime_field`, by `fld_type`. -/
inductive MimeField where
  | type (fldContent : Content)
  | transferEncoding (fldEncoding : Mechanism)
  | id (fldId : Option CStr)
  | description (fldDescription : Option CStr)
  | version (fldVersion : UInt32)
  | disposition (fldDisposition : Disposition)
  | language
  | other

/-! ## Strings -/

/-- The bytes of a literal. -/
def lit (text : String) : List UInt8 := (cstr text).bytes

/-- `"%d"` of an `int`. -/
def formatInt (i : ℤ) : List UInt8 := lit (toString i)

/-- What `snprintf` leaves in a buffer of `size` bytes. -/
def snprintf (size : ℕ) (text : List UInt8) : List UInt8 := text.take (size - 1)

/-- The line of a mailbox, in a buffer of 256 bytes. -/
def Mailbox.line (mbox : Mailbox) : List UInt8 :=
  snprintf 256 (match mbox.mbDisplayName with
    | some name => name.bytes ++ lit " <" ++ mbox.mbAddrSpec.bytes ++ lit ">\n"
    | none => mbox.mbAddrSpec.bytes ++ lit "\n")

/-- The text of a type; `none` if `print_content_type` returns 0. -/
def ContentKind.text : ContentKind → Option (List UInt8)
  | error => none
  | discrete .error => some []
  | discrete .text => some (lit "text")
  | discrete .image => some (lit "image")
  | discrete .audio => some (lit "audio")
  | discrete .video => some (lit "video")
  | discrete .application => some (lit "application")
  | discrete (.extension dtExtension) => some dtExtension.bytes
  | composite .error => some []
  | composite .message => some (lit "message")
  | composite .multipart => some (lit "multipart")
  | composite (.extension ctToken) => some ctToken.bytes

/-- The strings of a parameter. -/
def Parameter.strings (mp : Parameter) : List (Option (List UInt8)) :=
  [mp.paName.map (·.bytes), some (lit "="), mp.paValue.map (·.bytes)]

/-- The string of an encoding. -/
def Mechanism.string : Mechanism → Option (List UInt8)
  | error => none
  | sevenBit => some (lit "7bit")
  | eightBit => some (lit "8bit")
  | binary => some (lit "binary")
  | quotedPrintable => some (lit "quoted-printable")
  | base64 => some (lit "base64")
  | token encToken => encToken.map (·.bytes)

/-- The string of a kind of disposition. -/
def DispositionType.string : DispositionType → Option (List UInt8)
  | error => none
  | inlined => some (lit "inline")
  | attachment => some (lit "attachment")
  | extension dspExtension => dspExtension.map (·.bytes)

/-- The strings of a parameter of a disposition. -/
def DispositionParm.strings : DispositionParm → List (Option (List UInt8))
  | error => []
  | filename paFilename => [some (lit "filename="), paFilename.map (·.bytes)]
  | creationDate paCreationDate => [some (lit "creation-date="), paCreationDate.map (·.bytes)]
  | modificationDate paModificationDate =>
    [some (lit "modification-date="), paModificationDate.map (·.bytes)]
  | readDate paReadDate => [some (lit "read-date="), paReadDate.map (·.bytes)]
  | size paSize =>
    [some (lit "size="), some (snprintf 64 (formatInt paSize.toUInt32.toInt32.toInt))]
  | parameter paParameter => paParameter.strings

/-- The strings of a disposition. -/
def Disposition.strings (fld : Disposition) : List (Option (List UInt8)) :=
  fld.dspType.string :: fld.dspParms.flatMap fun dp => some (lit "; ") :: dp.strings

/-- `"%d.%d"` of a version, in a buffer of 256 bytes. -/
def versionString (version : UInt32) : List UInt8 :=
  snprintf 256 (formatInt (version >>> 16).toNat ++ lit "." ++
    formatInt (version &&& 0xffff).toNat)

/-! ## Windows -/

/-- `offset` and `count` of a read. -/
structure Window where
  offset : UInt64
  count : UInt32

/-- What has been stored in the reply, and `n`. -/
structure Out where
  data : ℕ → Option UInt8
  n : ℤ

/-- A number that an `int` holds. -/
def IsInt (i : ℤ) : Prop := -2 ^ 31 ≤ i ∧ i < 2 ^ 31

instance (i : ℤ) : Decidable (IsInt i) := inferInstanceAs (Decidable (_ ∧ _))

namespace Window

variable (w : Window)

/-- `offset`, as an `int`. -/
def toffset : ℤ := Int.bmod w.offset.toNat (2 ^ 32)

/-- `count`, as an `int`. -/
def tcount : ℤ := Int.bmod w.count.toNat (2 ^ 32)

/-- `n >= count`, of a `u32`. -/
def Reached (n : ℤ) : Prop := n % 2 ^ 32 ≥ w.count.toNat

instance (n : ℤ) : Decidable (w.Reached n) := inferInstanceAs (Decidable (_ ≥ _))

/-- `n > count`, of a `u32`. -/
def Passed (n : ℤ) : Prop := n % 2 ^ 32 > w.count.toNat

instance (n : ℤ) : Decidable (w.Passed n) := inferInstanceAs (Decidable (_ > _))

/-- `cutstr`, with what it copies and returns; `none` if an `int` overflows or the size of
`memmove` is negative. -/
def cutstr (data : ℕ → Option UInt8) (src : Option (List UInt8)) (soffset : ℤ) : Option Out :=
  match src with
  | none => some ⟨data, 0⟩
  | some src =>
    let slen := Int.bmod src.length (2 ^ 32)
    if ¬ IsInt (soffset + slen) then none
    else if w.toffset > soffset + slen then some ⟨data, 0⟩
    else if ¬ IsInt (w.toffset + w.tcount) then none
    else if soffset > w.toffset + w.tcount then some ⟨data, 0⟩
    else
      let b := max soffset w.toffset
      let e := min (soffset + slen) (w.toffset + w.tcount)
      if e < b then none
      else
        some ⟨fun k => if b ≤ w.toffset + k ∧ w.toffset + k < e then
          src[(w.toffset + k - soffset).toNat]? else data k, e - b⟩

end Window

namespace Out

/-- The reply before anything has been stored in it. -/
def start : Out := ⟨fun _ => none, 0⟩

/-- `n += cutstr(data, offset, count, src, n)`. -/
def put (w : Window) (src : Option (List UInt8)) (out : Out) : Option Out := do
  let cut ← w.cutstr out.data src out.n
  if IsInt (out.n + cut.n) then some ⟨cut.data, out.n + cut.n⟩ else none

/-- `n += cutstr(..)` for some strings in turn. -/
def putAll (w : Window) : List (Option (List UInt8)) → Out → Option Out
  | [], out => some out
  | src :: srcs, out => do
    let out ← out.put w src
    putAll w srcs out

/-- `n += print(data, offset, count, .., n)`. -/
def nested (print : Out → Option Out) (out : Out) : Option Out := do
  let printed ← print out
  if IsInt (out.n + printed.n) then some ⟨printed.data, out.n + printed.n⟩ else none

end Out

/-! ## The printers -/

/-- `print_mailaddr`. -/
def printMailaddr (w : Window) : List Mailbox → Out → Option Out
  | [], out => some out
  | mbox :: mbList, out => do
    let out ← out.put w (some mbox.line)
    if w.Reached out.n then some out else printMailaddr w mbList out

/-- What `print_mailaddrlist` does with an address; `none` if it gives a mailbox to `print_mailaddr`
as if it were a list of mailboxes. -/
def printAddress (w : Window) (out : Out) : Address → Option Out
  | .error => some out
  | .group [] => some out
  | .group (_ :: _) => none
  | .mailbox adMailbox => out.put w (some adMailbox.line)

/-- `print_mailaddrlist`. -/
def printMailaddrlist (w : Window) : List Address → Out → Option Out
  | [], out => some out
  | addr :: adList, out => do
    let out ← printAddress w out addr
    if w.Passed out.n then some out else printMailaddrlist w adList out

/-- `field_read`. -/
def fieldRead (w : Window) : Field → Option Out
  | .fldSubject sbjValue => Out.start.put w (sbjValue.map (·.bytes))
  | .fldFrom frmMbList => printMailaddr w frmMbList .start
  | .fldTo toAddrList => printMailaddrlist w toAddrList .start
  | .fldCc ccAddrList => printMailaddrlist w ccAddrList .start
  | .fldReplyTo rtAddrList => printMailaddrlist w rtAddrList .start
  | .fldOrigDate date dtZone =>
    Out.start.putAll w [some date.bytes, some (snprintf 64 (lit " " ++ formatInt dtZone.toInt))]
  | .other => some .start

/-- The loop of `print_content_type`. -/
def printParameters (w : Window) : List Parameter → Out → Option Out
  | [], out => some out
  | mp :: ctParameters, out => do
    let out ← out.putAll w (some (lit ";") :: mp.strings)
    if w.Reached out.n then some out else printParameters w ctParameters out

/-- `print_content_type`; `none` if the size that it gives to `snprintf` is negative. -/
def printContentType (w : Window) (cnt : Content) (out : Out) : Option Out :=
  match cnt.ctType.text with
  | none => some { out with n := 0 }
  | some text =>
    if text.length > 64 then none
    else do
      let out ← out.put w (some (snprintf 64 (text ++ lit "/" ++ cnt.ctSubtype.bytes)))
      printParameters w cnt.ctParameters out

/-- `type_read`. -/
def typeRead (w : Window) (mmContentType : Content) : Option Out :=
  printContentType w mmContentType .start

/-- `print_transfer_encoding`. -/
def printTransferEncoding (w : Window) (fld : Mechanism) (out : Out) : Option Out :=
  out.put w fld.string

/-- `print_disposition`. -/
def printDisposition (w : Window) (fld : Disposition) (out : Out) : Option Out :=
  out.putAll w fld.strings

/-- `print_language`. -/
def printLanguage (out : Out) : Option Out := some { out with n := 0 }

/-- What `mimeheader_read` does with a field, without the end of its line. -/
def printMimeField (w : Window) (out : Out) : MimeField → Option Out
  | .type fldContent => do
    let out ← out.put w (some (lit "Content-Type: "))
    out.nested (printContentType w fldContent)
  | .transferEncoding fldEncoding => do
    let out ← out.put w (some (lit "Transfer-Encoding: "))
    out.nested (printTransferEncoding w fldEncoding)
  | .id fldId => out.putAll w [some (lit "Id: "), fldId.map (·.bytes)]
  | .description fldDescription =>
    out.putAll w [some (lit "Description: "), fldDescription.map (·.bytes)]
  | .version fldVersion =>
    out.putAll w [some (lit "MIME-Version: "), some (versionString fldVersion)]
  | .disposition fldDisposition => do
    let out ← out.put w (some (lit "Content-Disposition: "))
    out.nested (printDisposition w fldDisposition)
  | .language => do
    let out ← out.put w (some (lit "Language: "))
    out.nested printLanguage
  | .other => some out

/-- `ct = 1`. -/
def MimeField.isType : MimeField → Bool
  | type _ => true
  | _ => false

/-- The loop of `mimeheader_read`, with `ct`. -/
def printMimeFields (w : Window) : List MimeField → (ct : Bool) → Out → Option (Out × Bool)
  | [], ct, out => some (out, ct)
  | fld :: fldList, ct, out => do
    let out ← printMimeField w out fld
    let out ← out.put w (some (lit "\n"))
    if w.Reached out.n then some (out, ct || fld.isType)
    else printMimeFields w fldList (ct || fld.isType) out

/-- The end of `mimeheader_read` if there was no field for the content type. -/
def printLastLine (w : Window) (mmContentType : Content) (out : Out) : Option Out := do
  let out ← out.put w (some (lit "Content-Type: "))
  let out ← out.nested (printContentType w mmContentType)
  out.put w (some (lit "\n"))

/-- `mimeheader_read`. -/
def mimeheaderRead (w : Window) (mmMimeFields : List MimeField) (mmContentType : Content) :
    Option Out := do
  let (out, ct) ← printMimeFields w mmMimeFields false .start
  if ct then some out else printLastLine w mmContentType out

/-- What is read. -/
inductive Source where
  | field (fld : Field)
  | type (mmContentType : Content)
  | mimeheader (mmMimeFields : List MimeField) (mmContentType : Content)

/-- Read a part of it. -/
def Source.read (w : Window) : Source → Option Out
  | field fld => fieldRead w fld
  | type mmContentType => typeRead w mmContentType
  | mimeheader mmMimeFields mmContentType => mimeheaderRead w mmMimeFields mmContentType

/-! ## What it is for -/

/-- The strings that are printed. -/
def pieces (srcs : List (Option (List UInt8))) : List (List UInt8) := srcs.map (·.getD [])

def Address.pieces : Address → List (List UInt8)
  | error | group _ => []
  | mailbox adMailbox => [adMailbox.line]

def Field.pieces : Field → List (List UInt8)
  | fldSubject sbjValue => Mboxfs.pieces [sbjValue.map (·.bytes)]
  | fldFrom frmMbList => frmMbList.map (·.line)
  | fldTo adList | fldCc adList | fldReplyTo adList => adList.flatMap (·.pieces)
  | fldOrigDate date dtZone =>
    Mboxfs.pieces [some date.bytes, some (snprintf 64 (lit " " ++ formatInt dtZone.toInt))]
  | other => []

def Content.pieces (cnt : Content) : List (List UInt8) :=
  match cnt.ctType.text with
  | none => []
  | some text => snprintf 64 (text ++ lit "/" ++ cnt.ctSubtype.bytes) ::
    cnt.ctParameters.flatMap fun mp => Mboxfs.pieces (some (lit ";") :: mp.strings)

def MimeField.pieces : MimeField → List (List UInt8)
  | type fldContent => lit "Content-Type: " :: fldContent.pieces
  | transferEncoding fldEncoding =>
    Mboxfs.pieces [some (lit "Transfer-Encoding: "), fldEncoding.string]
  | id fldId => Mboxfs.pieces [some (lit "Id: "), fldId.map (·.bytes)]
  | description fldDescription =>
    Mboxfs.pieces [some (lit "Description: "), fldDescription.map (·.bytes)]
  | version fldVersion =>
    Mboxfs.pieces [some (lit "MIME-Version: "), some (versionString fldVersion)]
  | disposition fldDisposition =>
    Mboxfs.pieces (some (lit "Content-Disposition: ") :: fldDisposition.strings)
  | language => [lit "Language: "]
  | other => []

/-- The lines of the fields of a header. -/
def fieldLines (mmMimeFields : List MimeField) : List (List UInt8) :=
  mmMimeFields.flatMap fun fld => fld.pieces ++ [lit "\n"]

/-- The line that a header has if it has no field for the content type. -/
def lastLine (mmContentType : Content) : List (List UInt8) :=
  lit "Content-Type: " :: (mmContentType.pieces ++ [lit "\n"])

namespace Source

def pieces : Source → List (List UInt8)
  | field fld => fld.pieces
  | type mmContentType => mmContentType.pieces
  | mimeheader mmMimeFields mmContentType => fieldLines mmMimeFields ++
    if mmMimeFields.any (·.isType) then [] else lastLine mmContentType

/-- The strings that may be printed. -/
def strings : Source → List (List UInt8)
  | field fld => fld.pieces
  | type mmContentType => mmContentType.pieces
  | mimeheader mmMimeFields mmContentType => fieldLines mmMimeFields ++ lastLine mmContentType

/-- The whole text. -/
def text (source : Source) : List UInt8 := source.pieces.flatten

end Source

/-- The bytes of a text in a window. -/
def window (w : Window) (text : List UInt8) : Out where
  data k := if k < min (text.length - w.offset.toNat) w.count.toNat then
    text[w.offset.toNat + k]? else none
  n := (min (text.length - w.offset.toNat) w.count.toNat : ℕ)

/-- The places of the window are `int`s. -/
def Window.Small (w : Window) : Prop := w.offset.toNat + w.count.toNat < 2 ^ 31

/-- No group has mailboxes. -/
def Address.Printable : Address → Prop
  | group grpMbList => grpMbList = []
  | error | mailbox _ => True

def Field.Printable : Field → Prop
  | fldTo adList | fldCc adList | fldReplyTo adList => ∀ addr ∈ adList, addr.Printable
  | fldSubject _ | fldFrom _ | fldOrigDate _ _ | other => True

/-- The name of a type is not too long for the buffer. -/
def Content.Printable (cnt : Content) : Prop :=
  ∀ text, cnt.ctType.text = some text → text.length ≤ 64

def MimeField.Printable : MimeField → Prop
  | type fldContent => fldContent.Printable
  | _ => True

/-- A field is printed by `mimeheader_read` itself. -/
def MimeField.Flat : MimeField → Prop
  | type _ | transferEncoding _ | disposition _ => False
  | id _ | description _ | version _ | language | other => True

namespace Source

def Printable : Source → Prop
  | field fld => fld.Printable
  | type mmContentType => mmContentType.Printable
  | mimeheader mmMimeFields mmContentType =>
    (∀ fld ∈ mmMimeFields, fld.Printable) ∧ mmContentType.Printable

/-- No printer that counts from the start of the text adds to the count of another one. -/
def Flat : Source → Prop
  | field _ | type _ => True
  | mimeheader mmMimeFields mmContentType =>
    (∀ fld ∈ mmMimeFields, fld.Flat) ∧ mmContentType.ctType.text = none

end Source

/-- At most one of the strings is not empty. -/
def AtMostOne (strings : List (List UInt8)) : Prop := (strings.filter (· ≠ [])).length ≤ 1

instance (strings : List (List UInt8)) : Decidable (AtMostOne strings) :=
  inferInstanceAs (Decidable (_ ≤ 1))

/-- The window is in the first line of a list of mailboxes, after which the loop ends. -/
def Source.Inside (w : Window) : Source → Prop
  | field (.fldFrom (mbox :: _)) => w.offset.toNat + w.count.toNat ≤ mbox.line.length
  | field _ | type _ | mimeheader _ _ => False

/-- The reads that return what they should. -/
structure Source.Clean (source : Source) (w : Window) : Prop where
  printable : source.Printable
  small : w.Small
  int : source.strings.flatten.length < 2 ^ 31
  straight : source.Inside w ∨ w.count.toNat = 0 ∨ source.text.length ≤ w.offset.toNat ∨
    AtMostOne source.pieces ∨ w.offset.toNat = 0 ∧ source.Flat

/-! ## One string -/

section Put

variable {w : Window} {out : Out} {src : Option (List UInt8)} {n : ℕ} {i : ℤ}
  {data : ℕ → Option UInt8}

theorem bmod_int (small : i < 2 ^ 31) (nonneg : 0 ≤ i) : Int.bmod i (2 ^ 32) = i := by
  apply Int.bmod_eq_of_le <;> omega

theorem isInt (nonneg : 0 ≤ i) (small : i < 2 ^ 31) : IsInt i := ⟨by omega, small⟩

theorem toffset_eq (small : w.Small) : w.toffset = w.offset.toNat := by
  have small' : w.offset.toNat + w.count.toNat < 2 ^ 31 := small
  exact bmod_int (by omega) (by omega)

theorem tcount_eq (small : w.Small) : w.tcount = w.count.toNat := by
  have small' : w.offset.toNat + w.count.toNat < 2 ^ 31 := small
  exact bmod_int (by omega) (by omega)

/-- What is copied of a string at the place `n`: the part of it that is in the window. -/
theorem cutstr_eq (small : w.Small) (short : n + (src.getD []).length < 2 ^ 31) :
    w.cutstr data src n = some ⟨fun k =>
      if max n w.offset.toNat ≤ w.offset.toNat + k ∧ w.offset.toNat + k <
          min (n + (src.getD []).length) (w.offset.toNat + w.count.toNat) then
        (src.getD [])[w.offset.toNat + k - n]? else data k,
      (min (n + (src.getD []).length) (w.offset.toNat + w.count.toNat) -
        max n w.offset.toNat : ℕ)⟩ := by
  have small' : w.offset.toNat + w.count.toNat < 2 ^ 31 := small
  cases src with
  | none =>
      refine congrArg some (congrArg₂ Out.mk (funext fun k => ?_) ?_)
      · rw [if_neg]
        simp only [Option.getD_none, List.length_nil]
        omega
      · simp only [Option.getD_none, List.length_nil]
        omega
  | some s =>
      have slen : Int.bmod s.length (2 ^ 32) = s.length := bmod_int
        (by rw [Option.getD_some] at short; omega) (by omega)
      rw [Option.getD_some] at short ⊢
      rw [Window.cutstr]
      dsimp only
      rw [slen, toffset_eq small, tcount_eq small]
      rw [if_neg (not_not.mpr (isInt (by omega) (by omega)))]
      rw [if_neg (not_not.mpr (isInt (by omega) (by omega)))]
      split_ifs with before behind negative
      · refine congrArg some (congrArg₂ Out.mk (funext fun k => ?_) ?_)
        · rw [if_neg]
          omega
        · omega
      · refine congrArg some (congrArg₂ Out.mk (funext fun k => ?_) ?_)
        · rw [if_neg]
          omega
        · omega
      · omega
      · refine congrArg some (congrArg₂ Out.mk (funext fun k => ?_) ?_)
        · have index : ((w.offset.toNat : ℤ) + k - n).toNat = w.offset.toNat + k - n := by omega
          rw [index]
          exact if_congr (by push_cast [← Int.ofNat_le, ← Int.ofNat_lt]; rfl) rfl rfl
        · omega

theorem put_of_cut {cut : Out} (is : w.cutstr out.data src out.n = some cut)
    (int : IsInt (out.n + cut.n)) : out.put w src = some ⟨cut.data, out.n + cut.n⟩ := by
  rw [Out.put, is]
  simp only [Option.bind_eq_bind, Option.bind_some]
  exact if_pos int

/-- `n` grows by the size of the part. -/
theorem put_eq (small : w.Small) (here : out.n = n) (short : n + (src.getD []).length < 2 ^ 31) :
    out.put w src = some ⟨fun k =>
      if max n w.offset.toNat ≤ w.offset.toNat + k ∧ w.offset.toNat + k <
          min (n + (src.getD []).length) (w.offset.toNat + w.count.toNat) then
        (src.getD [])[w.offset.toNat + k - n]? else out.data k,
      (n + (min (n + (src.getD []).length) (w.offset.toNat + w.count.toNat) -
        max n w.offset.toNat) : ℕ)⟩ := by
  have small' : w.offset.toNat + w.count.toNat < 2 ^ 31 := small
  have cut := @cutstr_eq w src n out.data small short
  rw [← here] at cut
  refine (put_of_cut cut (isInt ?_ ?_)).trans (congrArg some (congrArg₂ Out.mk rfl ?_))
  · rw [here]
    dsimp only
    omega
  · rw [here]
    dsimp only
    omega
  · rw [here]
    dsimp only
    omega

theorem reached_iff (int : n < 2 ^ 31) : w.Reached n ↔ w.count.toNat ≤ n := by
  rw [Window.Reached]
  omega

theorem Window.Passed.reached (passed : w.Passed i) : w.Reached i := le_of_lt passed

end Put

/-! ## Whatever holds while strings are printed -/

/-- A property of the reply, and of the strings that have been printed so far of all of them, that
every string keeps, and that holds of all strings when it is time to stop. -/
structure Mode (w : Window) (all : List (List UInt8)) (P : List (List UInt8) → Out → Prop) :
    Prop where
  int : ∀ {ps out}, P ps out → IsInt out.n
  put : ∀ {ps src rest out}, ps ++ src.getD [] :: rest = all → P ps out →
    ∃ out', Out.put w src out = some out' ∧ P (ps ++ [src.getD []]) out'
  stop : ∀ {ps more rest out}, ps ++ (more ++ rest) = all → P ps out → w.Reached out.n →
    P (ps ++ more) out

section Printers

variable {w : Window} {all : List (List UInt8)} {P P' P'' : List (List UInt8) → Out → Prop}
  {ps rest : List (List UInt8)} {out : Out}

theorem pieces_cons {src : Option (List UInt8)} {srcs : List (Option (List UInt8))} :
    pieces (src :: srcs) = src.getD [] :: pieces srcs := rfl

theorem Mode.putAll (mode : Mode w all P) {srcs : List (Option (List UInt8))}
    (is : ps ++ (pieces srcs ++ rest) = all) (holds : P ps out) :
    ∃ out', out.putAll w srcs = some out' ∧ P (ps ++ pieces srcs) out' := by
  induction srcs generalizing ps out with
  | nil => exact ⟨out, rfl, by rwa [pieces, List.map_nil, List.append_nil]⟩
  | cons src srcs ih =>
      rw [pieces_cons, List.cons_append] at is
      obtain ⟨out', put, holds⟩ := mode.put is holds
      obtain ⟨out'', more, holds⟩ := @ih (ps ++ [src.getD []]) out' (by simpa using is) holds
      refine ⟨out'', ?_, by simpa [pieces_cons] using holds⟩
      rw [Out.putAll, put]
      exact more

theorem Mode.printMailaddr (mode : Mode w all P) {mbList : List Mailbox}
    (is : ps ++ (mbList.map (·.line) ++ rest) = all) (holds : P ps out) :
    ∃ out', Mboxfs.printMailaddr w mbList out = some out' ∧
      P (ps ++ mbList.map (·.line)) out' := by
  induction mbList generalizing ps out with
  | nil => exact ⟨out, rfl, by rwa [List.map_nil, List.append_nil]⟩
  | cons mbox mbList ih =>
      rw [List.map_cons, List.cons_append] at is
      obtain ⟨out', put, holds⟩ := @Mode.put w all P mode ps (some mbox.line) _ out is holds
      have is' : ps ++ [mbox.line] ++ (mbList.map (·.line) ++ rest) = all := by simpa using is
      rw [Mboxfs.printMailaddr, put]
      simp only [Option.bind_eq_bind, Option.bind_some]
      by_cases reached : w.Reached out'.n
      · rw [if_pos reached]
        have holds' := mode.stop is' holds reached
        exact ⟨out', rfl, by simpa using holds'⟩
      · rw [if_neg reached]
        obtain ⟨out'', more, holds⟩ := ih is' holds
        exact ⟨out'', more, by simpa using holds⟩

theorem Mode.printAddress (mode : Mode w all P) {addr : Address} (printable : addr.Printable)
    (is : ps ++ (addr.pieces ++ rest) = all) (holds : P ps out) :
    ∃ out', Mboxfs.printAddress w out addr = some out' ∧ P (ps ++ addr.pieces) out' := by
  cases addr with
  | error => exact ⟨out, rfl, by rwa [Address.pieces, List.append_nil]⟩
  | group grpMbList =>
      obtain rfl : grpMbList = [] := printable
      exact ⟨out, rfl, by rwa [Address.pieces, List.append_nil]⟩
  | mailbox adMailbox => exact @Mode.put w all P mode ps (some adMailbox.line) rest out is holds

theorem Mode.printMailaddrlist (mode : Mode w all P) {adList : List Address}
    (printable : ∀ addr ∈ adList, addr.Printable)
    (is : ps ++ (adList.flatMap (·.pieces) ++ rest) = all) (holds : P ps out) :
    ∃ out', Mboxfs.printMailaddrlist w adList out = some out' ∧
      P (ps ++ adList.flatMap (·.pieces)) out' := by
  induction adList generalizing ps out with
  | nil => exact ⟨out, rfl, by rwa [List.flatMap_nil, List.append_nil]⟩
  | cons addr adList ih =>
      rw [List.flatMap_cons, List.append_assoc] at is
      obtain ⟨first, others⟩ := List.forall_mem_cons.mp printable
      obtain ⟨out', put, holds⟩ := mode.printAddress first is holds
      rw [← List.append_assoc] at is
      rw [Mboxfs.printMailaddrlist, put, List.flatMap_cons, ← List.append_assoc]
      simp only [Option.bind_eq_bind, Option.bind_some]
      by_cases passed : w.Passed out'.n
      · rw [if_pos passed]
        exact ⟨out', rfl, mode.stop is holds passed.reached⟩
      · rw [if_neg passed]
        exact ih others is holds

/-- `field_read` prints all strings of a field. -/
theorem Mode.fieldRead {fld : Field} (mode : Mode w fld.pieces P) (printable : fld.Printable)
    (start : P [] .start) : ∃ out, Mboxfs.fieldRead w fld = some out ∧ P fld.pieces out := by
  cases fld with
  | fldSubject sbjValue =>
      exact @Mode.put w _ P mode [] (sbjValue.map (·.bytes)) [] .start rfl start
  | fldFrom frmMbList =>
      exact @Mode.printMailaddr w _ P [] [] .start mode frmMbList (List.append_nil _) start
  | fldTo adList | fldCc adList | fldReplyTo adList =>
      exact @Mode.printMailaddrlist w _ P [] [] .start mode adList printable (List.append_nil _)
        start
  | fldOrigDate date dtZone =>
      exact @Mode.putAll w _ P [] [] .start mode _ (List.append_nil _) start
  | other => exact ⟨.start, rfl, start⟩

/-- The strings of the parameters of a content type. -/
def parameterPieces (ctParameters : List Parameter) : List (List UInt8) :=
  ctParameters.flatMap fun mp => pieces (some (lit ";") :: mp.strings)

theorem Mode.printParameters (mode : Mode w all P) {ctParameters : List Parameter}
    (is : ps ++ (parameterPieces ctParameters ++ rest) = all) (holds : P ps out) :
    ∃ out', Mboxfs.printParameters w ctParameters out = some out' ∧
      P (ps ++ parameterPieces ctParameters) out' := by
  induction ctParameters generalizing ps out with
  | nil => exact ⟨out, rfl, by rwa [parameterPieces, List.flatMap_nil, List.append_nil]⟩
  | cons mp ctParameters ih =>
      have split : parameterPieces (mp :: ctParameters) =
          pieces (some (lit ";") :: mp.strings) ++ parameterPieces ctParameters :=
        List.flatMap_cons
      rw [split, List.append_assoc] at is
      obtain ⟨out', put, holds⟩ := mode.putAll is holds
      rw [← List.append_assoc] at is
      rw [Mboxfs.printParameters, put, split, ← List.append_assoc]
      simp only [Option.bind_eq_bind, Option.bind_some]
      by_cases reached : w.Reached out'.n
      · rw [if_pos reached]
        exact ⟨out', rfl, mode.stop is holds reached⟩
      · rw [if_neg reached]
        exact ih is holds

theorem Mode.printContentType (mode : Mode w all P) {cnt : Content} {text : List UInt8}
    (kind : cnt.ctType.text = some text) (printable : cnt.Printable)
    (is : ps ++ (cnt.pieces ++ rest) = all) (holds : P ps out) :
    ∃ out', Mboxfs.printContentType w cnt out = some out' ∧ P (ps ++ cnt.pieces) out' := by
  have split : cnt.pieces = snprintf 64 (text ++ lit "/" ++ cnt.ctSubtype.bytes) ::
      parameterPieces cnt.ctParameters := by
    rw [Content.pieces, kind]
    rfl
  rw [split, List.cons_append] at is
  obtain ⟨out', put, holds⟩ := @Mode.put w all P mode ps
    (some (snprintf 64 (text ++ lit "/" ++ cnt.ctSubtype.bytes))) _ out is holds
  obtain ⟨out'', more, holds⟩ := @Mode.printParameters w all P _ rest out' mode cnt.ctParameters
    (by simpa using is) holds
  refine ⟨out'', ?_, by simpa [split] using holds⟩
  rw [Mboxfs.printContentType, kind]
  dsimp only
  rw [if_neg (not_lt.mpr (printable text kind)), put]
  exact more

/-- `type_read` prints all strings of a content type. -/
theorem Mode.typeRead {cnt : Content} (mode : Mode w cnt.pieces P) (printable : cnt.Printable)
    (start : P [] .start) : ∃ out, Mboxfs.typeRead w cnt = some out ∧ P cnt.pieces out := by
  cases kind : cnt.ctType.text with
  | none =>
      refine ⟨.start, ?_, ?_⟩
      · rw [Mboxfs.typeRead, Mboxfs.printContentType, kind]
        rfl
      · rw [Content.pieces, kind]
        exact start
  | some text =>
      exact @Mode.printContentType w _ P [] [] .start mode cnt text kind printable
        (List.append_nil _) start

/-! ### Headers -/

/-- What a printer that counts from the start of the text returns is added to the count before. -/
def Nests (P P' : List (List UInt8) → Out → Prop) : Prop :=
  ∀ ps ps' out printed, P ps out → P ps' printed →
    IsInt (out.n + printed.n) ∧ P' ps' ⟨printed.data, out.n + printed.n⟩

theorem Nests.nested (nests : Nests P P') {print : Out → Option Out} {ps' : List (List UInt8)}
    (holds : P ps out) (printed : ∃ out', print out = some out' ∧ P ps' out') :
    ∃ out', out.nested print = some out' ∧ P' ps' out' := by
  obtain ⟨out', is, holds'⟩ := printed
  obtain ⟨int, nested⟩ := nests ps ps' out out' holds holds'
  refine ⟨_, ?_, nested⟩
  rw [Out.nested, is]
  simp only [Option.bind_eq_bind, Option.bind_some]
  exact if_pos int

/-- A printer that returns 0. -/
theorem nested_zero {print : Out → Option Out} (int : IsInt out.n)
    (is : print out = some { out with n := 0 }) : out.nested print = some out := by
  rw [Out.nested, is]
  simp only [Option.bind_eq_bind, Option.bind_some, add_zero]
  exact if_pos int

theorem Mode.nestedContent (mode : Mode w all P) (weak : ∀ ps out, P ps out → P' ps out)
    {cnt : Content} (nests : cnt.ctType.text ≠ none → Nests P P') (printable : cnt.Printable)
    (is : ps ++ (cnt.pieces ++ rest) = all) (holds : P ps out) :
    ∃ out', out.nested (Mboxfs.printContentType w cnt) = some out' ∧
      P' (ps ++ cnt.pieces) out' := by
  cases kind : cnt.ctType.text with
  | none =>
      refine ⟨out, nested_zero (mode.int holds) ?_, ?_⟩
      · rw [Mboxfs.printContentType, kind]
      · rw [Content.pieces, kind, List.append_nil]
        exact weak ps out holds
  | some text =>
      rw [kind] at nests
      exact (nests (Option.some_ne_none _)).nested holds
        (mode.printContentType kind printable is holds)

theorem Mode.printMimeField (mode : Mode w all P) (weak : ∀ ps out, P ps out → P' ps out)
    {fld : MimeField} (nests : ¬ fld.Flat → Nests P P') (printable : fld.Printable)
    (is : ps ++ (fld.pieces ++ rest) = all) (holds : P ps out) :
    ∃ out', Mboxfs.printMimeField w out fld = some out' ∧ P' (ps ++ fld.pieces) out' := by
  cases fld with
  | type fldContent =>
      obtain ⟨out', put, holds⟩ := @Mode.put w all P mode ps (some (lit "Content-Type: ")) _ out is
        holds
      obtain ⟨out'', nested, holds⟩ := mode.nestedContent weak (fun _ => nests id) printable
        (by simpa [MimeField.pieces] using is) holds
      refine ⟨out'', ?_, by simpa [MimeField.pieces] using holds⟩
      rw [Mboxfs.printMimeField, put]
      exact nested
  | transferEncoding fldEncoding =>
      obtain ⟨out', put, holds⟩ := @Mode.put w all P mode ps (some (lit "Transfer-Encoding: ")) _
        out is holds
      obtain ⟨out'', nested, holds⟩ := (nests id).nested holds (@Mode.put w all P mode _
        fldEncoding.string rest out' (by simpa [MimeField.pieces, pieces] using is) holds)
      refine ⟨out'', ?_, by simpa [MimeField.pieces, pieces] using holds⟩
      rw [Mboxfs.printMimeField, put]
      exact nested
  | id fldId | description fldDescription | version fldVersion =>
      obtain ⟨out', put, holds⟩ := mode.putAll is holds
      exact ⟨out', put, weak _ _ holds⟩
  | disposition fldDisposition =>
      obtain ⟨out', put, holds⟩ := @Mode.put w all P mode ps (some (lit "Content-Disposition: ")) _
        out is holds
      obtain ⟨out'', nested, holds⟩ := (nests id).nested holds (@Mode.putAll w all P _ rest out'
        mode fldDisposition.strings (by simpa [MimeField.pieces, pieces] using is) holds)
      refine ⟨out'', ?_, by simpa [MimeField.pieces, pieces] using holds⟩
      rw [Mboxfs.printMimeField, put]
      exact nested
  | language =>
      obtain ⟨out', put, holds⟩ := @Mode.put w all P mode ps (some (lit "Language: ")) _ out is
        holds
      refine ⟨out', ?_, weak _ _ holds⟩
      rw [Mboxfs.printMimeField, put]
      exact @nested_zero out' printLanguage (mode.int holds) rfl
  | other => exact ⟨out, rfl, by simpa [MimeField.pieces] using weak _ _ holds⟩

theorem fieldLines_cons {fld : MimeField} {fldList : List MimeField} :
    fieldLines (fld :: fldList) = fld.pieces ++ lit "\n" :: fieldLines fldList := by
  rw [fieldLines, List.flatMap_cons, List.append_assoc]
  rfl

/-- The loop of `mimeheader_read`: it has seen whether there is a field for the content type, or it
has come to the end of the window. -/
theorem Mode.printMimeFields (mode : Mode w all P) (mode' : Mode w all P')
    (weak : ∀ ps out, P ps out → P' ps out)
    (back : ∀ ps out, P' ps out → ¬ w.Reached out.n → P ps out) {fldList : List MimeField}
    (nests : ∀ fld ∈ fldList, ¬ fld.Flat → Nests P P')
    (printable : ∀ fld ∈ fldList, fld.Printable) (ct : Bool)
    (is : ps ++ (fieldLines fldList ++ rest) = all) (holds : P ps out) :
    ∃ out' ct', Mboxfs.printMimeFields w fldList ct out = some (out', ct') ∧
      P' (ps ++ fieldLines fldList) out' ∧
      (ct' = (ct || fldList.any (·.isType)) ∨
        w.Reached out'.n ∧ (ct' = true → (ct || fldList.any (·.isType)) = true)) := by
  induction fldList generalizing ps out ct with
  | nil => exact ⟨out, ct, rfl, by simpa [fieldLines] using weak _ _ holds, .inl (by simp)⟩
  | cons fld fldList ih =>
      obtain ⟨nests, nests'⟩ := List.forall_mem_cons.mp nests
      obtain ⟨first, others⟩ := List.forall_mem_cons.mp printable
      rw [fieldLines_cons, List.append_assoc] at is
      obtain ⟨out', line, holds⟩ := mode.printMimeField weak nests first is holds
      rw [← List.append_assoc, List.cons_append] at is
      obtain ⟨out'', put, holds⟩ := @Mode.put w all P' mode' _ (some (lit "\n")) _ out' is holds
      have is' : ps ++ fld.pieces ++ [lit "\n"] ++ (fieldLines fldList ++ rest) = all := by
        simpa using is
      rw [Mboxfs.printMimeFields, line]
      simp only [Option.bind_eq_bind, Option.bind_some, put]
      by_cases reached : w.Reached out''.n
      · rw [if_pos reached]
        refine ⟨out'', _, rfl, ?_, .inr ⟨reached, fun seen => ?_⟩⟩
        · have holds' := mode'.stop is' holds reached
          simpa [fieldLines_cons] using holds'
        · rw [List.any_cons, ← Bool.or_assoc, seen, Bool.true_or]
      · rw [if_neg reached]
        obtain ⟨last, ct', more, holds, seen⟩ := ih nests' others (ct || fld.isType) is'
          (back _ _ holds reached)
        refine ⟨last, ct', more, by simpa [fieldLines_cons] using holds, ?_⟩
        rwa [List.any_cons, ← Bool.or_assoc]

theorem Mode.printLastLine (mode : Mode w all P) (mode' : Mode w all P')
    (weak : ∀ ps out, P ps out → P' ps out) {cnt : Content}
    (nests : cnt.ctType.text ≠ none → Nests P P') (printable : cnt.Printable)
    (is : ps ++ (lastLine cnt ++ rest) = all) (holds : P ps out) :
    ∃ out', Mboxfs.printLastLine w cnt out = some out' ∧ P' (ps ++ lastLine cnt) out' := by
  obtain ⟨out', put, holds⟩ := @Mode.put w all P mode ps (some (lit "Content-Type: ")) _ out is
    holds
  obtain ⟨out'', nested, holds⟩ := @Mode.nestedContent w all P P' _ (lit "\n" :: rest) out' mode
    weak cnt nests printable (by simpa [lastLine] using is) holds
  obtain ⟨last, put', holds⟩ := @Mode.put w all P' mode' _ (some (lit "\n")) rest out''
    (by simpa [lastLine] using is) holds
  refine ⟨last, ?_, by simpa [lastLine] using holds⟩
  rw [Mboxfs.printLastLine, put]
  simp only [Option.bind_eq_bind, Option.bind_some, nested, put']

/-! ### What is not printed -/

theorem printContentType_none {cnt : Content} (bad : ¬ cnt.Printable) :
    printContentType w cnt out = none := by
  rw [Content.Printable] at bad
  push Not at bad
  obtain ⟨text, kind, long⟩ := bad
  rw [printContentType, kind]
  exact if_pos long

theorem nested_none {print : Out → Option Out} (is : print out = none) :
    out.nested print = none := by
  rw [Out.nested, is]
  rfl

theorem printLastLine_none {cnt : Content} (bad : ¬ cnt.Printable) :
    printLastLine w cnt out = none := by
  rw [printLastLine]
  cases out.put w (some (lit "Content-Type: ")) with
  | none => rfl
  | some out' =>
      simp only [Option.bind_eq_bind, Option.bind_some, nested_none (printContentType_none bad),
        Option.bind_none]

theorem Mode.printMailaddrlist_none (mode : Mode w all P)
    (never : ∀ ps out, P ps out → ¬ w.Reached out.n) {adList : List Address}
    (bad : ¬ ∀ addr ∈ adList, addr.Printable)
    (is : ps ++ (adList.flatMap (·.pieces) ++ rest) = all) (holds : P ps out) :
    Mboxfs.printMailaddrlist w adList out = none := by
  induction adList generalizing ps out with
  | nil => exact absurd (fun _ none => by cases none) bad
  | cons addr adList ih =>
      rw [List.flatMap_cons, List.append_assoc] at is
      rw [Mboxfs.printMailaddrlist]
      by_cases first : addr.Printable
      · obtain ⟨out', put, holds⟩ := mode.printAddress first is holds
        have passed : ¬ w.Passed out'.n := fun passed => never _ _ holds passed.reached
        simp only [put, Option.bind_eq_bind, Option.bind_some]
        rw [if_neg passed]
        refine ih (fun others => bad (List.forall_mem_cons.mpr ⟨first, others⟩)) ?_ holds
        rwa [List.append_assoc]
      · have fails : Mboxfs.printAddress w out addr = none := by
          cases addr with
          | error | mailbox _ => exact absurd trivial first
          | group grpMbList =>
              cases grpMbList with
              | nil => exact absurd rfl first
              | cons _ _ => rfl
        rw [fails]
        rfl

theorem Mode.fieldRead_none {fld : Field} (mode : Mode w fld.pieces P)
    (never : ∀ ps out, P ps out → ¬ w.Reached out.n) (bad : ¬ fld.Printable)
    (start : P [] .start) : Mboxfs.fieldRead w fld = none := by
  cases fld with
  | fldSubject _ | fldFrom _ | fldOrigDate _ _ | other => exact (bad trivial).elim
  | fldTo adList | fldCc adList | fldReplyTo adList =>
      exact @Mode.printMailaddrlist_none w _ P [] [] .start mode never adList bad
        (List.append_nil _) start

theorem Mode.printMimeFields_none (mode : Mode w all P)
    (never : ∀ ps out, P ps out → ¬ w.Reached out.n) (nests : Nests P P)
    {fldList : List MimeField} (bad : ¬ ∀ fld ∈ fldList, fld.Printable) (ct : Bool)
    (is : ps ++ (fieldLines fldList ++ rest) = all) (holds : P ps out) :
    Mboxfs.printMimeFields w fldList ct out = none := by
  induction fldList generalizing ps out ct with
  | nil => exact absurd (fun _ none => by cases none) bad
  | cons fld fldList ih =>
      rw [fieldLines_cons, List.append_assoc] at is
      rw [Mboxfs.printMimeFields]
      by_cases first : fld.Printable
      · obtain ⟨out', line, holds⟩ := mode.printMimeField (fun _ _ holds => holds)
          (fun _ => nests) first is holds
        rw [← List.append_assoc, List.cons_append] at is
        obtain ⟨out'', put, holds⟩ := @Mode.put w all P mode _ (some (lit "\n")) _ out' is holds
        simp only [line, Option.bind_eq_bind, Option.bind_some, put]
        rw [if_neg (never _ _ holds)]
        refine ih (fun others => bad (List.forall_mem_cons.mpr ⟨first, others⟩)) _ ?_ holds
        simpa using is
      · cases fld with
        | type fldContent =>
            rw [Mboxfs.printMimeField]
            cases out.put w (some (lit "Content-Type: ")) with
            | none => rfl
            | some out' =>
                simp only [Option.bind_eq_bind, Option.bind_some,
                  nested_none (printContentType_none first), Option.bind_none]
        | transferEncoding _ | id _ | description _ | version _ | disposition _ | language
        | other => exact absurd trivial first

end Printers

/-! ## Three properties that are kept -/

section Window

variable {w : Window} {all : List (List UInt8)} {text : List UInt8} {B : ℕ}

/-- The length of what a window of `c` bytes at `o` has of a text, after one string more. -/
theorem window_length {l m o c : ℕ} (straight : c = 0 ∨ l + m ≤ o ∨ l = 0 ∨ m = 0 ∨ o = 0) :
    min (l - o) c + (min (min (l - o) c + m) (o + c) - max (min (l - o) c) o) =
      min (l + m - o) c := by
  rcases straight with rfl | before | rfl | rfl | rfl
  · simp
  · have first : l - o = 0 := by omega
    have none : min m (o + c) - o = 0 := by omega
    simp [first, before, none]
  · simp only [Nat.zero_sub, Nat.zero_min, Nat.zero_add, Nat.zero_max]
    rw [← Nat.sub_min_sub_right, Nat.add_sub_cancel_left]
  · have none : min (min (l - o) c) (o + c) ≤ max (min (l - o) c) o :=
      (Nat.min_le_left _ _).trans (Nat.le_max_left _ _)
    rw [Nat.add_zero, Nat.add_zero, Nat.sub_eq_zero_of_le none, Nat.add_zero]
  · simp only [Nat.sub_zero, Nat.zero_add, Nat.max_zero]
    omega

/-- One string more in a window. -/
theorem put_window {src : Option (List UInt8)} (small : w.Small)
    (int : (text ++ src.getD []).length < 2 ^ 31)
    (straight : w.count.toNat = 0 ∨ (text ++ src.getD []).length ≤ w.offset.toNat ∨
      (text = [] ∨ src.getD [] = []) ∨ w.offset.toNat = 0) :
    (window w text).put w src = some (window w (text ++ src.getD [])) := by
  have here : (window w text).n = (min (text.length - w.offset.toNat) w.count.toNat : ℕ) := rfl
  rw [List.length_append] at int straight
  have straight' : w.count.toNat = 0 ∨ text.length + (src.getD []).length ≤ w.offset.toNat ∨
      text.length = 0 ∨ (src.getD []).length = 0 ∨ w.offset.toNat = 0 := by
    rcases straight with none | before | (first | last) | start
    · exact .inl none
    · exact .inr (.inl before)
    · exact .inr (.inr (.inl (List.length_eq_zero_iff.mpr first)))
    · exact .inr (.inr (.inr (.inl (List.length_eq_zero_iff.mpr last))))
    · exact .inr (.inr (.inr (.inr start)))
  rw [put_eq small here (by omega)]
  refine congrArg some (congrArg₂ Out.mk (funext fun k => ?_) ?_)
  · rw [List.length_append]
    by_cases new : max (min (text.length - w.offset.toNat) w.count.toNat) w.offset.toNat ≤
        w.offset.toNat + k ∧ w.offset.toNat + k <
          min (min (text.length - w.offset.toNat) w.count.toNat + (src.getD []).length)
            (w.offset.toNat + w.count.toNat)
    · have whole : min (text.length - w.offset.toNat) w.count.toNat = text.length := by
        obtain ⟨low, high⟩ := new
        have behind := (Nat.le_max_left _ _).trans low
        obtain ⟨within, inside⟩ := Nat.lt_min.mp high
        omega
      rw [if_pos new, whole, if_pos (by omega), List.getElem?_append_right (by omega)]
    · rw [if_neg new]
      by_cases old : k < min (text.length - w.offset.toNat) w.count.toNat
      · have there : (window w text).data k = text[w.offset.toNat + k]? := if_pos old
        have more : k < min (text.length + (src.getD []).length - w.offset.toNat) w.count.toNat :=
          old.trans_le (min_le_min_right _ (by omega))
        rw [there, if_pos more, List.getElem?_append_left
          (Nat.lt_sub_iff_add_lt'.mp (old.trans_le (Nat.min_le_left _ _)))]
      · have there : (window w text).data k = none := if_neg old
        rw [there, if_neg (by omega)]
  · rw [List.length_append, ← window_length straight']

/-- At the end of the window the rest of the text does not matter. -/
theorem window_append {more : List UInt8}
    (full : w.count.toNat ≤ min (text.length - w.offset.toNat) w.count.toNat) :
    window w (text ++ more) = window w text := by
  refine congrArg₂ Out.mk (funext fun k => ?_) ?_
  · rw [List.length_append]
    by_cases inside : k < w.count.toNat
    · rw [if_pos (by omega), if_pos (by omega), List.getElem?_append_left (by omega)]
    · rw [if_neg (by omega), if_neg (by omega)]
  · rw [List.length_append]
    omega

/-- Of two parts of a list of strings of which one is not empty at most, one has no text. -/
theorem AtMostOne.split {ps rest : List (List UInt8)} {s : List UInt8}
    (one : AtMostOne (ps ++ s :: rest)) : ps.flatten = [] ∨ s = [] := by
  by_contra both
  obtain ⟨front, here⟩ := not_or.mp both
  obtain ⟨p, member, some⟩ : ∃ p ∈ ps, p ≠ [] := by
    by_contra none
    push Not at none
    exact front (List.flatten_eq_nil_iff.mpr none)
  have first : 0 < (ps.filter (· ≠ [])).length :=
    List.length_pos_of_mem (List.mem_filter.mpr ⟨member, decide_eq_true some⟩)
  rw [AtMostOne, List.filter_append, List.filter_cons_of_pos (by simpa using here),
    List.length_append, List.length_cons] at one
  omega

/-- The reply has the window of what has been printed. -/
theorem mode_window (small : w.Small) (int : all.flatten.length < 2 ^ 31)
    (straight : w.count.toNat = 0 ∨ all.flatten.length ≤ w.offset.toNat ∨ AtMostOne all ∨
      w.offset.toNat = 0) :
    Mode w all fun ps out => out = window w ps.flatten where
  int := by
    rintro ps out rfl
    have small' : w.offset.toNat + w.count.toNat < 2 ^ 31 := small
    have here : (window w ps.flatten).n =
      (min (ps.flatten.length - w.offset.toNat) w.count.toNat : ℕ) := rfl
    rw [here]
    exact ⟨by omega, by omega⟩
  put := by
    rintro ps src rest out rfl rfl
    have joined : (ps ++ [src.getD []]).flatten = ps.flatten ++ src.getD [] := by simp
    have length : (ps ++ src.getD [] :: rest).flatten.length =
        (ps.flatten ++ src.getD []).length + rest.flatten.length := by
      simp [Nat.add_assoc]
    rw [length] at int straight
    refine ⟨_, put_window small (by omega) ?_, by rw [joined]⟩
    rcases straight with none | before | one | start
    · exact .inl none
    · exact .inr (.inl (by omega))
    · exact .inr (.inr (.inl one.split))
    · exact .inr (.inr (.inr start))
  stop := by
    rintro ps more rest out - rfl reached
    have small' : w.offset.toNat + w.count.toNat < 2 ^ 31 := small
    rw [List.flatten_append, window_append]
    exact (reached_iff (by omega)).mp reached

/-- The window is behind the text, or empty. -/
theorem mode_start (small : w.Small) (int : ∀ s ∈ all, s.length < 2 ^ 31)
    (skip : w.count.toNat = 0 ∨ ∀ s ∈ all, s.length ≤ w.offset.toNat) :
    Mode w all fun _ out => out = .start where
  int := by
    rintro - out rfl
    decide
  put := by
    rintro ps src rest out rfl rfl
    have member : src.getD [] ∈ ps ++ src.getD [] :: rest := by simp
    have short := int _ member
    have small' : w.offset.toNat + w.count.toNat < 2 ^ 31 := small
    have skips : min (0 + (src.getD []).length) (w.offset.toNat + w.count.toNat) ≤
        max 0 w.offset.toNat := by
      rcases skip with none | before
      · omega
      · have := before _ member
        omega
    refine ⟨_, @put_eq w .start src 0 small rfl (by omega), ?_⟩
    refine congrArg₂ Out.mk (funext fun k => ?_) ?_
    · rw [if_neg (by omega)]
      rfl
    · rw [Nat.sub_eq_zero_of_le skips]
      rfl
  stop := by
    rintro ps more rest out - rfl -
    rfl

theorem nests_start : Nests (fun _ out => out = Out.start) fun _ out => out = .start := by
  rintro ps ps' out printed rfl rfl
  exact ⟨by decide, rfl⟩

theorem not_reached_start (some : 0 < w.count.toNat) : ∀ (_ : List (List UInt8)) out,
    out = Out.start → ¬ w.Reached out.n := by
  rintro - out rfl reached
  exact absurd ((@reached_iff w 0 (by decide)).mp reached) (by omega)

/-- At the start of the text `n` is not less than it should be. -/
def Grown (w : Window) (B : ℕ) (ps : List (List UInt8)) (out : Out) : Prop :=
  ∃ n : ℕ, out.n = n ∧ min ps.flatten.length w.count.toNat ≤ n ∧ n ≤ B

theorem mode_grown (small : w.Small) (start : w.offset.toNat = 0) (least : w.count.toNat ≤ B)
    (most : B ≤ 2 ^ 30) (short : ∀ s ∈ all, s.length < 2 ^ 28) : Mode w all (Grown w B) where
  int := by
    rintro ps out ⟨n, is, -, below⟩
    rw [is]
    exact ⟨by omega, by omega⟩
  put := by
    rintro ps src rest out rfl ⟨n, is, above, below⟩
    have member : src.getD [] ∈ ps ++ src.getD [] :: rest := by simp
    have short' := short _ member
    have length : (ps ++ [src.getD []]).flatten.length =
        ps.flatten.length + (src.getD []).length := by
      simp
    refine ⟨_, put_eq small is (by omega), _, rfl, ?_, ?_⟩
    · rw [length]
      omega
    · omega
  stop := by
    rintro ps more rest out - ⟨n, is, -, below⟩ reached
    rw [is] at reached
    have full := (reached_iff (by omega)).mp reached
    exact ⟨n, is, by omega, below⟩

theorem nests_grown (most : 2 * B ≤ 2 ^ 30) : Nests (Grown w B) (Grown w (2 * B)) := by
  rintro ps ps' out printed ⟨n, is, -, below⟩ ⟨n', is', above', below'⟩
  rw [is, is']
  exact ⟨⟨by omega, by omega⟩, n + n', by simp, by omega, by omega⟩

theorem Grown.le {B' : ℕ} (le : B ≤ B') : ∀ ps out, Grown w B ps out → Grown w B' ps out := by
  rintro ps out ⟨n, is, above, below⟩
  exact ⟨n, is, above, below.trans le⟩

/-- As long as it is not time to stop, `n` is in the window. -/
theorem Grown.back (most : B ≤ 2 ^ 30) : ∀ ps out, Grown w B ps out → ¬ w.Reached out.n →
    Grown w w.count.toNat ps out := by
  rintro ps out ⟨n, is, above, below⟩ inside
  rw [is, reached_iff (by omega)] at inside
  exact ⟨n, is, above, by omega⟩

theorem grown_start : Grown w B [] .start := ⟨0, rfl, by simp, Nat.zero_le _⟩

end Window

/-! ## The theorem -/

section Reads

variable {source : Source} {w : Window} {fldList : List MimeField} {cnt : Content}
  {text : List UInt8}

theorem window_nil : window w [] = .start := by
  refine congrArg₂ Out.mk (funext fun k => ?_) ?_
  · rw [if_neg (by simp)]
  · simp

/-- Behind the text there is nothing. -/
theorem window_eq_start (skip : w.count.toNat = 0 ∨ text.length ≤ w.offset.toNat) :
    window w text = .start := by
  refine congrArg₂ Out.mk (funext fun k => ?_) ?_
  · rw [if_neg (by omega)]
  · have none : min (text.length - w.offset.toNat) w.count.toNat = 0 := by omega
    rw [none]
    rfl

theorem length_le_flatten {all : List (List UInt8)} {s : List UInt8} (member : s ∈ all) :
    s.length ≤ all.flatten.length := (List.sublist_flatten_of_mem member).length_le

theorem AtMostOne.sublist {all some : List (List UInt8)} (one : AtMostOne all)
    (part : some.Sublist all) : AtMostOne some := (part.filter _).length_le.trans one

/-- Every header has the start and the end of a line. -/
theorem not_atMostOne_header : ¬ AtMostOne (Source.mimeheader fldList cnt).pieces := by
  intro one
  have two : ∀ cnt, [lit "Content-Type: ", lit "\n"].Sublist (lastLine cnt) := fun cnt =>
    (List.sublist_append_right _ _).cons_cons _
  have part : [lit "Content-Type: ", lit "\n"].Sublist
      (Source.mimeheader fldList cnt).pieces := by
    rw [Source.pieces]
    split_ifs with seen
    · obtain ⟨fld, member, type⟩ := List.any_eq_true.mp seen
      cases fld with
      | type fldContent =>
          rw [List.append_nil]
          refine (two fldContent).trans (List.sublist_flatten_of_mem ?_)
          exact List.mem_map_of_mem member
      | transferEncoding _ | id _ | description _ | version _ | disposition _ | language
      | other => cases type
    · exact (two cnt).trans (List.sublist_append_right _ _)
  exact absurd (one.sublist part) (by decide)

/-- A window behind all strings of a header: nothing is copied of the fields. -/
theorem printMimeFields_skip (small : w.Small) (some : 0 < w.count.toNat)
    (int : ∀ s ∈ (Source.mimeheader fldList cnt).pieces, s.length < 2 ^ 31)
    (skip : ∀ s ∈ (Source.mimeheader fldList cnt).pieces, s.length ≤ w.offset.toNat)
    (printable : ∀ fld ∈ fldList, fld.Printable) :
    printMimeFields w fldList false .start =
      Option.some (.start, fldList.any (·.isType)) := by
  have mode := mode_start small int (.inr skip)
  obtain ⟨out, ct, fields, rfl, seen⟩ := @Mode.printMimeFields w _ _ _ [] _ .start mode mode
    (fun _ _ holds => holds) (fun _ _ holds _ => holds) fldList (fun _ _ _ => nests_start) printable
    false rfl rfl
  have seen' : ct = fldList.any (·.isType) := by
    rcases seen with seen | reached
    · exact seen
    · exact absurd reached.1 (not_reached_start some [] _ rfl)
  rw [fields, seen']

theorem mimeheaderRead_skip (small : w.Small) (some : 0 < w.count.toNat)
    (int : ∀ s ∈ (Source.mimeheader fldList cnt).pieces, s.length < 2 ^ 31)
    (skip : ∀ s ∈ (Source.mimeheader fldList cnt).pieces, s.length ≤ w.offset.toNat)
    (printable : ∀ fld ∈ fldList, fld.Printable)
    (last : fldList.any (·.isType) = true ∨ cnt.Printable) :
    mimeheaderRead w fldList cnt = Option.some .start := by
  have mode := mode_start small int (.inr skip)
  rw [mimeheaderRead, printMimeFields_skip small some int skip printable]
  simp only [Option.bind_eq_bind, Option.bind_some]
  split_ifs with type
  · rfl
  · rw [Source.pieces, if_neg type] at mode
    obtain ⟨out', line, rfl⟩ := @Mode.printLastLine w _ _ _ (fieldLines fldList) [] .start mode mode
      (fun _ _ holds => holds) cnt (fun _ => nests_start) (last.resolve_left type) (by simp) rfl
    exact line

theorem mimeheaderRead_of {out out' : Out} {ct : Bool}
    (fields : printMimeFields w fldList false .start = some (out, ct))
    (line : printLastLine w cnt out = some out') :
    mimeheaderRead w fldList cnt = some (if ct then out else out') := by
  rw [mimeheaderRead, fields]
  simp only [Option.bind_eq_bind, Option.bind_some, line]
  cases ct with
  | false => rfl
  | true => rfl

/-- A window in the first line of a list of mailboxes. -/
theorem fieldRead_inside {fld : Field} (small : w.Small) (inside : (Source.field fld).Inside w) :
    fieldRead w fld = some (window w (Source.field fld).text) := by
  have small' : w.offset.toNat + w.count.toNat < 2 ^ 31 := small
  cases fld with
  | fldSubject _ | fldTo _ | fldCc _ | fldReplyTo _ | fldOrigDate _ _ | other => exact inside.elim
  | fldFrom mbList =>
      cases mbList with
      | nil => exact inside.elim
      | cons mbox mbList =>
          have inside' : w.offset.toNat + w.count.toNat ≤ mbox.line.length := inside
          have short : mbox.line.length ≤ 255 := List.length_take_le _ _
          have first := @put_window w [] (some mbox.line) small
            (by rw [List.nil_append, Option.getD_some]; omega) (.inr (.inr (.inl (.inl rfl))))
          rw [window_nil, List.nil_append, Option.getD_some] at first
          have length : (window w mbox.line).n = w.count.toNat := by
            have all : min (mbox.line.length - w.offset.toNat) w.count.toNat = w.count.toNat := by
              omega
            exact congrArg Nat.cast all
          have text : (Source.field (.fldFrom (mbox :: mbList))).text =
              mbox.line ++ (mbList.map (·.line)).flatten := rfl
          rw [fieldRead, printMailaddr, first, text, window_append (by omega)]
          simp only [Option.bind_eq_bind, Option.bind_some]
          exact if_pos (length ▸ (reached_iff (by omega)).mpr le_rfl)

/-- Nothing of a header is returned in an empty window. -/
theorem mimeheaderRead_empty (small : w.Small) (none : w.count.toNat = 0)
    (int : ∀ s ∈ (Source.mimeheader fldList cnt).strings, s.length < 2 ^ 31)
    (printable : (Source.mimeheader fldList cnt).Printable) :
    mimeheaderRead w fldList cnt = some .start := by
  have mode := mode_start small int (.inl none)
  obtain ⟨out, ct, fields, rfl, -⟩ := @Mode.printMimeFields w _ _ _ [] _ .start mode mode
    (fun _ _ holds => holds) (fun _ _ holds _ => holds) fldList (fun _ _ _ => nests_start)
    printable.1 false rfl rfl
  obtain ⟨out', line, rfl⟩ := @Mode.printLastLine w _ _ _ (fieldLines fldList) [] .start mode mode
    (fun _ _ holds => holds) cnt (fun _ => nests_start) printable.2 (by simp [Source.strings]) rfl
  rw [mimeheaderRead_of fields line, ite_self]

/-- No field of a flat header is the one for the content type. -/
theorem any_isType_flat (flat : ∀ fld ∈ fldList, fld.Flat) :
    fldList.any (·.isType) = false := by
  rw [List.any_eq_false]
  intro fld member
  have here := flat fld member
  cases fld with
  | type _ | transferEncoding _ | disposition _ => exact here.elim
  | id _ | description _ | version _ | language | other => exact Bool.false_ne_true

/-- The start of a header in which nothing is nested. -/
theorem mimeheaderRead_flat (small : w.Small) (start : w.offset.toNat = 0)
    (int : (Source.mimeheader fldList cnt).strings.flatten.length < 2 ^ 31)
    (printable : (Source.mimeheader fldList cnt).Printable)
    (flat : (Source.mimeheader fldList cnt).Flat) :
    mimeheaderRead w fldList cnt = some (window w (Source.mimeheader fldList cnt).text) := by
  obtain ⟨flat, kind⟩ := flat
  have untyped := any_isType_flat flat
  have mode := mode_window small int (.inr (.inr (.inr start)))
  obtain ⟨out, ct, fields, rfl, seen⟩ := @Mode.printMimeFields w _ _ _ [] _ .start mode mode
    (fun _ _ holds => holds) (fun _ _ holds _ => holds) fldList
    (fun fld member other => absurd (flat fld member) other) printable.1 false rfl
    window_nil.symm
  have seen' : ct = false := by
    rw [untyped] at seen
    cases ct with
    | false => rfl
    | true => simp at seen
  obtain ⟨out', line, rfl⟩ := @Mode.printLastLine w _ _ _ (fieldLines fldList) [] _ mode mode
    (fun _ _ holds => holds) cnt (fun other => absurd kind other) printable.2
    (by simp [Source.strings]) rfl
  have text' : (Source.mimeheader fldList cnt).text =
      (fieldLines fldList ++ lastLine cnt).flatten := by
    rw [Source.text, Source.pieces, untyped]
    rfl
  rw [mimeheaderRead_of fields line, seen', text']
  exact congrArg some (if_neg Bool.false_ne_true)

/-- The strings that are printed are strings that may be printed. -/
theorem Source.pieces_sublist (source : Source) : source.pieces.Sublist source.strings := by
  cases source with
  | field _ | type _ => exact List.Sublist.refl _
  | mimeheader fldList cnt =>
      rw [pieces, strings]
      refine List.Sublist.append_left ?_ _
      split_ifs
      · exact List.nil_sublist _
      · exact List.Sublist.refl _

/-- A read that returns what it should. -/
theorem Source.Clean.right (clean : source.Clean w) :
    source.read w = some (window w source.text) := by
  obtain ⟨printable, small, int, straight⟩ := clean
  cases source with
  | field fld =>
      rcases straight with inside | straight
      · exact fieldRead_inside small inside
      · have mode := mode_window small int
          (straight.imp_right (Or.imp_right (Or.imp_right And.left)))
        obtain ⟨out, is, rfl⟩ := mode.fieldRead printable window_nil.symm
        exact is
  | type cnt =>
      have mode := mode_window small int
        ((straight.resolve_left id).imp_right (Or.imp_right (Or.imp_right And.left)))
      obtain ⟨out, is, rfl⟩ := mode.typeRead printable window_nil.symm
      exact is
  | mimeheader fldList cnt =>
      have short : ∀ s ∈ (Source.mimeheader fldList cnt).strings, s.length < 2 ^ 31 :=
        fun s member => (length_le_flatten member).trans_lt int
      rcases Nat.eq_zero_or_pos w.count.toNat with none | some
      · rw [window_eq_start (.inl none)]
        exact mimeheaderRead_empty small none short printable
      · rcases straight with inside | none | before | one | ⟨start, flat⟩
        · exact inside.elim
        · omega
        · rw [window_eq_start (.inr before)]
          exact mimeheaderRead_skip small some
            (fun s member => short s ((pieces_sublist _).subset member))
            (fun s member => (length_le_flatten member).trans before) printable.1
            (.inr printable.2)
        · exact absurd one not_atMostOne_header
        · exact mimeheaderRead_flat small start int printable flat

/-! ### All windows -/

/-- The size of the longest string. -/
def longest : List (List UInt8) → ℕ
  | [] => 0
  | s :: strings => max s.length (longest strings)

theorem length_le_longest {all : List (List UInt8)} : ∀ s ∈ all, s.length ≤ longest all := by
  induction all with
  | nil => exact fun _ member => by cases member
  | cons s strings ih =>
      refine List.forall_mem_cons.mpr ⟨le_max_left _ _, fun s' member => ?_⟩
      exact (ih s' member).trans (le_max_right _ _)

theorem longest_lt {all : List (List UInt8)} {b : ℕ} (pos : 0 < b)
    (short : ∀ s ∈ all, s.length < b) : longest all < b := by
  induction all with
  | nil => exact pos
  | cons s strings ih =>
      obtain ⟨first, others⟩ := List.forall_mem_cons.mp short
      exact max_lt first (ih others)

theorem longest_le_flatten (all : List (List UInt8)) : longest all ≤ all.flatten.length := by
  induction all with
  | nil => exact le_rfl
  | cons s strings ih =>
      rw [longest, List.flatten_cons, List.length_append]
      omega

/-- The whole text is longer than each string, unless there is only one. -/
theorem atMostOne_iff (all : List (List UInt8)) :
    AtMostOne all ↔ all.flatten.length ≤ longest all := by
  induction all with
  | nil => exact iff_of_true (by decide) le_rfl
  | cons s strings ih =>
      have most := longest_le_flatten strings
      rw [longest, List.flatten_cons, List.length_append]
      cases s with
      | nil =>
          have same : AtMostOne ([] :: strings) ↔ AtMostOne strings := by
            rw [AtMostOne, List.filter_cons_of_neg (by simp)]
            rfl
          rw [same, ih, List.length_nil]
          omega
      | cons c s =>
          have one : AtMostOne ((c :: s) :: strings) ↔ strings.flatten.length = 0 := by
            rw [AtMostOne, List.filter_cons_of_pos (by simp), List.length_cons,
              List.length_eq_zero_iff, List.flatten_eq_nil_iff]
            simp
          rw [one, List.length_cons]
          omega

/-- A byte behind the longest string. -/
def behind (K : ℕ) : Window := ⟨UInt64.ofNat K, 1⟩

/-- More bytes at the start than the longest string has. -/
def ahead (K : ℕ) : Window := ⟨0, UInt32.ofNat (K + 1)⟩

section

variable {K : ℕ}

theorem offset_behind (tiny : K < 2 ^ 28) : (behind K).offset.toNat = K := by
  exact Nat.mod_eq_of_lt (by omega)

theorem count_ahead (tiny : K < 2 ^ 28) : (ahead K).count.toNat = K + 1 := by
  exact Nat.mod_eq_of_lt (by omega)

theorem small_behind (tiny : K < 2 ^ 28) : (behind K).Small := by
  have offset := offset_behind tiny
  rw [Window.Small, offset]
  change K + 1 < 2 ^ 31
  omega

theorem small_ahead (tiny : K < 2 ^ 28) : (ahead K).Small := by
  have count := count_ahead tiny
  rw [Window.Small, count]
  change 0 + (K + 1) < 2 ^ 31
  omega

/-- If nothing is returned behind the longest string the text is not longer. -/
theorem length_le_of_behind (tiny : K < 2 ^ 28) (is : Out.start = window (behind K) text) :
    text.length ≤ K := by
  have n : (0 : ℤ) = (min (text.length - (behind K).offset.toNat) (behind K).count.toNat : ℕ) :=
    congrArg Out.n is
  rw [offset_behind tiny] at n
  change (0 : ℤ) = (min (text.length - K) 1 : ℕ) at n
  omega

/-- Strings that are longer together are not returned at the start. -/
theorem not_grown_of_le {all : List (List UInt8)} {B : ℕ} (tiny : K < 2 ^ 28)
    (le : text.length ≤ K) (longer : K < all.flatten.length) :
    ¬ Grown (ahead K) B all (window (ahead K) text) := by
  rintro ⟨n, is, above, -⟩
  have n' : (min (text.length - 0) (ahead K).count.toNat : ℕ) = (n : ℤ) := is
  rw [count_ahead tiny] at n' above
  omega

end

section

variable {all : List (List UInt8)}

theorem longest_tiny (short : ∀ s ∈ all, s.length < 2 ^ 28) : longest all < 2 ^ 28 :=
  longest_lt (by decide) short

theorem mode_behind (short : ∀ s ∈ all, s.length < 2 ^ 28) :
    Mode (behind (longest all)) all fun _ out => out = .start := by
  have tiny := longest_tiny short
  refine mode_start (small_behind tiny) (fun s member => (short s member).trans (by decide))
    (.inr fun s member => ?_)
  rw [offset_behind tiny]
  exact length_le_longest s member

/-- A printer whose reads are the windows of one text has only one string. -/
theorem atMostOne_of_windows (short : ∀ s ∈ all, s.length < 2 ^ 28) {read : Window → Option Out}
    (prints : ∀ {w P}, Mode w all P → P [] .start → ∃ out, read w = some out ∧ P all out)
    (windows : ∀ w : Window, w.Small → read w = some (window w text)) : AtMostOne all := by
  have tiny := longest_tiny short
  by_contra two
  rw [atMostOne_iff, not_le] at two
  obtain ⟨out, skipped, rfl⟩ := prints (mode_behind short) rfl
  rw [windows _ (small_behind tiny)] at skipped
  have le := length_le_of_behind tiny (Option.some.inj skipped).symm
  have grows := @mode_grown (ahead (longest all)) all (longest all + 1) (small_ahead tiny) rfl
    (count_ahead tiny).le (by omega) short
  obtain ⟨out, grown, holds⟩ := prints grows grown_start
  rw [windows _ (small_ahead tiny)] at grown
  obtain rfl := Option.some.inj grown
  exact not_grown_of_le tiny le two holds

end

theorem windows_field {fld : Field} (short : ∀ s ∈ fld.pieces, s.length < 2 ^ 28)
    (windows : ∀ w : Window, w.Small → fieldRead w fld = some (window w text)) :
    fld.Printable ∧ AtMostOne fld.pieces := by
  have printable : fld.Printable := by
    by_contra bad
    have none := (mode_behind short).fieldRead_none (not_reached_start Nat.one_pos) bad rfl
    rw [windows _ (small_behind (longest_tiny short))] at none
    cases none
  exact ⟨printable, atMostOne_of_windows short (fun mode => mode.fieldRead printable) windows⟩

theorem windows_type {cnt : Content} (short : ∀ s ∈ cnt.pieces, s.length < 2 ^ 28)
    (windows : ∀ w : Window, w.Small → typeRead w cnt = some (window w text)) :
    cnt.Printable ∧ AtMostOne cnt.pieces := by
  have printable : cnt.Printable := by
    by_contra bad
    have none : typeRead (behind (longest cnt.pieces)) cnt = none := printContentType_none bad
    rw [windows _ (small_behind (longest_tiny short))] at none
    cases none
  exact ⟨printable, atMostOne_of_windows short (fun mode => mode.typeRead printable) windows⟩

/-- The reads of a header are not the windows of one text. -/
theorem not_windows_header
    (short : ∀ s ∈ (Source.mimeheader fldList cnt).strings, s.length < 2 ^ 28)
    (windows : ∀ w : Window, w.Small → mimeheaderRead w fldList cnt = some (window w text)) :
    False := by
  have part := (Source.mimeheader fldList cnt).pieces_sublist
  have short' : ∀ s ∈ (Source.mimeheader fldList cnt).pieces, s.length < 2 ^ 28 :=
    fun s member => short s (part.subset member)
  have int : ∀ s ∈ (Source.mimeheader fldList cnt).pieces, s.length < 2 ^ 31 :=
    fun s member => (short' s member).trans (by decide)
  have longer := @not_atMostOne_header fldList cnt
  rw [atMostOne_iff, not_le] at longer
  have longer' := longer.trans_le part.flatten.length_le
  generalize is : longest (Source.mimeheader fldList cnt).pieces = K at longer longer'
  have tiny : K < 2 ^ 28 := is ▸ longest_tiny short'
  have skip : ∀ s ∈ (Source.mimeheader fldList cnt).pieces,
      s.length ≤ (behind K).offset.toNat := by
    rw [offset_behind tiny, ← is]
    exact length_le_longest
  have skipped := windows _ (small_behind tiny)
  -- behind the longest string: what cannot be printed is tried
  have printable : ∀ fld ∈ fldList, fld.Printable := by
    by_contra bad
    have none := @Mode.printMimeFields_none (behind K) _ _ [] _ .start
      (mode_start (small_behind tiny) int (.inr skip)) (not_reached_start Nat.one_pos) nests_start
      fldList bad false rfl rfl
    rw [mimeheaderRead, none] at skipped
    cases skipped
  have last : fldList.any (·.isType) = true ∨ cnt.Printable := by
    by_contra bad
    obtain ⟨type, bad⟩ := not_or.mp bad
    rw [mimeheaderRead, printMimeFields_skip (small_behind tiny) Nat.one_pos int skip printable]
      at skipped
    simp only [Option.bind_eq_bind, Option.bind_some, type, Bool.false_eq_true, if_false,
      printLastLine_none bad] at skipped
    cases skipped
  rw [mimeheaderRead_skip (small_behind tiny) Nat.one_pos int skip printable last] at skipped
  have le := length_le_of_behind tiny (Option.some.inj skipped)
  -- at the start: too much is counted
  have count := count_ahead tiny
  have grows := fun B least most =>
    @mode_grown (ahead K) _ B (small_ahead tiny) rfl (count.le.trans least) most short
  obtain ⟨out, ct, fields, holds, seen⟩ := @Mode.printMimeFields (ahead K) _ _ _ [] _ .start
    (grows (K + 1) le_rfl (by omega)) (grows (2 * (K + 1)) (by omega) (by omega))
    (Grown.le (by omega))
    (fun ps out holds inside => count ▸ Grown.back (by omega) ps out holds inside)
    fldList (fun _ _ _ => nests_grown (by omega)) printable false rfl grown_start
  have start := windows _ (small_ahead tiny)
  rw [mimeheaderRead, fields] at start
  simp only [Option.bind_eq_bind, Option.bind_some] at start
  cases ct with
  | true =>
      obtain rfl := Option.some.inj start
      have type : fldList.any (·.isType) = true := by
        rcases seen with seen | reached
        · exact seen.symm
        · exact reached.2 rfl
      rw [Source.pieces, if_pos type, List.append_nil] at longer
      exact not_grown_of_le tiny le longer holds
  | false =>
      by_cases good : cnt.Printable
      · obtain ⟨out', line, holds'⟩ := @Mode.printLastLine (ahead K) _ _ _ (fieldLines fldList) []
          out (grows (2 * (K + 1)) (by omega) (by omega))
          (grows (2 * (2 * (K + 1))) (by omega) (by omega)) (Grown.le (by omega)) cnt
          (fun _ => nests_grown (by omega)) good (by simp [Source.strings]) holds
        have same : some out' = some (window (ahead K) text) := line.symm.trans start
        obtain rfl := Option.some.inj same
        exact not_grown_of_le tiny le longer' holds'
      · cases (printLastLine_none good).symm.trans start

end Reads

/-- A read returns a window of the text if it is clean, and all reads with a small window return
windows of one text only if there is at most one string. -/
theorem reads_iff (source : Source) :
    (∀ w, source.Clean w → source.read w = some (window w source.text)) ∧
    ((∀ s ∈ source.strings, s.length < 2 ^ 28) →
      ((∃ text, ∀ w : Window, w.Small → source.read w = some (window w text)) ↔
        source.Printable ∧ AtMostOne source.pieces)) := by
  refine ⟨fun w => Source.Clean.right, fun short => ⟨?_, ?_⟩⟩
  · rintro ⟨text, windows⟩
    cases source with
    | field fld => exact windows_field short windows
    | type cnt => exact windows_type short windows
    | mimeheader fldList cnt => exact (not_windows_header short windows).elim
  · rintro ⟨printable, one⟩
    refine ⟨source.text, fun w small => Source.Clean.right ⟨printable, small, ?_, ?_⟩⟩
    · have le := (atMostOne_iff _).mp one
      have tiny := longest_tiny fun s member => short s (source.pieces_sublist.subset member)
      cases source with
      | field _ | type _ => exact le.trans_lt (tiny.trans (by decide))
      | mimeheader fldList cnt => exact absurd one not_atMostOne_header
    · exact .inr (.inr (.inr (.inl one)))

/-- Three bytes of the subject `hello`, behind the first one. -/
theorem reads_iff_hello :
    (Source.field (.fldSubject (some (cstr "hello")))).read ⟨1, 3⟩ =
      some (window ⟨1, 3⟩ (lit "hello")) ∧
    ∃ text, ∀ w : Window, w.Small →
      (Source.field (.fldSubject (some (cstr "hello")))).read w = some (window w text) := by
  have small : Window.Small ⟨1, 3⟩ := by
    change 1 + 3 < 2 ^ 31
    omega
  have one : AtMostOne (Source.field (.fldSubject (some (cstr "hello")))).pieces := by decide
  refine ⟨(reads_iff (.field (.fldSubject (some (cstr "hello"))))).1 ⟨1, 3⟩
      ⟨trivial, small, by decide, .inr (.inr (.inr (.inl one)))⟩,
    ((reads_iff (.field (.fldSubject (some (cstr "hello"))))).2 fun s member => ?_).mpr
      ⟨trivial, one⟩⟩
  rw [List.mem_singleton.mp member]
  decide

/-- The lines of two senders have four bytes each: the first eight bytes are returned, and nothing
at the second line. -/
theorem not_reads_all : ¬ ∀ source : Source, ∃ text, ∀ w, source.read w = some (window w text) := by
  intro all
  obtain ⟨text, windows⟩ := all (.field (.fldFrom [⟨none, cstr "a@b"⟩, ⟨none, cstr "c@d"⟩]))
  have whole : (Source.read ⟨0, 8⟩ (.field (.fldFrom
      [⟨none, cstr "a@b"⟩, ⟨none, cstr "c@d"⟩]))).map Out.n = some 8 := by decide +kernel
  have second : (Source.read ⟨4, 1⟩ (.field (.fldFrom
      [⟨none, cstr "a@b"⟩, ⟨none, cstr "c@d"⟩]))).map Out.n = some 0 := by decide +kernel
  rw [windows, Option.map_some, Option.some_inj] at whole second
  change ((min (text.length - 0) 8 : ℕ) : ℤ) = 8 at whole
  change ((min (text.length - 4) 1 : ℕ) : ℤ) = 0 at second
  omega

end Mboxfs

end Npfs
