import Npfs.Ufs

/-!
# Lists of attribute names

What `mapped_unlist` leaves of a list: the names that are not the mapped id model's, in their order.
-/

namespace Npfs

namespace Ufs

theorem mappedName_iff {name : List UInt8} : mappedName name ↔ VIRTFS_PREFIX <+: name := by
  rw [mappedName, decide_eq_true_iff, List.prefix_iff_eq_take]
  constructor
  · rintro ⟨-, same⟩
    exact same.symm
  · intro same
    refine ⟨?_, same.symm⟩
    have lengths := congrArg List.length same
    rw [List.length_take] at lengths
    omega

/-- The test on the bytes of a message decides about the string up to their first NUL as well. -/
theorem mappedName_npStrdup {name : List UInt8} :
    mappedName (npStrdup name).bytes ↔ mappedName name := by
  rw [mappedName_iff, mappedName_iff]
  constructor
  · exact fun named => named.trans (List.takeWhile_prefix _)
  · rintro ⟨rest, rfl⟩
    change VIRTFS_PREFIX <+: (VIRTFS_PREFIX ++ rest).takeWhile (· ≠ 0)
    have text (byte : UInt8) (member : byte ∈ VIRTFS_PREFIX) : decide (byte ≠ 0) = true := by
      have other : byte ≠ 0 := fun zero => (cstr "user.virtfs.").noNul (zero ▸ member)
      simpa using other
    rw [List.takeWhile_append_of_pos text]
    exact List.prefix_append _ _

/-- A list of attribute names: each name with its terminator. -/
def encodeNames (names : List CStr) : List UInt8 := names.flatMap fun name => name.bytes ++ [0]

theorem encodeNames_cons (name : CStr) (names : List CStr) :
    encodeNames (name :: names) = (name.bytes ++ [0]) ++ encodeNames names := List.flatMap_cons

/-- The names that a client may see. -/
def shown (names : List CStr) : List CStr := names.filter fun name => !mappedName name.bytes

/-- The terminated names that a buffer holds; what follows the last terminator is no name. -/
def terminatedNames (buf : List UInt8) : List CStr := ((buf.splitOn 0).dropLast).map npStrdup

/-- What `mapped_unlist` is to leave of a buffer. -/
def unmapped (buf : List UInt8) : List UInt8 :=
  encodeNames ((terminatedNames buf).filter fun name => ¬ VIRTFS_PREFIX <+: name.bytes)

theorem unmapped_eq (buf : List UInt8) :
    unmapped buf = encodeNames (shown (terminatedNames buf)) := by
  refine congrArg encodeNames (List.filter_congr fun name _ => ?_)
  simp [← mappedName_iff]

/-- A buffer is a list of names, and a tail without a terminator. -/
theorem exists_encodeNames (buf : List UInt8) :
    ∃ names tail, 0 ∉ tail ∧ buf = encodeNames names ++ tail := by
  induction buf with
  | nil => exact ⟨[], [], List.not_mem_nil, rfl⟩
  | cons byte buf ih =>
      obtain ⟨names, tail, plain, rfl⟩ := ih
      by_cases zero : byte = 0
      · exact ⟨⟨[], List.not_mem_nil⟩ :: names, tail, plain, by rw [zero]; rfl⟩
      · have fresh : 0 ≠ byte := fun same => zero same.symm
        -- The byte is in front of the first name, or of the tail.
        cases names with
        | nil => exact ⟨[], byte :: tail, List.not_mem_cons_of_ne_of_not_mem fresh plain, rfl⟩
        | cons name names =>
            have text := List.not_mem_cons_of_ne_of_not_mem fresh name.noNul
            exact ⟨⟨byte :: name.bytes, text⟩ :: names, tail, plain, rfl⟩

theorem terminatedNames_encodeNames {names : List CStr} {tail : List UInt8} (plain : 0 ∉ tail) :
    terminatedNames (encodeNames names ++ tail) = names := by
  induction names with
  | nil =>
      have whole : tail.splitOn 0 = [tail] := List.splitOn_eq_singleton plain
      rw [terminatedNames, encodeNames, List.flatMap_nil, List.nil_append, whole]
      rfl
  | cons name names ih =>
      have first : (name.bytes ++ 0 :: (encodeNames names ++ tail)).splitOn 0 =
          name.bytes :: (encodeNames names ++ tail).splitOn 0 := by
        rw [List.splitOn_eq_splitOnP]
        refine List.splitOnP_append_cons_of_forall_mem (fun byte member => ?_) 0 rfl _
        have other : byte ≠ 0 := fun zero => name.noNul (zero ▸ member)
        simpa using other
      rw [encodeNames_cons, List.append_assoc, List.append_assoc, List.singleton_append,
        terminatedNames, first, List.dropLast_cons_of_ne_nil (List.splitOn_ne_nil _ _),
        List.map_cons, npStrdup_bytes]
      exact congrArg (name :: ·) ih

section Unlist

variable {n : Nat} {name : CStr} {names : List CStr} {tail buf : List UInt8} {i out : Nat}

/-- What the loop of `mapped_unlist` keeps: the list from `i` on is still there, with what follows
its last terminator, and what it has written does not reach beyond. -/
structure Unlisting (n : Nat) (names : List CStr) (tail buf : List UInt8) (i out : Nat) : Prop where
  size : buf.length = n
  behind : out ≤ i
  rest : buf.drop i = encodeNames names ++ tail

theorem Unlisting.length (state : Unlisting n names tail buf i out) (within : i ≤ n) :
    n = i + ((encodeNames names).length + tail.length) := by
  rw [← List.length_append, ← state.rest, List.length_drop, state.size]
  omega

theorem Unlisting.text (state : Unlisting n (name :: names) tail buf i out) :
    buf.drop i = name.bytes ++ [0] ++ (encodeNames names ++ tail) := by
  rw [state.rest, encodeNames_cons, List.append_assoc]

theorem Unlisting.room (state : Unlisting n (name :: names) tail buf i out) (within : i ≤ n) :
    i + (name.strlen + 1) ≤ n := by
  have length := state.length within
  rw [encodeNames_cons] at length
  simp only [List.length_append, List.length_singleton] at length
  rw [CStr.strlen]
  omega

/-- `strnlen` finds the terminator of the next name. -/
theorem Unlisting.strnlen (state : Unlisting n (name :: names) tail buf i out) (within : i ≤ n) :
    strnlen (buf.drop i) (n - i) = name.strlen := by
  have room := state.room within
  have all : (buf.drop i).take (n - i) = buf.drop i :=
    List.take_of_length_le (by rw [List.length_drop, state.size])
  have none : name.bytes.findIdx (· = 0) = name.bytes.length := by
    refine List.findIdx_eq_length.mpr fun byte member => ?_
    have other : byte ≠ 0 := fun zero => name.noNul (zero ▸ member)
    simpa using other
  rw [Ufs.strnlen, all, state.text, List.append_assoc, List.findIdx_append, none,
    if_neg (lt_irrefl _)]
  simp [CStr.strlen, List.findIdx_cons]

/-- There is no terminator behind the last name. -/
theorem Unlisting.strnlen_tail (state : Unlisting n [] tail buf i out) (plain : 0 ∉ tail) :
    Ufs.strnlen (buf.drop i) (n - i) = n - i := by
  have all : (buf.drop i).take (n - i) = tail := by
    rw [List.take_of_length_le (by rw [List.length_drop, state.size]), state.rest]
    rfl
  have length : tail.length = n - i := by
    rw [← all, List.length_take_of_le (by rw [List.length_drop, state.size])]
  rw [Ufs.strnlen, all, ← length]
  refine List.findIdx_eq_length.mpr fun byte member => ?_
  have other : byte ≠ 0 := fun zero => plain (zero ▸ member)
  simpa using other

theorem Unlisting.spelled (state : Unlisting n (name :: names) tail buf i out) :
    (buf.drop i).take name.strlen = name.bytes := by
  rw [state.text, List.append_assoc]
  exact List.take_left' rfl

theorem Unlisting.terminated (state : Unlisting n (name :: names) tail buf i out) :
    (buf.drop i).take (name.strlen + 1) = name.bytes ++ [0] := by
  rw [state.text]
  exact List.take_left' (by rw [List.length_append, List.length_singleton, CStr.strlen])

theorem Unlisting.onward (state : Unlisting n (name :: names) tail buf i out) :
    buf.drop (i + (name.strlen + 1)) = encodeNames names ++ tail := by
  rw [← List.drop_drop, state.text]
  exact List.drop_left' (by rw [List.length_append, List.length_singleton, CStr.strlen])

/-- A name of the model is passed over. -/
theorem Unlisting.skip (state : Unlisting n (name :: names) tail buf i out) :
    Unlisting n names tail buf (i + (name.strlen + 1)) out :=
  ⟨state.size, state.behind.trans (Nat.le_add_right _ _), state.onward⟩

/-- Any other name is moved to the end of what has been written. -/
theorem Unlisting.move (state : Unlisting n (name :: names) tail buf i out) (within : i ≤ n) :
    Unlisting n names tail (store buf out (name.bytes ++ [0])) (i + (name.strlen + 1))
      (out + (name.strlen + 1)) := by
  have room := state.room within
  have behind := state.behind
  have length : (name.bytes ++ [0]).length = name.strlen + 1 := by simp [CStr.strlen]
  refine ⟨?_, by omega, ?_⟩
  · exact (length_store (by rw [length, state.size]; omega)).trans state.size
  · rw [drop_store (by rw [length]; omega) (by rw [state.size]; omega), state.onward]

theorem unlist_spec (state : Unlisting n names tail buf i out) (plain : 0 ∉ tail) (within : i ≤ n)
    {turns : Nat} (enough : n - i ≤ turns) :
    (unlist n turns buf i out).1.take (unlist n turns buf i out).2 =
        buf.take out ++ encodeNames (shown names) ∧ (unlist n turns buf i out).2 ≤ n ∧
      (unlist n turns buf i out).1.length = n := by
  induction names generalizing turns i out buf with
  | nil =>
      have behind := state.behind
      have stop : unlist n turns buf i out = (buf, out) := by
        cases turns with
        | zero => rfl
        | succ turns =>
            rw [unlist, state.strnlen_tail plain]
            simp
      rw [stop]
      exact ⟨by simp [encodeNames, shown], by dsimp only; omega, state.size⟩
  | cons name names ih =>
      have room := state.room within
      have behind := state.behind
      obtain ⟨turns, rfl⟩ : ∃ k, turns = k + 1 := ⟨turns - 1, by omega⟩
      have before : i < n := by omega
      have terminated : name.strlen ≠ n - i := by omega
      rw [unlist, if_pos before]
      simp only [state.strnlen within, state.spelled, state.terminated]
      rw [if_neg terminated]
      split_ifs with named
      · have tail := @ih buf _ out state.skip room turns (by omega)
        rwa [shown, List.filter_cons_of_neg (by simp [named])]
      · have tail := @ih _ _ _ (state.move within) room turns (by omega)
        have length : (name.bytes ++ [0]).length = name.strlen + 1 := by simp [CStr.strlen]
        have written : (store buf out (name.bytes ++ [0])).take (out + (name.strlen + 1)) =
            buf.take out ++ (name.bytes ++ [0]) := by
          rw [← length, take_store (by rw [state.size]; omega)]
        rw [written, List.append_assoc] at tail
        rw [shown, List.filter_cons_of_pos (by simp [named]), encodeNames_cons]
        exact tail

/-- `mapped_unlist` leaves the names that a client may see. -/
theorem mappedUnlist_encodeNames (names : List CStr) :
    (mappedUnlist (encodeNames names) (encodeNames names).length).1.take
        (mappedUnlist (encodeNames names) (encodeNames names).length).2 =
      encodeNames (shown names) ∧
    (mappedUnlist (encodeNames names) (encodeNames names).length).2 ≤
      (encodeNames names).length ∧
    (mappedUnlist (encodeNames names) (encodeNames names).length).1.length =
      (encodeNames names).length := by
  have start : Unlisting (encodeNames names).length names [] (encodeNames names) 0 0 :=
    ⟨rfl, le_rfl, (List.append_nil _).symm⟩
  have enough : (encodeNames names).length - 0 ≤ (encodeNames names).length := by omega
  have spec := unlist_spec start List.not_mem_nil (Nat.zero_le _) enough
  rwa [List.take_zero, List.nil_append] at spec

/-! ## Any buffer -/

section Frame

variable {behind : List UInt8} {turns : Nat}

theorem store_append {mem bytes : List UInt8} {pos : Nat} (room : pos + bytes.length ≤ mem.length) :
    store (mem ++ behind) pos bytes = store mem pos bytes ++ behind := by
  rw [store, store, List.take_append_of_le_length (by omega),
    List.drop_append_of_le_length room, List.append_assoc, List.append_assoc, List.append_assoc]

theorem strnlen_le {bytes : List UInt8} {most : Nat} : Ufs.strnlen bytes most ≤ most :=
  List.findIdx_le_length.trans (List.length_take_le _ _)

/-- A turn neither looks behind the `n` bytes nor changes what is there. -/
theorem unlist_append (size : buf.length = n) (within : i ≤ n) (before : out ≤ i) :
    unlist n turns (buf ++ behind) i out =
      ((unlist n turns buf i out).1 ++ behind, (unlist n turns buf i out).2) := by
  induction turns generalizing buf i out with
  | zero => rfl
  | succ turns ih =>
      have window {k : Nat} (part : k ≤ n - i) :
          ((buf ++ behind).drop i).take k = (buf.drop i).take k := by
        rw [List.drop_append_of_le_length (by omega), List.take_append_of_le_length]
        rw [List.length_drop]
        omega
      have length : Ufs.strnlen ((buf ++ behind).drop i) (n - i) =
          Ufs.strnlen (buf.drop i) (n - i) := by
        rw [Ufs.strnlen, window le_rfl]
        rfl
      have short := @strnlen_le (buf.drop i) (n - i)
      rw [unlist, unlist]
      simp only [length, window short]
      split_ifs with inside ended named
      · rfl
      · exact ih size (by omega) (by omega)
      · have part : Ufs.strnlen (buf.drop i) (n - i) + 1 ≤ n - i := by omega
        have moved : ((buf.drop i).take (Ufs.strnlen (buf.drop i) (n - i) + 1)).length =
            Ufs.strnlen (buf.drop i) (n - i) + 1 := by
          rw [List.length_take_of_le]
          rw [List.length_drop]
          omega
        have room : out + ((buf.drop i).take (Ufs.strnlen (buf.drop i) (n - i) + 1)).length ≤
            buf.length := by
          omega
        rw [window part, store_append room]
        exact ih ((length_store room).trans size) (by omega) (by omega)
      · rfl

/-- Each turn moves past at least a byte, so that more turns than there are bytes left change
nothing. -/
theorem unlist_turns {turns' : Nat} (enough : n - i ≤ turns) (enough' : n - i ≤ turns') :
    unlist n turns buf i out = unlist n turns' buf i out := by
  induction turns generalizing turns' buf i out with
  | zero =>
      cases turns' with
      | zero => rfl
      | succ turns' => rw [unlist, unlist, if_neg (by omega)]
  | succ turns ih =>
      cases turns' with
      | zero => rw [unlist, unlist, if_neg (by omega)]
      | succ turns' =>
          rw [unlist, unlist]
          split_ifs with inside
          · have onward {buf' : List UInt8} {out' len : Nat} :
                unlist n turns buf' (i + (len + 1)) out' =
                  unlist n turns' buf' (i + (len + 1)) out' := ih (by omega) (by omega)
            simp only [onward]
          · rfl

end Frame

/-- `mapped_unlist` of the first `n` bytes of a memory: the bytes that it returns are the names that
do not begin with the prefix, in their order; what is behind the `n` bytes is neither read nor
changed; and the loop has ended after `n` turns. -/
theorem mappedUnlist_filters (buf : List UInt8) :
    (unmapped buf).length ≤ buf.length ∧ ∃ left, left.length = buf.length ∧
      left.take (unmapped buf).length = unmapped buf ∧
      ∀ behind, mappedUnlist (buf ++ behind) buf.length = (left ++ behind, (unmapped buf).length) ∧
        ∀ more, unlist buf.length (buf.length + more) (buf ++ behind) 0 0 =
          mappedUnlist (buf ++ behind) buf.length := by
  obtain ⟨names, tail, plain, is⟩ := exists_encodeNames buf
  have start : Unlisting buf.length names tail buf 0 0 := ⟨rfl, le_rfl, is⟩
  obtain ⟨written, short, length⟩ := unlist_spec start plain (Nat.zero_le _) le_rfl
  have expected : unmapped buf = encodeNames (shown names) := by
    rw [unmapped_eq, is, terminatedNames_encodeNames plain]
  rw [List.take_zero, List.nil_append, ← expected] at written
  have out : (unlist buf.length buf.length buf 0 0).2 = (unmapped buf).length := by
    have size := congrArg List.length written
    rwa [List.length_take_of_le (short.trans length.ge)] at size
  refine ⟨out ▸ short, _, length, ?_, fun behind => ⟨?_, fun more => ?_⟩⟩
  · rw [← out]
    exact written
  · rw [mappedUnlist, unlist_append rfl (Nat.zero_le _) le_rfl, ← out]
    rfl
  · exact unlist_turns (Nat.le_add_right _ _) le_rfl

end Unlist

end Ufs

end Npfs
