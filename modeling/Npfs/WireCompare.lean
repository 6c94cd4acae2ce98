import Npfs.Handlers

/-!
# Comparing the strings of messages

`np_strcmp` and `np_strncmp` hand the counted bytes of a message and a C string to `strncmp`, which
stops behind the first terminator of either, and then look at the C string where the counted bytes
end.  What is behind the two strings in memory is arbitrary here.
-/

namespace Npfs

/-- The memory from a string on. -/
def memory (bytes : List UInt8) (behind : ℕ → UInt8) (i : ℕ) : UInt8 := bytes.getD i (behind i)

/-- The memory from a C string on. -/
def CStr.memory (cs : CStr) (behind : ℕ → UInt8) : ℕ → UInt8 := Npfs.memory (cs.bytes ++ [0]) behind

/-- What a comparison returns, and how many bytes of each string it has looked at. -/
structure Compared where
  ret : ℤ
  /-- Of the string of the message. -/
  str : ℕ
  /-- Of the C string. -/
  cs : ℕ

/-- `strncmp`, from the byte `i` on. -/
def strncmp (s t : ℕ → UInt8) : (n i : ℕ) → ℤ × ℕ
  | 0, i => (0, i)
  | n + 1, i =>
    if s i ≠ t i then ((s i).toNat - (t i).toNat, i + 1)
    else if s i = 0 then (0, i + 1)
    else strncmp s t n (i + 1)

/-- `np_strcmp`. -/
def npStrcmp (s t : ℕ → UInt8) (len : ℕ) : Compared :=
  let (ret, looked) := strncmp s t len 0
  if ret = 0 then
    ⟨if t len ≠ 0 then 1 else ret, looked, max looked (len + 1)⟩
  else
    ⟨ret, looked, looked⟩

/-- `np_strncmp`. -/
def npStrncmp (s t : ℕ → UInt8) (strlen len : ℕ) : Compared :=
  if strlen ≥ len then
    let (ret, looked) := strncmp s t len 0
    ⟨ret, looked, looked⟩
  else
    npStrcmp s t strlen

/-! ## What they are for -/

section Right

variable (str : List UInt8) (cs : CStr) (behind behind' : ℕ → UInt8)

/-- The comparison looks at no byte behind the counted ones or behind the terminator, and returns
zero exactly if the strings are `same`. -/
structure Compared.Right (same : Prop) (compared : Compared) : Prop where
  zero : compared.ret = 0 ↔ same
  inside : compared.str ≤ str.length
  terminated : compared.cs ≤ cs.strlen + 1

def StrcmpRight : Prop :=
  (npStrcmp (memory str behind) (cs.memory behind') str.length).Right str cs (str = cs.bytes)

/-- The strings agree on their first bytes, or are equal if they are shorter. -/
def StrncmpRight (len : ℕ) : Prop :=
  (npStrncmp (memory str behind) (cs.memory behind') str.length len).Right str cs
    (str.take len = cs.bytes.take len)

/-- The counted bytes go on behind a terminator, up to which they are those of the C string. -/
def Continues : Prop := cs.bytes ++ [0] <+: str

end Right

instance {str : List UInt8} {cs : CStr} : Decidable (Continues str cs) :=
  inferInstanceAs (Decidable (_ <+: _))

/-! ## `strncmp` -/

section Strncmp

variable {s t : ℕ → UInt8} {n i : ℕ}

theorem strncmp_le : (strncmp s t n i).2 ≤ i + n := by
  induction n generalizing i with
  | zero => exact le_rfl
  | succ n ih =>
      rw [strncmp]
      split_ifs
      · exact Nat.add_le_add_left (Nat.succ_le_succ (Nat.zero_le n)) i
      · exact Nat.add_le_add_left (Nat.succ_le_succ (Nat.zero_le n)) i
      · exact ih.trans (by omega)

/-- It does not look behind a terminator. -/
theorem strncmp_le_terminator {k : ℕ} (from' : i ≤ k) (zero : t k = 0) :
    (strncmp s t n i).2 ≤ k + 1 := by
  induction n generalizing i with
  | zero => exact Nat.le_succ_of_le from'
  | succ n ih =>
      rw [strncmp]
      split_ifs with other ended
      · exact Nat.succ_le_succ from'
      · exact Nat.succ_le_succ from'
      · have same : s i = t i := not_not.mp other
        have later : i ≠ k := fun is => ended (same.trans (is ▸ zero))
        exact ih (by omega)

/-- It returns zero if there is no difference in front of the first terminator. -/
theorem strncmp_eq_zero_iff : (strncmp s t n i).1 = 0 ↔
    ∀ k, i ≤ k → k < i + n → (∀ j, i ≤ j → j < k → t j ≠ 0) → s k = t k := by
  induction n generalizing i with
  | zero =>
      rw [strncmp]
      refine iff_of_true rfl fun k from' to' => ?_
      omega
  | succ n ih =>
      rw [strncmp]
      split_ifs with other ended
      · constructor
        · intro zero
          have same : s i = t i := UInt8.toNat_inj.mp (by dsimp only at zero; omega)
          exact absurd same other
        · intro all
          exact absurd (all i le_rfl (by omega) fun j from' to' => by omega) other
      · have same : s i = t i := not_not.mp other
        refine iff_of_true rfl fun k from' _ before => ?_
        by_cases is : k = i
        · rw [is, same]
        · exact absurd (same ▸ ended) (before i le_rfl (by omega))
      · have same : s i = t i := not_not.mp other
        have text : t i ≠ 0 := fun zero => ended (same.trans zero)
        rw [ih]
        constructor
        · intro all k from' to' before
          by_cases is : k = i
          · rw [is, same]
          · exact all k (by omega) (by omega) fun j fromj toj => before j (by omega) toj
        · intro all k from' to' before
          refine all k (by omega) (by omega) fun j fromj toj => ?_
          by_cases is : j = i
          · rw [is]
            exact text
          · exact before j (by omega) toj

end Strncmp

/-! ## The two strings -/

section Strings

variable {str : List UInt8} {cs : CStr} {behind behind' : ℕ → UInt8} {len k : ℕ}

theorem getElem?_memory (inside : k < str.length) : str[k]? = some (memory str behind k) := by
  rw [memory, List.getD_eq_getElem _ _ inside, List.getElem?_eq_getElem inside]

/-- The first bytes of two lists are the same. -/
theorem take_eq_take_iff {other : List UInt8} (within : len ≤ str.length)
    (within' : len ≤ other.length) : str.take len = other.take len ↔
      ∀ k < len, memory str behind k = memory other behind' k := by
  have here (k : ℕ) (inside : k < len) : (str.take len)[k]? = some (memory str behind k) := by
    rw [List.getElem?_take_of_lt inside, getElem?_memory (inside.trans_le within)]
  have there (k : ℕ) (inside : k < len) :
      (other.take len)[k]? = some (memory other behind' k) := by
    rw [List.getElem?_take_of_lt inside, getElem?_memory (inside.trans_le within')]
  constructor
  · intro same k inside
    exact Option.some.inj ((here k inside).symm.trans (same ▸ there k inside))
  · intro all
    refine List.ext_getElem? fun k => ?_
    by_cases inside : k < len
    · rw [here k inside, there k inside, all k inside]
    · rw [List.getElem?_take_eq_none (not_lt.mp inside),
        List.getElem?_take_eq_none (not_lt.mp inside)]

theorem length_terminated : (cs.bytes ++ [0]).length = cs.strlen + 1 := by
  rw [List.length_append, CStr.strlen, List.length_singleton]

theorem memory_terminator : cs.memory behind cs.strlen = 0 := by
  have last : (cs.bytes ++ [0])[cs.strlen]? = some 0 := List.getElem?_concat_length
  rw [CStr.memory, memory, List.getD_eq_getElem?_getD, last]
  rfl

theorem memory_ne_zero (inside : k < cs.strlen) : cs.memory behind k ≠ 0 := by
  intro zero
  have found := @getElem?_memory (cs.bytes ++ [0]) behind k
    (by rw [length_terminated]; exact inside.trans (Nat.lt_succ_self _))
  rw [List.getElem?_append_left inside] at found
  exact cs.noNul (List.mem_of_getElem? (found.trans (congrArg some zero)))

theorem Continues.longer (continues : Continues str cs) : cs.strlen < str.length := by
  have length := continues.length_le
  rwa [length_terminated] at length

theorem continues_iff (longer : cs.strlen < str.length) : Continues str cs ↔
    ∀ k < cs.strlen + 1, memory str behind k = cs.memory behind' k := by
  have whole : (cs.bytes ++ [0]).take (cs.strlen + 1) = cs.bytes ++ [0] :=
    List.take_of_length_le length_terminated.le
  rw [CStr.memory, ← take_eq_take_iff longer length_terminated.ge, whole, Continues,
    List.prefix_iff_eq_take, length_terminated]
  exact eq_comm

/-- The counted bytes go on behind the terminator, or they are the first bytes of the C string. -/
theorem strncmp_iff (within : len ≤ str.length) :
    (strncmp (memory str behind) (cs.memory behind') len 0).1 = 0 ↔
      (Continues str cs ∧ cs.strlen < len) ∨
        (len ≤ cs.strlen ∧ str.take len = cs.bytes.take len) := by
  rw [strncmp_eq_zero_iff]
  by_cases inside : len ≤ cs.strlen
  · -- The terminator is not reached.
    have text : (cs.bytes ++ [0]).take len = cs.bytes.take len :=
      List.take_append_of_le_length inside
    have compared := @take_eq_take_iff str behind behind' len (cs.bytes ++ [0]) within
      (by rw [length_terminated]; exact Nat.le_succ_of_le inside)
    rw [text] at compared
    rw [compared]
    constructor
    · intro all
      refine .inr ⟨inside, fun k to' => all k (Nat.zero_le _) (by omega) fun j _ toj => ?_⟩
      exact memory_ne_zero (by omega)
    · rintro (⟨-, less⟩ | ⟨-, all⟩) k - to' -
      · exact absurd inside (not_le.mpr less)
      · exact all k (by omega)
  · have beyond := not_le.mp inside
    rw [@continues_iff str cs behind behind' (beyond.trans_le within)]
    constructor
    · intro all
      refine .inl ⟨fun k to' => all k (Nat.zero_le _) (by omega) fun j _ toj => ?_, beyond⟩
      exact memory_ne_zero (by omega)
    · rintro (⟨all, -⟩ | ⟨less, -⟩) k - - before
      · -- Behind the terminator nothing is compared.
        refine all k (Nat.lt_succ_of_le (not_lt.mp fun past => ?_))
        exact before cs.strlen (Nat.zero_le _) past memory_terminator
      · exact absurd less inside

/-! ## The comparisons -/

theorem looked_le : (strncmp (memory str behind) (cs.memory behind') len 0).2 ≤ cs.strlen + 1 :=
  strncmp_le_terminator (Nat.zero_le _) memory_terminator

theorem looked_inside (within : len ≤ str.length) :
    (strncmp (memory str behind) (cs.memory behind') len 0).2 ≤ str.length :=
  strncmp_le.trans (by omega)

theorem npStrcmp_of_ne_zero
    (other : (strncmp (memory str behind) (cs.memory behind') str.length 0).1 ≠ 0) :
    npStrcmp (memory str behind) (cs.memory behind') str.length =
      ⟨(strncmp (memory str behind) (cs.memory behind') str.length 0).1,
        (strncmp (memory str behind) (cs.memory behind') str.length 0).2,
        (strncmp (memory str behind) (cs.memory behind') str.length 0).2⟩ := by
  rw [npStrcmp]
  exact if_neg other

theorem npStrcmp_of_eq_zero
    (zero : (strncmp (memory str behind) (cs.memory behind') str.length 0).1 = 0) :
    npStrcmp (memory str behind) (cs.memory behind') str.length =
      ⟨if cs.memory behind' str.length ≠ 0 then 1 else 0,
        (strncmp (memory str behind) (cs.memory behind') str.length 0).2,
        max (strncmp (memory str behind) (cs.memory behind') str.length 0).2
          (str.length + 1)⟩ := by
  rw [npStrcmp]
  dsimp only
  rw [if_pos zero, zero]

/-- It looks behind the terminator if and only if the counted bytes go on there. -/
theorem strcmpRight_iff : StrcmpRight str cs behind behind' ↔ ¬ Continues str cs := by
  constructor
  · intro right continues
    have longer := continues.longer
    have zero := (@strncmp_iff str cs behind behind' _ le_rfl).mpr (.inl ⟨continues, longer⟩)
    have terminated := right.terminated
    rw [npStrcmp_of_eq_zero zero] at terminated
    dsimp only at terminated
    omega
  · intro plain
    have looked := @looked_inside str cs behind behind' _ le_rfl
    have looked' := @looked_le str cs behind behind' str.length
    by_cases zero : (strncmp (memory str behind) (cs.memory behind') str.length 0).1 = 0
    · obtain ⟨less, front⟩ := ((strncmp_iff le_rfl).mp zero).resolve_left fun both => plain both.1
      rw [List.take_length] at front
      rw [StrcmpRight, npStrcmp_of_eq_zero zero]
      refine ⟨?_, looked, max_le looked' (Nat.succ_le_succ less)⟩
      rcases less.lt_or_eq with less | whole
      · have text := @memory_ne_zero cs behind' _ less
        have other : str ≠ cs.bytes := fun same => less.ne (congrArg List.length same)
        exact iff_of_false (by simp [text]) other
      · have same : str = cs.bytes := front.trans (List.take_of_length_le whole.ge)
        have ended : cs.memory behind' str.length = 0 := whole ▸ memory_terminator
        exact iff_of_true (if_neg (not_not.mpr ended)) same
    · rw [StrcmpRight, npStrcmp_of_ne_zero zero]
      refine ⟨iff_of_false zero fun same => zero ?_, looked, looked'⟩
      have length : str.length ≤ cs.strlen := (congrArg List.length same).le
      refine (strncmp_iff le_rfl).mpr (.inr ⟨length, ?_⟩)
      rw [same]

theorem strncmpRight_iff :
    StrncmpRight str cs behind behind' len ↔ ¬ (Continues str cs ∧ cs.strlen < len) := by
  by_cases within : len ≤ str.length
  · rw [StrncmpRight, npStrncmp, if_pos within]
    have looked := @looked_inside str cs behind behind' _ within
    have looked' := @looked_le str cs behind behind' len
    constructor
    · intro right both
      -- The terminator is among the bytes that are compared.
      have same := right.zero.mp ((strncmp_iff within).mpr (.inl both))
      have lengths := congrArg List.length same
      rw [List.length_take_of_le within, List.length_take] at lengths
      have less : cs.bytes.length < len := both.2
      omega
    · intro plain
      refine ⟨(strncmp_iff within).trans ⟨fun cases' => (cases'.resolve_left plain).2, fun same =>
        .inr ⟨?_, same⟩⟩, looked, looked'⟩
      have lengths := congrArg List.length same
      rw [List.length_take_of_le within, List.length_take] at lengths
      exact min_eq_left_iff.mp lengths.symm
  · have short := not_le.mp within
    have implied : Continues str cs → cs.strlen < len := fun continues =>
      continues.longer.trans short
    have right : StrncmpRight str cs behind behind' len ↔ StrcmpRight str cs behind behind' := by
      have same : str.take len = cs.bytes.take len ↔ str = cs.bytes := by
        rw [List.take_of_length_le short.le]
        constructor
        · intro same
          have length := congrArg List.length same
          rw [List.length_take] at length
          rwa [List.take_of_length_le (by omega)] at same
        · intro same
          rw [← same, List.take_of_length_le short.le]
      rw [StrncmpRight, npStrncmp, if_neg within, StrcmpRight, same]
    rw [right, strcmpRight_iff]
    exact not_congr ⟨fun continues => ⟨continues, implied continues⟩, And.left⟩

/-! ## The tests of the version negotiation -/

/-- `strncmp?` is the test whether `strncmp` returns zero. -/
theorem strncmp?_iff {n i : ℕ} (within : i + n ≤ str.length) (before : i ≤ cs.strlen) :
    strncmp? n (str.drop i) (cs.bytes.drop i) ↔
      (strncmp (memory str behind) (cs.memory behind') n i).1 = 0 := by
  induction n generalizing i with
  | zero => exact iff_of_true rfl rfl
  | succ n ih =>
      have here : (str.drop i).headD 0 = memory str behind i := by
        have found := @getElem?_memory str behind i (by omega)
        rw [List.headD_eq_head?_getD, List.head?_drop, found]
        rfl
      have there : (cs.bytes.drop i).headD 0 = cs.memory behind' i := by
        rw [List.headD_eq_head?_getD, List.head?_drop]
        rcases before.lt_or_eq with text | last
        · have found := @getElem?_memory (cs.bytes ++ [0]) behind' i
            (by rw [length_terminated]; omega)
          rw [List.getElem?_append_left text] at found
          rw [found]
          rfl
        · have ended : cs.bytes[cs.strlen]? = none := List.getElem?_eq_none le_rfl
          rw [last, memory_terminator, ended]
          rfl
      rw [strncmp?, here, there, strncmp, List.tail_drop, List.tail_drop]
      split_ifs with other ended
      · have differ : (memory str behind i).toNat ≠ (cs.memory behind' i).toNat := fun same =>
          other (UInt8.toNat_inj.mp same)
        simp [other]
        omega
      · have same := not_not.mp other
        simp [ended, ← same]
      · have same := not_not.mp other
        have text : i ≠ cs.strlen := fun is =>
          ended (same.trans (is ▸ memory_terminator))
        rw [← ih (by omega) (by omega)]
        simp [ended, ← same]

/-- The test of the handlers is an equality, for counted bytes that do not go on behind the
terminator. -/
theorem npStrcmp?_iff (plain : ¬ Continues str cs) : npStrcmp? str cs ↔ str = cs.bytes := by
  have compared := @strncmp?_iff str cs (fun _ => 0) (fun _ => 0) str.length 0 (Nat.zero_add _).le
    (Nat.zero_le _)
  rw [List.drop_zero, List.drop_zero, strncmp_iff le_rfl, List.take_length] at compared
  rw [npStrcmp?, Bool.and_eq_true, compared, beq_iff_eq]
  constructor
  · rintro ⟨both | ⟨less, front⟩, ended⟩
    · exact absurd both.1 plain
    · have whole : cs.bytes.length ≤ str.length := by
        by_contra text
        have member : cs.bytes[str.length]? = some 0 := by
          rw [List.getD_eq_getElem?_getD] at ended
          cases found : cs.bytes[str.length]? with
          | none => exact absurd (List.getElem?_eq_none_iff.mp found) text
          | some byte =>
              rw [found] at ended
              exact congrArg some ended
        exact cs.noNul (List.mem_of_getElem? member)
      exact front.trans (List.take_of_length_le whole)
  · intro same
    refine ⟨.inr ⟨(congrArg List.length same).le, ?_⟩, ?_⟩
    · rw [same, List.take_length]
    · rw [same, List.getD_eq_default _ _ le_rfl]

/-- Both comparisons are right if and only if the counted bytes do not go on behind the terminator
of the C string, with which they begin; `np_strncmp` also if that terminator is not among the bytes
that it is to compare. -/
theorem compares_iff (str : List UInt8) (cs : CStr) (behind behind' : ℕ → UInt8) (len : ℕ) :
    (StrcmpRight str cs behind behind' ↔ ¬ Continues str cs) ∧
      (StrncmpRight str cs behind behind' len ↔ ¬ (Continues str cs ∧ cs.strlen < len)) :=
  ⟨strcmpRight_iff, strncmpRight_iff⟩

end Strings

/-- A version with a terminator in it. -/
theorem not_compares_all : ¬ ∀ (str : List UInt8) (cs : CStr) (behind behind' : ℕ → UInt8)
    (len : ℕ), str.length < 2 ^ 16 →
      StrcmpRight str cs behind behind' ∧ StrncmpRight str cs behind behind' len := by
  intro all
  have right := (all ((cstr "9P2000.u").bytes ++ [0, 120]) (cstr "9P2000.u") (fun _ => 0)
    (fun _ => 0) 6 (by decide)).1.terminated
  revert right
  decide +kernel

end Npfs
