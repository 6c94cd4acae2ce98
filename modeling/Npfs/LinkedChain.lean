import Mathlib.Tactic

/-!
# Chains of links

A link field holds the next element of a chain or nothing.  `Path next start chain` says that the
links from `start` on end, and visit `chain` on the way; `walk` follows them for a bounded number of
steps.
-/

namespace LinkedChain

variable {α : Type}

/-- The links from `start` on visit exactly the elements of the list, in this order, and end. -/
inductive Path (next : α → Option α) : Option α → List α → Prop
  | nil : Path next none []
  | cons {first : α} {rest : List α} (tail : Path next (next first) rest) :
      Path next (some first) (first :: rest)

/-- Follow the links from `start` to their end; `none` when there are more than `bound`. -/
def walk (next : α → Option α) : Nat → Option α → Option (List α)
  | _, none => some []
  | 0, some _ => none
  | bound + 1, some first => (walk next bound (next first)).map (first :: ·)

/-- Follow the links from `start` to the first element with a property; `none` when `bound` steps
do not decide it. -/
def search (next : α → Option α) (wanted : α → Bool) : Nat → Option α → Option (Option α)
  | _, none => some none
  | 0, some _ => none
  | bound + 1, some first =>
      if wanted first then some (some first) else search next wanted bound (next first)

/-- Follow the links from `start` to the first element with a property, and keep the element that
the last link was followed from. -/
def locate (next : α → Option α) (wanted : α → Bool) :
    Nat → Option α → Option α → Option (Option α × Option α)
  | _, before, none => some (before, none)
  | 0, _, some _ => none
  | bound + 1, before, some first =>
      if wanted first then some (before, some first)
      else locate next wanted bound (some first) (next first)

variable {next next' : α → Option α} {start : Option α} {chain : List α}

theorem path_of_walk {bound : Nat} (walked : walk next bound start = some chain) :
    Path next start chain := by
  induction bound generalizing start chain with
  | zero =>
      cases start with
      | none =>
          obtain rfl : [] = chain := by simpa [walk] using walked
          exact .nil
      | some first => simp [walk] at walked
  | succ bound ih =>
      cases start with
      | none =>
          obtain rfl : [] = chain := by simpa [walk] using walked
          exact .nil
      | some first =>
          obtain ⟨rest, further, rfl⟩ : ∃ rest, walk next bound (next first) = some rest ∧
              first :: rest = chain := by
            simpa [walk] using walked
          exact .cons (ih further)

theorem walk_of_path {bound : Nat} (path : Path next start chain) (short : chain.length ≤ bound) :
    walk next bound start = some chain := by
  induction path generalizing bound with
  | nil => cases bound <;> rfl
  | cons tail ih =>
      cases bound with
      | zero => simp at short
      | succ bound =>
          have rest := ih (Nat.le_of_succ_le_succ short)
          simp [walk, rest]

theorem search_of_path {wanted : α → Bool} {bound : Nat} (path : Path next start chain)
    (short : chain.length ≤ bound) :
    search next wanted bound start = some (chain.find? wanted) := by
  induction path generalizing bound with
  | nil => cases bound <;> rfl
  | @cons first rest tail ih =>
      cases bound with
      | zero => simp at short
      | succ bound =>
          have onward := ih (Nat.le_of_succ_le_succ short)
          cases found : wanted first <;> simp [search, found, onward]

/-- What a search finds has the property. -/
theorem wanted_of_search {wanted : α → Bool} {bound : Nat} {p : α}
    (found : search next wanted bound start = some (some p)) : wanted p = true := by
  induction bound generalizing start with
  | zero => cases start <;> simp [search] at found
  | succ bound ih =>
      cases start with
      | none => simp [search] at found
      | some first =>
          rw [search] at found
          split_ifs at found with here
          · obtain rfl := Option.some.inj (Option.some.inj found)
            exact here
          · exact ih found

theorem locate_of_path (wanted : α → Bool) {bound : Nat} (before : Option α)
    (path : Path next start chain) (short : chain.length ≤ bound) :
    (∃ last, locate next wanted bound before start = some (last, none) ∧
      ∀ p ∈ chain, wanted p = false) ∨
    ∃ front p back, chain = front ++ p :: back ∧ wanted p = true ∧
      locate next wanted bound before start = some (front.getLast?.or before, some p) := by
  induction path generalizing bound before with
  | nil => exact .inl ⟨before, by cases bound <;> rfl, by simp⟩
  | @cons first rest tail ih =>
      cases bound with
      | zero => simp at short
      | succ bound =>
          cases found : wanted first with
          | true =>
              exact .inr ⟨[], first, rest, rfl, found, by simp [locate, found]⟩
          | false =>
              have onward := ih (some first) (Nat.le_of_succ_le_succ short)
              rcases onward with ⟨last, located, none⟩ | ⟨front, p, back, rfl, found', located⟩
              · exact .inl ⟨last, by simp [locate, found, located], by simpa [found] using none⟩
              · refine .inr ⟨first :: front, p, back, rfl, found', ?_⟩
                rw [List.getLast?_cons]
                simp only [locate, found, located, Bool.false_eq_true, if_false]
                cases front.getLast? <;> rfl

namespace Path

theorem unique {other : List α} (path : Path next start chain) (path' : Path next start other) :
    chain = other := by
  induction path generalizing other with
  | nil =>
      cases path'
      rfl
  | cons tail ih =>
      cases path' with
      | cons tail' => rw [ih tail']

/-- A chain starts at its first element. -/
theorem start_eq (path : Path next start chain) : start = chain.head? := by
  cases path <;> rfl

theorem start_mem {first : α} (path : Path next (some first) chain) : first ∈ chain := by
  cases path
  exact List.mem_cons_self

/-- The links of a chain stay inside it. -/
theorem next_mem (path : Path next start chain) {p r : α} (mem : p ∈ chain)
    (link : next p = some r) : r ∈ chain := by
  induction path with
  | nil => simp at mem
  | cons tail ih =>
      rcases List.mem_cons.mp mem with rfl | mem
      · rw [link] at tail
        exact List.mem_cons_of_mem _ tail.start_mem
      · exact List.mem_cons_of_mem _ (ih mem)

/-- The part of a chain behind one of its elements is a chain. -/
theorem suffix {front back : List α} {p : α} (path : Path next start (front ++ p :: back)) :
    Path next (next p) back := by
  induction front generalizing start with
  | nil =>
      cases path with
      | cons tail => exact tail
  | cons first front ih =>
      cases path with
      | cons tail => exact ih tail

/-- A chain that ends visits nothing twice. -/
theorem nodup (path : Path next start chain) : chain.Nodup := by
  induction path with
  | nil => exact List.nodup_nil
  | @cons first rest tail ih =>
      refine List.nodup_cons.mpr ⟨fun mem => ?_, ih⟩
      obtain ⟨front, back, rfl⟩ := List.append_of_mem mem
      have lengths := congrArg List.length (tail.unique tail.suffix)
      simp at lengths
      omega

/-- Links outside of a chain do not matter to it. -/
theorem congr (path : Path next start chain) (same : ∀ p ∈ chain, next' p = next p) :
    Path next' start chain := by
  induction path with
  | nil => exact .nil
  | @cons first rest tail ih =>
      have tail' := ih fun p mem => same p (List.mem_cons_of_mem _ mem)
      rw [← same first List.mem_cons_self] at tail'
      exact .cons tail'

/-- Take an element out of a chain. -/
theorem erase {front back : List α} {p : α} (path : Path next start (front ++ p :: back))
    (last : ∀ q, front.getLast? = some q → next' q = next p)
    (same : ∀ q ∈ front ++ back, front.getLast? ≠ some q → next' q = next q) :
    Path next' (if front.getLast? = none then next p else start) (front ++ back) := by
  induction front generalizing start with
  | nil => exact path.suffix.congr fun q mem => same q mem (by simp)
  | cons first front ih =>
      have once := path.nodup
      rw [List.getLast?_cons, if_neg (by simp)]
      cases path with
      | cons tail =>
          cases front with
          | nil =>
              have bridge : next' first = next p := last first rfl
              have rest : Path next' (next p) back := by
                refine tail.suffix.congr fun q mem => same q (List.mem_cons_of_mem _ mem) ?_
                intro found
                obtain rfl : first = q := by simpa using found
                simp [mem] at once
              exact .cons (by rwa [bridge])
          | cons second front =>
              have kept : next' first = next first := by
                refine same first List.mem_cons_self ?_
                rw [List.getLast?_cons_cons]
                intro found
                have mem := List.mem_of_getLast? found
                simp only [List.cons_append, List.nodup_cons, List.mem_cons,
                  List.mem_append] at once
                exact once.1 ((List.mem_cons.mp mem).imp_right .inl)
              have rest := ih tail (fun q found => last q (by rwa [List.getLast?_cons_cons]))
                fun q mem other => same q (List.mem_cons_of_mem _ mem)
                  (by rwa [List.getLast?_cons_cons])
              rw [List.getLast?_cons, if_neg (by simp)] at rest
              exact .cons (by rwa [kept])

/-- Put a new element behind one of the chain's. -/
theorem insert {front back : List α} {p r : α} (path : Path next start (front ++ p :: back))
    (behind : next' p = some r) (moved : next' r = next p)
    (same : ∀ q ∈ front ++ p :: back, q ≠ p → next' q = next q) :
    Path next' start (front ++ p :: r :: back) := by
  induction front generalizing start with
  | nil =>
      have once := path.nodup
      cases path with
      | cons tail =>
          have tail' : Path next' (next p) back := by
            refine tail.congr fun q mem => same q (List.mem_cons_of_mem _ mem) ?_
            rintro rfl
            simp [mem] at once
          have inner : Path next' (some r) (r :: back) := .cons (by rwa [moved])
          exact .cons (by rwa [behind])
  | cons first front ih =>
      have once := path.nodup
      cases path with
      | cons tail =>
          have front' := ih tail fun q mem => same q (List.mem_cons_of_mem _ mem)
          have kept : next' first = next first := by
            refine same first List.mem_cons_self ?_
            rintro rfl
            simp at once
          exact .cons (by rwa [kept])

/-- A chain goes on behind an element that was its last. -/
theorem extend {last r : α} (path : Path next start chain) (ends : next last = none)
    (linked : next' last = some r) (new : next' r = none)
    (same : ∀ q ∈ chain, q ≠ last → next' q = next q) : ∃ chain',
      Path next' start chain' ∧ (∀ q ∈ chain', q ∈ chain ∨ q = r) ∧
        (last ∈ chain → r ∈ chain') := by
  by_cases member : last ∈ chain
  · obtain ⟨front, back, rfl⟩ := List.append_of_mem member
    refine ⟨_, path.insert linked (new.trans ends.symm) same, fun q is => ?_, fun _ => by simp⟩
    simp only [List.mem_append, List.mem_cons] at is ⊢
    tauto
  · refine ⟨chain, path.congr fun q is => same q is ?_, fun q is => .inl is, fun is =>
      absurd is member⟩
    rintro rfl
    exact member is

/-- A chain ends at an element that does not lead on any more. -/
theorem truncate {p : α} (path : Path next start chain) (ends : next' p = none)
    (same : ∀ q ≠ p, next' q = next q) :
    ∃ chain', Path next' start chain' ∧ ∀ q ∈ chain', q ∈ chain := by
  induction path with
  | nil => exact ⟨[], .nil, fun q none => none⟩
  | @cons first rest tail ih =>
      by_cases here : first = p
      · subst here
        refine ⟨[first], .cons (by rw [ends]; exact .nil), fun q member => ?_⟩
        rw [List.mem_singleton.mp member]
        exact List.mem_cons_self
      · obtain ⟨chain', path', among⟩ := ih
        refine ⟨first :: chain', .cons (by rwa [same first here]), fun q member => ?_⟩
        exact (List.mem_cons.mp member).elim (fun is => is ▸ List.mem_cons_self) fun is =>
          List.mem_cons_of_mem _ (among q is)

end Path

end LinkedChain
