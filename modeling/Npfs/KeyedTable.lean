import Mathlib.Tactic

/-!
# Tables with a key

A table is a list of entries that is searched for a key from its front.  Where no two entries have
the same key, each entry is found under its own.
-/

namespace KeyedTable

variable {α κ : Type} (key : α → κ) {table : List α} {a b : α} {k : κ}

/-- No two entries have the same key. -/
def Distinct (table : List α) : Prop := (table.map key).Nodup

variable {key}

theorem distinct_nil : Distinct key ([] : List α) := List.nodup_nil

theorem distinct_cons :
    Distinct key (a :: table) ↔ (∀ b ∈ table, key b ≠ key a) ∧ Distinct key table := by
  simp [Distinct]

theorem Distinct.sublist {part : List α} (distinct : Distinct key table)
    (sub : part.Sublist table) : Distinct key part := List.Nodup.sublist (sub.map key) distinct

theorem Distinct.eq (distinct : Distinct key table) (left : a ∈ table) (right : b ∈ table)
    (same : key a = key b) : a = b :=
  List.inj_on_of_nodup_map distinct left right same

variable [DecidableEq κ] (key)

/-- The first entry with the key. -/
def lookup (k : κ) (table : List α) : Option α := table.find? fun a => key a = k

variable {key}

theorem mem_of_lookup (found : lookup key k table = some a) : a ∈ table :=
  List.mem_of_find?_eq_some found

theorem key_of_lookup (found : lookup key k table = some a) : key a = k := by
  simpa using List.find?_some found

theorem lookup_eq_none_iff : lookup key k table = none ↔ ∀ a ∈ table, key a ≠ k := by
  simp [lookup]

/-- An entry is found under its key. -/
theorem Distinct.lookup_mem (distinct : Distinct key table) (member : a ∈ table) :
    lookup key (key a) table = some a := by
  cases found : lookup key (key a) table with
  | none => exact absurd rfl (lookup_eq_none_iff.mp found a member)
  | some b => rw [distinct.eq (mem_of_lookup found) member (key_of_lookup found)]

end KeyedTable
