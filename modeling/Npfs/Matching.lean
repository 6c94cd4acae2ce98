import Mathlib.Tactic

/-!
# Answers and requests

Requests wait, each under a key, and an answer takes the first one that waits under its key.  Before
the answer `k` the requests `more k` come.
-/

/-- The keys of requests and of answers, and the requests that come. -/
structure Matching (α β κ : Type) where
  key : α → κ
  key' : β → κ
  more : ℕ → List α

namespace Matching

/-- The requests that wait, those that were answered, and the answers that found none. -/
structure Desk (α β : Type) where
  waiting : List α
  served : List (α × β)
  lost : List β

variable {α β κ : Type} [DecidableEq κ] (m : Matching α β κ)

/-- The requests `l` come, and then an answer. -/
def answer (desk : Desk α β) (l : List α) (b : β) : Desk α β :=
  let waiting := l ++ desk.waiting
  match waiting.find? fun a => m.key a = m.key' b with
  | none => { desk with waiting, lost := desk.lost ++ [b] }
  | some a =>
    { desk with
      waiting := waiting.eraseP fun a => m.key a = m.key' b
      served := desk.served ++ [(a, b)] }

/-- The answers, one after another. -/
def run (answers : List β) : Desk α β :=
  answers.zipIdx.foldl (fun desk answer => m.answer desk (m.more answer.2) answer.1) ⟨[], [], []⟩

/-- The request has come, and no answer under its key since. -/
def Waits (answers : List β) (a : α) : Prop :=
  ∃ i < answers.length, a ∈ m.more i ∧ ∀ b ∈ answers.drop i, m.key' b ≠ m.key a

/-- Between two requests under one key comes an answer under it. -/
structure Separated (answers : List β) : Prop where
  together : ∀ k < answers.length, ((m.more k).map m.key).Nodup
  between : ∀ i j, i < j → j < answers.length → ∀ a ∈ m.more i, ∀ a' ∈ m.more j,
    m.key a = m.key a' → ∃ b ∈ (answers.take j).drop i, m.key' b = m.key a

variable {m} {desk : Desk α β} {l : List α} {a : α} {b : β} {answers : List β}

theorem run_snoc (answers : List β) (b : β) :
    m.run (answers ++ [b]) = m.answer (m.run answers) (m.more answers.length) b := by
  simp [run, List.zipIdx_append]

omit [DecidableEq κ] in
theorem Separated.front (separated : m.Separated (answers ++ [b])) : m.Separated answers := by
  have longer : answers.length < (answers ++ [b]).length := by simp
  refine ⟨fun k inside => separated.together k (inside.trans longer), ?_⟩
  intro i j before inside a come a' come' same
  have between := separated.between i j before (inside.trans longer) a come a' come' same
  rwa [List.take_append_of_le_length inside.le] at between

/-- With the requests of one more round, the keys of those that wait are different. -/
theorem Separated.nodup (separated : m.Separated (answers ++ [b]))
    (front : ((m.run answers).waiting.map m.key).Nodup ∧
      ∀ a, a ∈ (m.run answers).waiting ↔ m.Waits answers a) :
    ((m.more answers.length ++ (m.run answers).waiting).map m.key).Nodup := by
  rw [List.map_append, List.nodup_append']
  refine ⟨separated.together _ (by simp), front.1, ?_⟩
  rw [List.disjoint_left]
  intro κ new old
  obtain ⟨a, come, rfl⟩ := List.mem_map.mp new
  obtain ⟨a', waits, same⟩ := List.mem_map.mp old
  obtain ⟨i, inside, come', none⟩ := (front.2 a').mp waits
  obtain ⟨b', between, equal⟩ := separated.between i _ inside (by simp) a' come' a come same
  rw [List.take_left] at between
  exact none b' between equal

end Matching
