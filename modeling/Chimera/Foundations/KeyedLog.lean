import Mathlib.Data.List.Infix
import Mathlib.Logic.Function.Basic

/-!
# Keyed stores and the logs of their changes

A store holds at most one value under each key, and a log lists changes of single keys, each with
what the key holds afterwards.  Replaying a log sets every key it mentions to what its last change
says.  A store *reflects* a log when replaying the log over it changes nothing; a store that has
gone through a log reflects it, and so it does every tail of it.  This is why a reader of the log
may begin too early: what the store has already gone through does no harm
(`replay_append_of_reflects`).
-/

namespace KeyedLog

variable {κ ν : Type*}

/-- A change of one key. -/
structure Change (κ ν : Type*) where
  /-- The key. -/
  key : κ
  /-- What it holds afterwards, if anything. -/
  value : Option ν

variable [DecidableEq κ]

/-- The store after a change. -/
def Change.apply (store : κ → Option ν) (c : Change κ ν) : κ → Option ν :=
  Function.update store c.key c.value

/-- The store after the changes of a log. -/
def replay (store : κ → Option ν) (log : List (Change κ ν)) : κ → Option ν :=
  log.foldl Change.apply store

/-- What the last change of a key in the log sets. -/
def last (k : κ) : List (Change κ ν) → Option (Option ν)
  | [] => none
  | c :: log => (last k log).or (if c.key = k then some c.value else none)

/-- Replaying the log over the store changes nothing. -/
def Reflects (store : κ → Option ν) (log : List (Change κ ν)) : Prop := replay store log = store

variable {store : κ → Option ν} {log log' : List (Change κ ν)} {c : Change κ ν} {k : κ}

@[simp] lemma replay_nil : replay store [] = store := rfl

@[simp] lemma replay_cons : replay store (c :: log) = replay (c.apply store) log := rfl

/-- Logs are replayed one after the other. -/
lemma replay_append : replay store (log ++ log') = replay (replay store log) log' :=
  List.foldl_append

/-- After a log, a key holds what its last change sets. -/
lemma replay_apply : replay store log k = (last k log).getD (store k) := by
  induction log generalizing store with
  | nil => rfl
  | cons c log ih =>
    rw [replay_cons, ih, last]
    cases last k log with
    | some v => rfl
    | none =>
      by_cases hk : c.key = k
      · subst hk
        simp [Change.apply]
      · simp [Change.apply, hk, Function.update_of_ne (Ne.symm hk)]

/-- The last change of a key in two logs is in the second one, if it has any. -/
lemma last_append : last k (log ++ log') = (last k log').or (last k log) := by
  induction log with
  | nil => simp [last]
  | cons c log ih => rw [List.cons_append, last, ih, last, Option.or_assoc]

/-- What the last change of a key sets is set by one of the changes. -/
lemma exists_of_last {v : Option ν} (h : last k log = some v) :
    ∃ c ∈ log, c.key = k ∧ c.value = v := by
  induction log with
  | nil => cases h
  | cons c log ih =>
    rw [last] at h
    cases hlast : last k log with
    | some w =>
      rw [hlast, Option.some_or] at h
      obtain ⟨c', hc', hc⟩ := ih (hlast.trans h)
      exact ⟨c', List.mem_cons_of_mem _ hc', hc⟩
    | none =>
      rw [hlast, Option.none_or] at h
      split at h
      · rename_i hkey
        exact ⟨c, List.mem_cons_self, hkey, Option.some.inj h⟩
      · cases h

/-- A key that the log mentions has a last change. -/
lemma last_ne_none (h : c ∈ log) : last c.key log ≠ none := by
  induction log with
  | nil => cases h
  | cons c' log ih =>
    rw [last]
    rcases List.mem_cons.1 h with rfl | h
    · simp
    · simp [ih h]

/-- A store reflects a log when every key holds what its last change sets. -/
lemma reflects_iff : Reflects store log ↔ ∀ k v, last k log = some v → store k = v := by
  constructor
  · intro h k v hv
    rw [← h, replay_apply, hv]
    rfl
  · intro h
    funext k
    rw [replay_apply]
    cases hv : last k log with
    | none => rfl
    | some v => exact (h k v hv).symm

/-- Every store reflects the log without changes. -/
lemma reflects_nil : Reflects store ([] : List (Change κ ν)) := rfl

/-- A store that reflects a log reflects it, with what it goes through next, afterwards. -/
lemma Reflects.append (h : Reflects store log) : Reflects (replay store log') (log ++ log') := by
  refine reflects_iff.2 fun k v hv => ?_
  rw [last_append] at hv
  rw [replay_apply]
  cases hlast : last k log' with
  | some w => simpa [hlast] using hv
  | none =>
    rw [hlast, Option.none_or] at hv
    exact reflects_iff.1 h k v hv

/-- A store that reflects a log reflects every tail of it. -/
lemma Reflects.suffix (h : Reflects store log) (hsuffix : log' <:+ log) :
    Reflects store log' := by
  obtain ⟨before, rfl⟩ := hsuffix
  refine reflects_iff.2 fun k v hv => reflects_iff.1 h k v ?_
  rw [last_append, hv, Option.some_or]

/-- **Beginning too early does no harm.**  What a store reflects can be replayed once more before
what comes next. -/
theorem replay_append_of_reflects (h : Reflects store log) :
    replay store (log ++ log') = replay store log' := by
  rw [replay_append, h]

end KeyedLog
