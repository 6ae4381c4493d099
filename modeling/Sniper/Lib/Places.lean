import Mathlib.Data.List.Nodup

/-!
# Waiting in one place

Things wait in a family of queues. The family is exclusive when each of them waits in at most
one place, and once there. Joining a queue from outside and leaving one keep this, and change
who waits by just the one that joins or leaves.
-/

namespace Places

open Function List

variable {ι α : Type*} {queue : ι → List α} {a b : α}

structure Exclusive (queue : ι → List α) : Prop where
  nodup : ∀ i, (queue i).Nodup
  unique : ∀ i j a, a ∈ queue i → a ∈ queue j → i = j

def Queued (queue : ι → List α) (a : α) : Prop := ∃ i, a ∈ queue i

lemma Exclusive.of_nil (empty : ∀ i, queue i = []) : Exclusive queue where
  nodup i := by
    rw [empty i]
    exact nodup_nil
  unique i j a mem := by
    rw [empty i] at mem
    cases mem

lemma Exclusive.queued_iff (exclusive : Exclusive queue) : Queued queue a ↔ ∃! i, a ∈ queue i := by
  constructor
  · rintro ⟨i, mem⟩
    exact ⟨i, mem, fun j there => exclusive.unique j i a there mem⟩
  · rintro ⟨i, mem, -⟩
    exact ⟨i, mem⟩

variable [DecidableEq ι]

lemma Exclusive.nodup_update (exclusive : Exclusive queue) {i : ι} {l : List α}
    (nodup : l.Nodup) (j : ι) : (update queue i l j).Nodup := by
  by_cases same : j = i
  · subst same
    rw [update_self]
    exact nodup
  · rw [update_of_ne same]
    exact exclusive.nodup j

/-! ## Joining -/

lemma mem_push {i j : ι} : b ∈ update queue i (queue i ++ [a]) j ↔
    b ∈ queue j ∨ (j = i ∧ b = a) := by
  by_cases same : j = i
  · subst same
    simp
  · simp [same]

lemma queued_push (i : ι) :
    Queued (update queue i (queue i ++ [a])) b ↔ Queued queue b ∨ b = a := by
  simp only [Queued, mem_push]
  constructor
  · rintro ⟨j, mem | ⟨-, same⟩⟩
    · exact .inl ⟨j, mem⟩
    · exact .inr same
  · rintro (⟨j, mem⟩ | same)
    · exact ⟨j, .inl mem⟩
    · exact ⟨i, .inr ⟨rfl, same⟩⟩

lemma Exclusive.push (exclusive : Exclusive queue) (i : ι) (outside : ¬ Queued queue a) :
    Exclusive (update queue i (queue i ++ [a])) where
  nodup := by
    refine exclusive.nodup_update ((exclusive.nodup i).append (nodup_singleton a) ?_)
    rintro b mem (_ | ⟨_, ⟨⟩⟩)
    exact outside ⟨i, mem⟩
  unique j k b there also := by
    rcases mem_push.mp there with mem | ⟨rfl, rfl⟩
    · rcases mem_push.mp also with mem' | ⟨rfl, rfl⟩
      · exact exclusive.unique j k b mem mem'
      · exact absurd ⟨j, mem⟩ outside
    · rcases mem_push.mp also with mem' | ⟨rfl, -⟩
      · exact absurd ⟨k, mem'⟩ outside
      · rfl

/-! ## Leaving -/

variable {i : ι} {rest : List α}

lemma Exclusive.mem_remove (exclusive : Exclusive queue) (leaves : (queue i).Perm (a :: rest))
    {j : ι} : b ∈ update queue i rest j ↔ b ∈ queue j ∧ b ≠ a := by
  have inside : a ∈ queue i := leaves.mem_iff.mpr mem_cons_self
  have once : a ∉ rest := (nodup_cons.mp (leaves.nodup_iff.mp (exclusive.nodup i))).1
  by_cases same : j = i
  · subst same
    rw [update_self, leaves.mem_iff, mem_cons]
    constructor
    · intro mem
      refine ⟨.inr mem, ?_⟩
      rintro rfl
      exact once mem
    · rintro ⟨rfl | mem, other⟩
      · exact absurd rfl other
      · exact mem
  · rw [update_of_ne same]
    constructor
    · intro mem
      refine ⟨mem, ?_⟩
      rintro rfl
      exact same (exclusive.unique j i b mem inside)
    · exact And.left

lemma Exclusive.queued_remove (exclusive : Exclusive queue) (leaves : (queue i).Perm (a :: rest)) :
    Queued (update queue i rest) b ↔ Queued queue b ∧ b ≠ a := by
  simp only [Queued, exclusive.mem_remove leaves]
  constructor
  · rintro ⟨j, mem, other⟩
    exact ⟨⟨j, mem⟩, other⟩
  · rintro ⟨⟨j, mem⟩, other⟩
    exact ⟨j, mem, other⟩

lemma Exclusive.remove (exclusive : Exclusive queue) (leaves : (queue i).Perm (a :: rest)) :
    Exclusive (update queue i rest) where
  nodup := exclusive.nodup_update (nodup_cons.mp (leaves.nodup_iff.mp (exclusive.nodup i))).2
  unique j k b there also := by
    exact exclusive.unique j k b ((exclusive.mem_remove leaves).mp there).1
      ((exclusive.mem_remove leaves).mp also).1

/-! ## Everybody leaves -/

lemma mem_clear {i j : ι} : b ∈ update queue i [] j ↔ b ∈ queue j ∧ j ≠ i := by
  by_cases same : j = i
  · subst same
    simp
  · simp [same]

lemma Exclusive.clear (exclusive : Exclusive queue) (i : ι) : Exclusive (update queue i []) where
  nodup := exclusive.nodup_update nodup_nil
  unique j k b there also := by
    exact exclusive.unique j k b (mem_clear.mp there).1 (mem_clear.mp also).1

lemma Exclusive.queued_clear (exclusive : Exclusive queue) (i : ι) :
    Queued (update queue i []) b ↔ Queued queue b ∧ b ∉ queue i := by
  simp only [Queued, mem_clear]
  constructor
  · rintro ⟨j, mem, other⟩
    exact ⟨⟨j, mem⟩, fun here => other (exclusive.unique j i b mem here)⟩
  · rintro ⟨⟨j, mem⟩, outside⟩
    refine ⟨j, mem, ?_⟩
    rintro rfl
    exact outside mem

end Places
