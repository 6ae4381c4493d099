import Mathlib.Data.List.Basic
import Mathlib.Data.List.FinRange
import Mathlib.Data.List.TakeWhile

/-!
# Fallible steps

A step that may stop on a failed assertion is a value of `Except`. `Ensures`
speaks about the result of a step that does not stop, and `Returns` says that it
does not stop either. Their rules follow the way such steps are composed, and a
rule for runs carries an invariant through any sequence of inputs that trips no
assertion.
-/

namespace Fallible

universe u v

variable {ε : Type u} {α β σ : Type} {ι : Type v}

variable {b : β}

lemma bind_eq_ok {m : Except ε α} {f : α → Except ε β} :
    m.bind f = .ok b ↔ ∃ a, m = .ok a ∧ f a = .ok b := by
  cases m with
  | error e => simp [Except.bind]
  | ok a => simp [Except.bind]

lemma map_eq_ok {m : Except ε α} {f : α → β} : m.map f = .ok b ↔ ∃ a, m = .ok a ∧ f a = b := by
  cases m with
  | error e => simp [Except.map]
  | ok a => simp [Except.map]

lemma exists_of_toOption {m : Except ε α} {f : α → β} (computed : m.toOption.map f = some b) :
    ∃ a, m = .ok a ∧ f a = b := by
  cases m with
  | error e => cases computed
  | ok a => exact ⟨a, rfl, Option.some.inj computed⟩

variable {e : ε}

lemma bind_eq_error {m : Except ε α} {f : α → Except ε β} :
    m.bind f = .error e ↔ m = .error e ∨ ∃ a, m = .ok a ∧ f a = .error e := by
  cases m with
  | error e' => simp [Except.bind]
  | ok a => simp [Except.bind]

lemma map_eq_error {m : Except ε α} {f : α → β} : m.map f = .error e ↔ m = .error e := by
  cases m with
  | error e' => simp [Except.map]
  | ok a => simp [Except.map]

def require (holds : Prop) [Decidable holds] (e : ε) : Except ε Unit :=
  if holds then .ok () else .error e

/-- Whenever the step succeeds its result satisfies `Q`. -/
def Ensures (m : Except ε α) (Q : α → Prop) : Prop := ∀ a, m = .ok a → Q a

variable {m : Except ε α} {f : α → Except ε β} {P P' : α → Prop} {Q : β → Prop}

variable {a : α}

lemma Ensures.ok (h : P a) : Ensures (.ok a : Except ε α) P := by
  rintro _ ⟨⟩
  exact h

lemma Ensures.error : Ensures (.error e : Except ε α) P := by
  rintro _ ⟨⟩

lemma Ensures.mono (first : Ensures m P) (weaken : ∀ a, P a → P' a) : Ensures m P' :=
  fun a ha => weaken a (first a ha)

lemma Ensures.andIf {c : Prop} (first : Ensures m P) (also : c → Ensures m P') :
    Ensures m fun a => P a ∧ (c → P' a) :=
  fun a ha => ⟨first a ha, fun given => also given a ha⟩

lemma Ensures.bind (first : Ensures m P) (rest : ∀ a, P a → Ensures (f a) Q) :
    Ensures (m >>= f) Q := by
  cases m with
  | error e => exact .error
  | ok a => exact rest a (first a rfl)

lemma Ensures.after (rest : ∀ a, Ensures (f a) Q) : Ensures (m >>= f) Q :=
  Ensures.bind (P := fun _ => True) (fun _ _ => trivial) fun a _ => rest a

lemma Ensures.require {holds : Prop} [Decidable holds] {g : Unit → Except ε β}
    (rest : holds → Ensures (g ()) Q) : Ensures (Fallible.require holds e >>= g) Q := by
  unfold Fallible.require
  split
  · rename_i h
    exact rest h
  · exact .error

/-- The step succeeds, and its result satisfies `Q`. -/
def Returns (m : Except ε α) (Q : α → Prop) : Prop := ∃ a, m = .ok a ∧ Q a

lemma Returns.ok (h : P a) : Returns (.ok a : Except ε α) P := ⟨a, rfl, h⟩

lemma Returns.mono (first : Returns m P) (weaken : ∀ a, P a → P' a) : Returns m P' := by
  obtain ⟨a, rfl, h⟩ := first
  exact .ok (weaken a h)

lemma Returns.bind (first : Returns m P) (rest : ∀ a, P a → Returns (f a) Q) :
    Returns (m.bind f) Q := by
  obtain ⟨a, rfl, h⟩ := first
  exact rest a h

lemma Returns.map {g : α → β} (first : Returns m P) (gives : ∀ a, P a → Q (g a)) :
    Returns (m.map g) Q := by
  obtain ⟨a, rfl, h⟩ := first
  exact .ok (gives a h)

lemma Returns.and (first : Returns m P) (also : Ensures m P') : Returns m fun a => P a ∧ P' a := by
  obtain ⟨a, ran, h⟩ := first
  exact ⟨a, ran, h, also a ran⟩

variable {I : σ → Prop} {s : σ}

lemma Ensures.run {step : σ → ι → Except ε σ}
    (keep : ∀ s i, I s → Ensures (step s i) I) (start : I s) (is : List ι) :
    Ensures (is.foldlM step s) I := by
  induction is generalizing s with
  | nil => exact .ok start
  | cons i is ih => exact (keep s i start).bind fun _ => ih

lemma foldlM_keeps {step : σ → ι → Option σ}
    (keep : ∀ s i s', I s → step s i = some s' → I s') {s' : σ} (start : I s) {is : List ι}
    (ran : is.foldlM step s = some s') : I s' := by
  induction is generalizing s with
  | nil =>
    cases ran
    exact start
  | cons i is ih =>
    obtain ⟨between, first, rest⟩ := Option.bind_eq_some_iff.mp ran
    exact ih (keep s i between start first) rest

end Fallible

/-!
## Arrays with bounds

An array of `n` entries is a function on `Fin n` that programs reach by plain numbers. An access
outside the array is `none`, and so is every program that makes one. A loop whose body stays inside
the array for each of its entries computes what the same loop on `Fin n` computes.
-/

namespace Checked

variable {α β γ : Type*} {n : Nat}

variable (xs : Fin n → α)

def read (i : Nat) : Option α :=
  if h : i < n then some (xs ⟨i, h⟩) else none

def write (i : Nat) (a : α) : Option (Fin n → α) :=
  if h : i < n then some (Function.update xs ⟨i, h⟩ a) else none

@[simp] lemma read_val (i : Fin n) : read xs i.val = some (xs i) := dif_pos i.isLt

@[simp] lemma write_val (i : Fin n) (a : α) : write xs i.val a = some (Function.update xs i a) :=
  dif_pos i.isLt

variable {a : α} {i : Nat} {xs : Fin n → α}

lemma read_eq_some (h : read xs i = some a) : ∃ j : Fin n, j.val = i ∧ xs j = a := by
  rw [read] at h
  split at h
  · next inside => exact ⟨⟨i, inside⟩, rfl, Option.some.inj h⟩
  · cases h

lemma write_eq_some {ys : Fin n → α} (h : write xs i a = some ys) :
    ∃ j : Fin n, j.val = i ∧ Function.update xs j a = ys := by
  rw [write] at h
  split at h
  · next inside => exact ⟨⟨i, inside⟩, rfl, Option.some.inj h⟩
  · cases h

def readAll (xs : Fin n → α) : List Nat → Option Unit
  | [] => some ()
  | i :: is => (read xs i).bind fun _ => readAll xs is

lemma readAll_eq (xs : Fin n → α) (is : List Nat) :
    readAll xs is = if ∀ i ∈ is, i < n then some () else none := by
  induction is with
  | nil => simp [readAll]
  | cons i is ih =>
    by_cases inside : i < n
    · simp [readAll, read, inside, ih]
    · simp [readAll, read, inside]

lemma readAll_range (xs : Fin n → α) (m : Nat) :
    readAll xs (List.range m) = if m ≤ n then some () else none := by
  rw [readAll_eq]
  refine if_congr ?_ rfl rfl
  simp only [List.mem_range]
  exact ⟨fun inside => Nat.le_of_not_lt fun short => absurd (inside n short) (lt_irrefl n),
    fun wide i low => low.trans_le wide⟩

/-! ### Loops -/

lemma range_eq_map (n : Nat) : List.range n = (List.finRange n).map Fin.val :=
  List.map_coe_finRange_eq_range.symm

inductive Verdict where
  | next
  | leave
  | take

def scan (body : Nat → Option Verdict) : List Nat → Option (Option Nat)
  | [] => some none
  | i :: is =>
    match body i with
    | none => none
    | some .next => scan body is
    | some .leave => some none
    | some .take => some (some i)

variable {body : Nat → Option Verdict}

lemma scan_val (leaves takes : Fin n → Bool) (inside : ∀ i : Fin n,
      body i.val = some (if leaves i then .leave else if takes i then .take else .next))
    (is : List (Fin n)) :
    scan body (is.map Fin.val) =
      some (((is.takeWhile fun i => !leaves i).find? takes).map Fin.val) := by
  induction is with
  | nil => rfl
  | cons i is ih =>
    rw [List.map_cons, scan, inside i]
    cases left : leaves i with
    | true => simp [left]
    | false =>
      cases taken : takes i with
      | true => simp [left, taken]
      | false => simp [left, taken, ih]

lemma scan_find (takes : Fin n → Bool)
    (inside : ∀ i : Fin n, body i.val = some (if takes i then .take else .next))
    (is : List (Fin n)) : scan body (is.map Fin.val) = some ((is.find? takes).map Fin.val) := by
  have found := scan_val (fun _ => false) takes (by simpa using inside) is
  have whole : is.takeWhile (fun _ => !false) = is := List.takeWhile_eq_self_iff.mpr fun _ _ => rfl
  rwa [whole] at found

lemma foldlM_val {f : β → Nat → Option β} (g : γ → Fin n → γ) (form : γ → β)
    (inside : ∀ c (i : Fin n), f (form c) i.val = some (form (g c i))) (is : List (Fin n)) (c : γ) :
    (is.map Fin.val).foldlM f (form c) = some (form (is.foldl g c)) := by
  induction is generalizing c with
  | nil => rfl
  | cons i is ih =>
    rw [List.map_cons, List.foldlM_cons, inside c i]
    exact ih (g c i)

end Checked
