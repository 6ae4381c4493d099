import Mathlib.Algebra.Group.Nat.Defs
import Mathlib.Data.List.Basic

/-!
# Byte streams

Numbers as little-endian bytes, and readers that take bytes off the front of a
stream. `Reads p bs a` says that `p` takes exactly the bytes `bs` and returns `a`,
whatever follows them; its rules follow the way readers are composed. A stream may
also arrive piece by piece: `Steady` readers do not change their mind when more
bytes come in.
-/

namespace ByteStream

abbrev Byte := BitVec 8

/-- The `k` low bytes of a number, lowest first. -/
def bytesOf : Nat → Nat → List Byte
  | 0, _ => []
  | k + 1, x => BitVec.ofNat 8 x :: bytesOf k (x / 256)

def ofBytes : List Byte → Nat
  | [] => 0
  | b :: bs => b.toNat + 256 * ofBytes bs

@[simp] lemma length_bytesOf (k x : Nat) : (bytesOf k x).length = k := by
  induction k generalizing x with
  | zero => rfl
  | succ k ih => simp [bytesOf, ih]

lemma ofBytes_bytesOf (k x : Nat) : ofBytes (bytesOf k x) = x % 256 ^ k := by
  induction k generalizing x with
  | zero => simp [bytesOf, ofBytes, Nat.mod_one]
  | succ k ih =>
    have split : x % 256 ^ (k + 1) = x % 256 + 256 * (x / 256 % 256 ^ k) := by
      rw [Nat.pow_succ, Nat.mul_comm, Nat.mod_mul]
    rw [bytesOf, ofBytes, ih, BitVec.toNat_ofNat, split]

/-! ## Readers -/

universe u

variable {ε : Type u} {α β : Type}

abbrev StreamReader (ε : Type u) (α : Type) := StateT (List Byte) (Except ε) α

/-- The next `k` bytes. -/
def take (short : ε) (k : Nat) : StreamReader ε (List Byte) := fun input =>
  if k ≤ input.length then .ok (input.take k, input.drop k) else .error short

def peek (short : ε) : StreamReader ε Byte := fun input =>
  match input with
  | [] => .error short
  | b :: _ => .ok (b, input)

def check (holds : Prop) [Decidable holds] (e : ε) : StreamReader ε Unit := fun input =>
  if holds then .ok ((), input) else .error e

/-- A number of `k` bytes. -/
def takeNat (short : ε) (k : Nat) : StreamReader ε Nat := ofBytes <$> take short k

/-- A word of `w` bits in `k` bytes. -/
def takeWord (short : ε) (w k : Nat) : StreamReader ε (BitVec w) :=
  BitVec.ofNat w <$> takeNat short k

def takeWords (short : ε) (w k : Nat) : Nat → StreamReader ε (List (BitVec w))
  | 0 => pure []
  | n + 1 => do
    let x ← takeWord short w k
    let xs ← takeWords short w k n
    pure (x :: xs)

/-! ## What a reader reads -/

/-- The reader takes the bytes `bs` and returns `a`. -/
def Reads (p : StreamReader ε α) (bs : List Byte) (a : α) : Prop :=
  ∀ rest, p.run (bs ++ rest) = .ok (a, rest)

/-- The reader fails on every stream that starts with `bs`. -/
def Rejects (p : StreamReader ε α) (bs : List Byte) (e : ε) : Prop :=
  ∀ rest, p.run (bs ++ rest) = .error e

variable {p : StreamReader ε α} {f : α → StreamReader ε β} {bs cs : List Byte} {a : α} {b : β}
  {e : ε}

lemma Reads.pure (a : α) : Reads (pure a : StreamReader ε α) [] a := fun _ => rfl

lemma Reads.bind (first : Reads p bs a) (second : Reads (f a) cs b) :
    Reads (p >>= f) (bs ++ cs) b := by
  intro rest
  rw [StateT.run_bind, List.append_assoc, first]
  exact second rest

lemma Reads.bind_rejects (first : Reads p bs a) (second : Rejects (f a) cs e) :
    Rejects (p >>= f) (bs ++ cs) e := by
  intro rest
  rw [StateT.run_bind, List.append_assoc, first]
  exact second rest

variable {g : α → β}

lemma Reads.map (first : Reads p bs a) : Reads (g <$> p) bs (g a) := by
  intro rest
  rw [StateT.run_map, first]
  rfl

lemma Rejects.bind (first : Rejects p bs e) (f : α → StreamReader ε β) :
    Rejects (p >>= f) bs e := by
  intro rest
  rw [StateT.run_bind, first]
  rfl

lemma Rejects.map (first : Rejects p bs e) : Rejects (g <$> p) bs e := by
  intro rest
  rw [StateT.run_map, first]
  rfl

lemma Reads.last (first : Reads p bs a) : Reads (p >>= fun a => Pure.pure (g a)) bs (g a) := by
  have read := first.bind (f := fun a => Pure.pure (g a)) (Reads.pure (g a))
  rwa [List.append_nil] at read

variable {k : Nat}

lemma Reads.take (short : ε) (length : bs.length = k) : Reads (take short k) bs bs := by
  subst length
  intro rest
  simp [ByteStream.take, StateT.run]

lemma Reads.peek {short : ε} {b : Byte} {f : Byte → StreamReader ε α}
    (rest : Reads (f b) (b :: bs) a) : Reads (peek short >>= f) (b :: bs) a :=
  fun more => rest more

open ByteStream

lemma Rejects.peek {short : ε} {b : Byte} {f : Byte → StreamReader ε α}
    (rest : Rejects (f b) (b :: bs) e) : Rejects (peek short >>= f) (b :: bs) e :=
  fun more => rest more

variable {holds : Prop}

lemma Reads.check [Decidable holds] {g : Unit → StreamReader ε α}
    (h : holds) (rest : Reads (g ()) bs a) : Reads (check holds e >>= g) bs a := by
  intro more
  rw [StateT.run_bind]
  simp only [ByteStream.check, StateT.run, if_pos h]
  exact rest more

lemma Rejects.check [Decidable holds] {g : Unit → StreamReader ε α}
    (h : ¬ holds) : Rejects (ByteStream.check holds e >>= g) bs e := by
  intro more
  rw [StateT.run_bind]
  simp only [ByteStream.check, StateT.run, if_neg h]
  rfl

lemma reads_takeNat (short : ε) (k x : Nat) :
    Reads (takeNat short k) (bytesOf k x) (x % 256 ^ k) := by
  rw [← ofBytes_bytesOf]
  exact (Reads.take short (length_bytesOf k x)).map

variable {w : Nat}

lemma reads_takeWord (short : ε) (fits : w ≤ 8 * k) (x : BitVec w) :
    Reads (takeWord short w k) (bytesOf k x.toNat) x := by
  have bound : x.toNat < 256 ^ k := by
    have enough : 2 ^ w ≤ 2 ^ (8 * k) := Nat.pow_le_pow_right (by decide) fits
    rw [Nat.pow_mul] at enough
    exact Nat.lt_of_lt_of_le x.isLt enough
  have read := (reads_takeNat short k x.toNat).map (g := BitVec.ofNat w)
  rwa [Nat.mod_eq_of_lt bound, BitVec.ofNat_toNat, BitVec.setWidth_eq] at read

lemma reads_takeWords (short : ε) (fits : w ≤ 8 * k) (xs : List (BitVec w)) :
    Reads (takeWords short w k xs.length) (xs.flatMap fun x => bytesOf k x.toNat) xs := by
  induction xs with
  | nil => exact Reads.pure []
  | cons x xs ih => exact (reads_takeWord short fits x).bind ih.last

/-! ## Bytes that arrive later -/

structure Steady (short : ε) (p : StreamReader ε α) : Prop where
  result : ∀ {input a rest}, p.run input = .ok (a, rest) →
    ∀ more, p.run (input ++ more) = .ok (a, rest ++ more)
  fault : ∀ {input e}, p.run input = .error e → e ≠ short → ∀ more, p.run (input ++ more) = .error e

variable {short : ε}

def lift (m : Except ε α) : StreamReader ε α := fun input => m.map fun a => (a, input)

lemma Steady.lift (m : Except ε α) : Steady short (lift m) := by
  cases m with
  | error e => exact ⟨fun run => (by cases run), fun run _ _ => run⟩
  | ok a => exact ⟨fun run _ => (by cases run; rfl), fun run => (by cases run)⟩

open Steady

lemma Steady.pure (a : α) : Steady short (Pure.pure a : StreamReader ε α) := lift (.ok a)

lemma Steady.check [Decidable holds] {e : ε} : Steady short (ByteStream.check holds e) := by
  by_cases h : holds
  · have passes : ByteStream.check holds e = ByteStream.lift (.ok ()) :=
      funext fun input => if_pos h
    rw [passes]
    exact lift _
  · have stops : ByteStream.check holds e = ByteStream.lift (.error e) :=
      funext fun input => if_neg h
    rw [stops]
    exact lift _

lemma Steady.bind (first : Steady short p) (second : ∀ a, Steady short (f a)) :
    Steady short (p >>= f) := by
  constructor
  · intro input b rest run more
    rw [StateT.run_bind] at run ⊢
    cases start : p.run input with
    | error e => rw [start] at run; cases run
    | ok r =>
      rw [start] at run
      rw [first.result start]
      exact (second r.1).result run more
  · intro input e run late more
    rw [StateT.run_bind] at run ⊢
    cases start : p.run input with
    | error e' =>
      rw [start] at run
      cases run
      rw [first.fault start late]
      rfl
    | ok r =>
      rw [start] at run
      rw [first.result start]
      exact (second r.1).fault run late more

lemma Steady.map (first : Steady short p) : Steady short (g <$> p) := by
  have asBind : g <$> p = p >>= fun a => Pure.pure (g a) := (bind_pure_comp g p).symm
  rw [asBind]
  exact first.bind fun a => pure (g a)

lemma Steady.take (k : Nat) : Steady short (ByteStream.take short k) := by
  constructor
  · intro input a rest run more
    simp only [ByteStream.take, StateT.run] at run ⊢
    split at run
    · rename_i enough
      cases run
      rw [if_pos (by rw [List.length_append]; omega), List.take_append_of_le_length enough,
        List.drop_append_of_le_length enough]
    · cases run
  · intro input e run late
    simp only [ByteStream.take, StateT.run] at run
    split at run
    · cases run
    · cases run
      exact absurd rfl late

lemma Steady.peek : Steady short (peek short) := by
  constructor
  · intro input a rest run more
    cases input with
    | nil => cases run
    | cons b bs => cases run; rfl
  · intro input e run late
    cases input with
    | nil => cases run; exact absurd rfl late
    | cons b bs => cases run

lemma Steady.takeNat (k : Nat) : Steady short (takeNat short k) := (take k).map

lemma Steady.takeWord (w k : Nat) : Steady short (takeWord short w k) := (takeNat k).map

lemma Steady.takeWords (w k n : Nat) : Steady short (takeWords short w k n) := by
  induction n with
  | zero => exact pure []
  | succ n ih => exact (takeWord w k).bind fun x => ih.bind fun xs => pure (x :: xs)

end ByteStream
