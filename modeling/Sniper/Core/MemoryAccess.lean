import Sniper.Cache.Block
import Sniper.Lib.Cyclic
import Mathlib.Order.Lattice.Nat

/-!
# Memory accesses of a core

`Core::initiateMemoryAccess` cuts an access into one piece for each cache block and hands the pieces
to the memory manager. Its loop runs through the blocks from that of the first byte to that of the
byte after the last one. An access that ends in or just before the last block of the address space
sends it around for ever.

Addresses are numbers below `2 ^ 64` and sizes are numbers below `2 ^ 32`, with explicit reduction.
-/

namespace Sniper.Core

open Nat Strides Option

/-- The arguments of `coreInitiateMemoryAccess` that say which bytes are accessed: an aligned
address, the offset in the block, the buffer of the core, if there is one, and the number of
bytes. -/
structure Piece where
  address : ℕ
  offset : ℕ
  dataBuf : Option ℕ
  dataLength : ℕ
  deriving DecidableEq, Repr

def sub32 (a b : ℕ) : ℕ := (2 ^ 32 + a - b) % 2 ^ 32

lemma sub32_eq {a b : ℕ} (ha : a < 2 ^ 32) (h : b ≤ a) : sub32 a b = a - b := by
  unfold sub32
  omega

/-- The turns of the loop for the given blocks. `head` is how far `curr_data_buffer_head` is from
the start of the buffer. -/
def pieces (blockSize beginAddr endAddr : ℕ) (dataBuf : Option ℕ) : List ℕ → ℕ → List Piece
  | [], _ => []
  | curr :: blocks, head =>
    let offset := if curr = beginAddr - beginAddr % blockSize then beginAddr % blockSize else 0
    if curr = endAddr - endAddr % blockSize then
      let size := sub32 (endAddr % blockSize) offset
      if size = 0 then pieces blockSize beginAddr endAddr dataBuf blocks head
      else ⟨curr, offset, dataBuf.map (· + head), size⟩ ::
        pieces blockSize beginAddr endAddr dataBuf blocks (head + size)
    else
      let size := sub32 blockSize offset
      ⟨curr, offset, dataBuf.map (· + head), size⟩ ::
        pieces blockSize beginAddr endAddr dataBuf blocks (head + size)

/-- The calls of `coreInitiateMemoryAccess` that an access makes; `none` when the loop takes more
turns than `fuel`, or makes no call and the last assertion finds `HitWhere::UNKNOWN`. -/
def initiateMemoryAccess (blockSize fuel address : ℕ) (dataBuf : Option ℕ) (dataSize : ℕ) :
    Option (List Piece) :=
  if dataSize = 0 then some []
  else
    let endAddr := (address + dataSize) % 2 ^ 64
    ((Strides.visit (2 ^ 64) blockSize (endAddr - endAddr % blockSize) fuel
      (address - address % blockSize)).map
        fun blocks => pieces blockSize address endAddr dataBuf blocks 0).filter (· ≠ [])

def total (ps : List Piece) : ℕ := (ps.map Piece.dataLength).sum

lemma total_cons (p : Piece) (ps : List Piece) : total (p :: ps) = p.dataLength + total ps :=
  List.sum_cons

/-- The pieces are not empty, each lies in one aligned block, their byte ranges follow one another
from `address` on and have `size` bytes together, and the buffer of each is `done` bytes and the
bytes of the earlier pieces behind `dataBuf`. -/
structure Covers (blockSize : ℕ) (dataBuf : Option ℕ) (address done size : ℕ)
    (ps : List Piece) : Prop where
  inBlock : ∀ p ∈ ps, 0 < p.dataLength ∧ blockSize ∣ p.address ∧ p.offset + p.dataLength ≤ blockSize
  consecutive : ∀ earlier p later, ps = earlier ++ p :: later →
    p.address + p.offset = address + total earlier ∧
      p.dataBuf = dataBuf.map (· + (done + total earlier))
  exact : total ps = size

/-- The address of the block that the byte after the access lies in. -/
def endBlock (blockSize address dataSize : ℕ) : ℕ :=
  (address + dataSize) / blockSize * blockSize

/-! ## The pieces -/

variable {B address size done fuel : ℕ} {dataBuf : Option ℕ}

lemma Covers.nil : Covers B dataBuf address done 0 [] := ⟨by simp, by simp, rfl⟩

lemma Covers.cons {block offset length : ℕ} {ps : List Piece} (nonempty : 0 < length)
    (aligned : B ∣ block) (fits : offset + length ≤ B) (first : block + offset = address)
    (rest : Covers B dataBuf (address + length) (done + length) size ps) :
    Covers B dataBuf address done (length + size)
      (⟨block, offset, dataBuf.map (· + done), length⟩ :: ps) := by
  refine ⟨?_, ?_, ?_⟩
  · simp only [List.forall_mem_cons]
    exact ⟨⟨nonempty, aligned, fits⟩, rest.inBlock⟩
  · intro earlier p later cut
    cases earlier with
    | nil =>
      obtain ⟨rfl, -⟩ := List.cons.inj cut
      exact ⟨first, rfl⟩
    | cons e earlier =>
      obtain ⟨rfl, tail⟩ := List.cons.inj cut
      obtain ⟨follows, behind⟩ := rest.consecutive earlier p later tail
      rw [total_cons, follows, behind]
      exact ⟨add_assoc .., by rw [add_assoc]⟩
  · rw [total_cons, rest.exact]

lemma endBlock_add_mod (B address size : ℕ) :
    endBlock B address size + (address + size) % B = address + size :=
  div_add_mod' (address + size) B

lemma offset_eq {curr : ℕ} (begun : curr = address - address % B ∨ address < curr) :
    (if curr = address - address % B then address % B else 0) = max address curr - curr := by
  have low := mod_le address B
  split <;> omega

lemma pieces_covers (pos : 0 < B) (word : B < 2 ^ 32) (nonempty : 0 < size) {turns curr : ℕ}
    (aligned : B ∣ curr) (reaches : curr + turns * B = endBlock B address size)
    (begun : curr = address - address % B ∨ address < curr) (started : address < curr + B) :
    Covers B dataBuf (max address curr) done (address + size - max address curr)
      (pieces B address (address + size) dataBuf (steps B turns curr) done) := by
  have split := endBlock_add_mod B address size
  have rest := mod_lt (address + size) pos
  induction turns generalizing curr done with
  | zero =>
    have last : curr = address + size - (address + size) % B := by omega
    rw [steps, pieces, if_pos last, offset_eq begun, sub32_eq (by omega) (by omega)]
    simp only [pieces]
    split
    · next none =>
      rw [show address + size - max address curr = 0 by omega]
      exact Covers.nil
    · next some =>
      have left : address + size - max address curr =
          (address + size) % B - (max address curr - curr) + 0 := by omega
      rw [left]
      exact Covers.cons (by omega) aligned (by omega) (by omega) Covers.nil
  | succ turns ih =>
    rw [succ_mul] at reaches
    have notLast : curr ≠ address + size - (address + size) % B := by omega
    have here : max address (curr + B) = max address curr + (B - (max address curr - curr)) := by
      omega
    have left : address + size - max address curr = B - (max address curr - curr) +
          (address + size - (max address curr + (B - (max address curr - curr)))) := by omega
    rw [steps, pieces, if_neg notLast, offset_eq begun, sub32_eq (by omega) (by omega), left]
    refine Covers.cons (by omega) aligned (by omega) (by omega) ?_
    rw [← here]
    exact ih (Nat.dvd_add aligned (Nat.dvd_refl B)) (by omega) (.inr started) (by omega)

/-! ## The whole access -/

lemma access_unique {fuel' : ℕ} {ps qs : List Piece}
    (hp : initiateMemoryAccess B fuel address dataBuf size = some ps)
    (hq : initiateMemoryAccess B fuel' address dataBuf size = some qs) : ps = qs := by
  unfold initiateMemoryAccess at hp hq
  split at hp
  · next none =>
    rw [if_pos none] at hq
    exact some.inj (hp.symm.trans hq)
  · next some =>
    rw [if_neg some] at hq
    obtain ⟨xs, first, rfl⟩ := map_eq_some_iff.mp (filter_eq_some_iff.mp hp).1
    obtain ⟨ys, second, rfl⟩ := map_eq_some_iff.mp (filter_eq_some_iff.mp hq).1
    rw [visit_unique first second]

lemma access_covers (pos : 0 < B) (word : B < 2 ^ 32) (nonempty : 0 < size)
    (room : endBlock B address size + B < 2 ^ 64) (dataBuf : Option ℕ) :
    ∃ fuel ps, initiateMemoryAccess B fuel address dataBuf size = some ps ∧
      Covers B dataBuf address 0 size ps := by
  have split := endBlock_add_mod B address size
  have rest := mod_lt (address + size) pos
  have first := div_add_mod' address B
  have start := mod_lt address pos
  have noWrap : (address + size) % 2 ^ 64 = address + size := mod_eq_of_lt (by omega)
  have ends : address + size - (address + size) % B = endBlock B address size := by omega
  have reaches : address - address % B + ((address + size) / B - address / B) * B =
      endBlock B address size := by
    have order : address / B * B ≤ (address + size) / B * B :=
      Nat.mul_le_mul_right B (Nat.div_le_div_right (Nat.le_add_right address size))
    rw [Nat.sub_mul, endBlock]
    omega
  have begins : max address (address - address % B) = address := by omega
  have whole : Covers B dataBuf (max address (address - address % B)) 0
      (address + size - max address (address - address % B)) (pieces B address (address + size)
        dataBuf (steps B ((address + size) / B - address / B) (address - address % B)) 0) :=
    pieces_covers pos word nonempty (dvd_sub_mod address) reaches (.inl rfl) (by omega)
  rw [begins, Nat.add_sub_cancel_left] at whole
  refine ⟨(address + size) / B - address / B + 2, _, ?_, whole⟩
  rw [initiateMemoryAccess, if_neg (by omega), noWrap]
  dsimp only
  rw [ends, visit_eq pos room reaches le_rfl, map_some, filter_some, if_pos]
  refine decide_eq_true fun none => ?_
  have sum := whole.exact
  rw [none] at sum
  exact absurd sum.symm (ne_of_gt nonempty)

lemma access_endless (divides : B ∣ 2 ^ 64) (nonempty : 0 < size) (word : address < 2 ^ 64)
    (inside : address + size < 2 ^ 64) (top : endBlock B address size + B = 2 ^ 64)
    (dataBuf : Option ℕ) (fuel : ℕ) : initiateMemoryAccess B fuel address dataBuf size = none := by
  have split := endBlock_add_mod B address size
  have ends : address + size - (address + size) % B = endBlock B address size := by omega
  rw [initiateMemoryAccess, if_neg (by omega), mod_eq_of_lt inside]
  dsimp only
  rw [ends, visit_endless divides top (dvd_sub_mod address) (by omega)]
  rfl

lemma access_wrapped (pos : 0 < B) (word : B < 2 ^ 32) (nonempty : 0 < size)
    (short : size < 2 ^ 32) (high : address < 2 ^ 64) (wraps : 2 ^ 64 ≤ address + size)
    (dataBuf : Option ℕ) (fuel : ℕ) : initiateMemoryAccess B fuel address dataBuf size = none := by
  have start := mod_lt address pos
  have past : (address + size) % 2 ^ 64 - (address + size) % 2 ^ 64 % B <
      address - address % B := by
    omega
  rw [initiateMemoryAccess, if_neg (by omega)]
  cases fuel with
  | zero => rfl
  | succ fuel =>
    dsimp only
    rw [visit_past past]
    rfl

/-- An access is cut into pieces that cover it exactly unless the byte after it lies in the last
block of the address space or beyond it. -/
theorem access_exact_iff (b : Fin 32) (address : IntPtr) (dataSize : BitVec 32)
    (nonempty : 1 ≤ dataSize.toNat) (dataBuf : Option ℕ) :
    (∃ fuel ps,
      initiateMemoryAccess (2 ^ b.val) fuel address.toNat dataBuf dataSize.toNat = some ps ∧
      Covers (2 ^ b.val) dataBuf address.toNat 0 dataSize.toNat ps) ↔
    endBlock (2 ^ b.val) address.toNat dataSize.toNat + 2 ^ b.val < 2 ^ 64 := by
  have pos : 0 < 2 ^ b.val := Nat.two_pow_pos b.val
  have word : 2 ^ b.val < 2 ^ 32 := Nat.pow_lt_pow_right (by decide) b.isLt
  have divides : 2 ^ b.val ∣ 2 ^ 64 := pow_dvd_pow 2 (by omega)
  refine ⟨?_, fun room => access_covers pos word nonempty room dataBuf⟩
  rintro ⟨fuel, ps, returns, -⟩
  by_contra full
  by_cases wraps : 2 ^ 64 ≤ address.toNat + dataSize.toNat
  · rw [access_wrapped pos word nonempty dataSize.isLt address.isLt wraps] at returns
    cases returns
  · have split := endBlock_add_mod (2 ^ b.val) address.toNat dataSize.toNat
    have top : endBlock (2 ^ b.val) address.toNat dataSize.toNat + 2 ^ b.val = 2 ^ 64 := by
      have room : endBlock (2 ^ b.val) address.toNat dataSize.toNat + 2 ^ b.val ≤ 2 ^ 64 :=
        add_step_le divides (dvd_mul_left _ _) (by omega)
      omega
    rw [access_endless divides nonempty address.isLt (by omega) top] at returns
    cases returns

/-- One hundred bytes that start inside a block of 64. -/
theorem hundred_bytes_exact :
    ∃ fuel ps, initiateMemoryAccess (2 ^ (6 : Fin 32).val) fuel (0x1030 : IntPtr).toNat (some 7)
        (100 : BitVec 32).toNat = some ps ∧
      Covers (2 ^ (6 : Fin 32).val) (some 7) (0x1030 : IntPtr).toNat 0 (100 : BitVec 32).toNat ps :=
  (access_exact_iff 6 0x1030 100 (by decide) (some 7)).mpr (by decide)

/-- The block after the last byte is the last one of the address space, and the access, which ends
where that block begins, does not return. -/
theorem access_before_last_block_endless : (2 ^ 64 - 128 + 64 - 1) / 64 * 64 + 64 < 2 ^ 64 ∧
    ∀ fuel dataBuf, initiateMemoryAccess 64 fuel (2 ^ 64 - 128) dataBuf 64 = none :=
  ⟨by decide, fun fuel dataBuf => access_endless (by decide) (by decide) (by decide) (by decide)
    (by decide) dataBuf fuel⟩

end Sniper.Core
