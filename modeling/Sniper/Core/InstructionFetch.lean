import Sniper.Core.MemoryAccess
import Sniper.Lib.Runs
import Mathlib.Data.Nat.Bitwise

/-!
# Instruction fetches of a core

`Core::readInstructionMemory` remembers the cache line that was fetched last and does not access the
instruction cache for it again. An instruction may lie in two lines. When its first line is the one
remembered, the second one is accessed; otherwise only the first one is, and the second is neither
accessed nor remembered.

The counters of the reconfiguration and the latencies are left out.
-/

namespace Sniper.Core

open Nat Strides

/-- The arguments of `readInstructionMemory`. -/
structure Fetch where
  address : ℕ
  instructionSize : ℕ
  deriving DecidableEq, Repr

/-- `address & blockmask`, where the mask is the 64-bit complement of `blockSize - 1`. -/
def lineOf (blockSize address : ℕ) : ℕ := address &&& (2 ^ 64 - 1 - (blockSize - 1))

/-- What `readInstructionMemory` decides before it accesses memory: the line to access, if any, and
the new `m_icache_last_block`. -/
def fetch (blockSize lastBlock : ℕ) (f : Fetch) : Option ℕ × ℕ :=
  let singleCacheLine := lineOf blockSize f.address ==
    lineOf blockSize ((f.address + f.instructionSize + (2 ^ 64 - 1)) % 2 ^ 64)
  if lineOf blockSize f.address = lastBlock then
    if singleCacheLine then (none, lastBlock)
    else
      -- the first line is dropped
      let address := (lineOf blockSize f.address + blockSize) % 2 ^ 64
      (some (lineOf blockSize address), lineOf blockSize address)
  else (some (lineOf blockSize f.address), lineOf blockSize f.address)

/-- The accesses of the instruction cache that `readInstructionMemory` makes. -/
def readInstructionMemory (blockSize fuel lastBlock : ℕ) (f : Fetch) : Option (List Piece) :=
  match (fetch blockSize lastBlock f).1 with
  | none => some []
  | some line => initiateMemoryAccess blockSize fuel line none blockSize

/-- `m_icache_last_block` after some calls; it starts with all bits set. -/
def icacheLastBlock (blockSize : ℕ) (fs : List Fetch) : ℕ :=
  Runs.run (fun lastBlock f => (fetch blockSize lastBlock f).2) (2 ^ 64 - 1) fs

/-- The call returns after it has accessed every line that the instruction overlaps, other than
`lastBlock`. -/
def AccessesLines (blockSize lastBlock : ℕ) (f : Fetch) : Prop :=
  ∃ fuel ps, readInstructionMemory blockSize fuel lastBlock f = some ps ∧
    ∀ i < f.instructionSize, lineOf blockSize ((f.address + i) % 2 ^ 64) ≠ lastBlock →
      ∃ p ∈ ps, p.address = lineOf blockSize ((f.address + i) % 2 ^ 64)

def Fetch.lastLine (f : Fetch) (blockSize : ℕ) : ℕ :=
  lineOf blockSize ((f.address + f.instructionSize - 1) % 2 ^ 64)

/-- The instruction has no second line that is neither accessed nor remembered, and the line that is
accessed is not one of the last two of the address space. -/
def Fetched (blockSize lastBlock : ℕ) (f : Fetch) : Prop :=
  if lineOf blockSize f.address = lastBlock then
    f.lastLine blockSize = lastBlock ∨ f.lastLine blockSize + 2 * blockSize < 2 ^ 64
  else
    lineOf blockSize f.address + 2 * blockSize < 2 ^ 64 ∧
      (f.lastLine blockSize = lineOf blockSize f.address ∨ f.lastLine blockSize = lastBlock)

instance (blockSize lastBlock : ℕ) (f : Fetch) : Decidable (Fetched blockSize lastBlock f) :=
  inferInstanceAs (Decidable (if lineOf blockSize f.address = lastBlock then
      f.lastLine blockSize = lastBlock ∨ f.lastLine blockSize + 2 * blockSize < 2 ^ 64
    else lineOf blockSize f.address + 2 * blockSize < 2 ^ 64 ∧
      (f.lastLine blockSize = lineOf blockSize f.address ∨ f.lastLine blockSize = lastBlock)))

/-! ## Lines -/

lemma lineOf_eq {b address : ℕ} (hb : b ≤ 64) (word : address < 2 ^ 64) :
    lineOf (2 ^ b) address = address / 2 ^ b * 2 ^ b := by
  have mask : 2 ^ 64 - 1 - (2 ^ b - 1) = (2 ^ (64 - b) - 1) * 2 ^ b := by
    have pos := Nat.two_pow_pos b
    rw [Nat.sub_mul, Nat.one_mul, ← Nat.pow_add, Nat.sub_add_cancel hb]
    omega
  rw [lineOf, mask]
  apply eq_of_testBit_eq
  intro i
  rw [testBit_and, testBit_mul_two_pow, testBit_mul_two_pow,
    testBit_two_pow_sub_one, testBit_div_two_pow]
  by_cases low : b ≤ i
  · by_cases high : i < 64
    · simp [low, show i - b < 64 - b by omega, Nat.sub_add_cancel low]
    · have zero : address.testBit i = false :=
        testBit_lt_two_pow (word.trans_le (Nat.pow_le_pow_right (by decide) (by omega)))
      simp [zero, Nat.sub_add_cancel low]
  · simp [low]

lemma lineOf_lt (blockSize address : ℕ) : lineOf blockSize address < 2 ^ 64 := by
  have low : lineOf blockSize address ≤ 2 ^ 64 - 1 - (blockSize - 1) := and_le_right
  omega

section OneBlock

variable {b : ℕ} (hb : b < 32)

include hb

variable {address : ℕ}

lemma lineOf_byte {i : ℕ} (word : address < 2 ^ 64) (near : i < 2 ^ b) :
    lineOf (2 ^ b) ((address + i) % 2 ^ 64) =
      if address + i < lineOf (2 ^ b) address + 2 ^ b then lineOf (2 ^ b) address
      else (lineOf (2 ^ b) address + 2 ^ b) % 2 ^ 64 := by
  have pos := Nat.two_pow_pos b
  have divides : 2 ^ b ∣ 2 ^ 64 := pow_dvd_pow 2 (by omega)
  have round : ∀ y < 2 ^ 64, ∀ line, 2 ^ b ∣ line → line ≤ y → y < line + 2 ^ b →
      lineOf (2 ^ b) y = line := by
    rintro y hy _ ⟨k, rfl⟩ low high
    rw [lineOf_eq (by omega) hy, mul_comm (2 ^ b) k]
    congr 1
    exact Nat.div_eq_of_lt_le (by rwa [Nat.mul_comm]) (by rwa [succ_mul, Nat.mul_comm])
  have start := lineOf_eq (b := b) (by omega) word
  have aligned : 2 ^ b ∣ lineOf (2 ^ b) address := start ▸ dvd_mul_left _ _
  have split := div_add_mod' address (2 ^ b)
  have rest := mod_lt address pos
  have room := add_step_le divides aligned (by omega)
  split
  · next same => exact round _ (mod_lt _ (by decide)) _ aligned (by omega) (by omega)
  · next other =>
    have next : 2 ^ b ∣ (lineOf (2 ^ b) address + 2 ^ b) % 2 ^ 64 :=
      (dvd_mod_iff divides).mpr (Nat.dvd_add aligned (Nat.dvd_refl _))
    have after : lineOf (2 ^ b) address + 2 ^ b = 2 ^ 64 ∨
        lineOf (2 ^ b) address + 2 ^ b + 2 ^ b ≤ 2 ^ 64 := by
      by_cases top : lineOf (2 ^ b) address + 2 ^ b = 2 ^ 64
      · exact .inl top
      · exact .inr (add_step_le divides (Nat.dvd_add aligned (Nat.dvd_refl _)) (by omega))
    exact round _ (mod_lt _ (by decide)) _ next (by omega) (by omega)

variable {f : Fetch}

lemma forall_lines (word : f.address < 2 ^ 64) (nonempty : 1 ≤ f.instructionSize)
    (short : f.instructionSize ≤ 2 ^ b) {P : ℕ → Prop} :
    (∀ i < f.instructionSize, P (lineOf (2 ^ b) ((f.address + i) % 2 ^ 64))) ↔
      P (lineOf (2 ^ b) f.address) ∧ P (f.lastLine (2 ^ b)) := by
  have last : f.lastLine (2 ^ b) =
      lineOf (2 ^ b) ((f.address + (f.instructionSize - 1)) % 2 ^ 64) := by
    rw [Fetch.lastLine, Nat.add_sub_assoc nonempty]
  constructor
  · intro all
    have first := all 0 nonempty
    rw [add_zero, mod_eq_of_lt word] at first
    exact ⟨first, last ▸ all (f.instructionSize - 1) (by omega)⟩
  · rintro ⟨first, final⟩ i inside
    rw [last, lineOf_byte hb word (by omega)] at final
    rw [lineOf_byte hb word (by omega)]
    split
    · exact first
    · next beyond =>
      rw [if_neg (by omega)] at final
      exact final

lemma lineOf_dvd (word : address < 2 ^ 64) : 2 ^ b ∣ lineOf (2 ^ b) address := by
  rw [lineOf_eq (by omega) word]
  exact dvd_mul_left _ _

lemma lastLine_dvd (f : Fetch) : 2 ^ b ∣ f.lastLine (2 ^ b) := lineOf_dvd hb (mod_lt _ (by decide))

lemma line_access_iff {line : ℕ} (aligned : 2 ^ b ∣ line) (word : line < 2 ^ 64)
    {Q : List Piece → Prop} :
    (∃ fuel ps, initiateMemoryAccess (2 ^ b) fuel line none (2 ^ b) = some ps ∧ Q ps) ↔
      line + 2 * 2 ^ b < 2 ^ 64 ∧ Q [⟨line, 0, none, 2 ^ b⟩] := by
  have pos := Nat.two_pow_pos b
  have small : 2 ^ b < 2 ^ 32 := Nat.pow_lt_pow_right (by decide) hb
  have divides : 2 ^ b ∣ 2 ^ 64 := Nat.pow_dvd_pow 2 (by omega)
  have ends : endBlock (2 ^ b) line (2 ^ b) = line + 2 ^ b :=
    Nat.div_mul_cancel (Nat.dvd_add aligned (Nat.dvd_refl _))
  have made : line + 2 * 2 ^ b < 2 ^ 64 →
      initiateMemoryAccess (2 ^ b) 3 line none (2 ^ b) = some [⟨line, 0, none, 2 ^ b⟩] := by
    intro room
    have start : line % 2 ^ b = 0 := mod_eq_zero_of_dvd aligned
    have stop : (line + 2 ^ b) % 2 ^ b = 0 := by rw [add_mod_right, start]
    have visits : visit (2 ^ 64) (2 ^ b) (line + 2 ^ b) 3 line = some (steps (2 ^ b) 1 line) :=
      visit_eq pos (by omega) (by omega) le_rfl
    have whole : sub32 (2 ^ b) 0 = 2 ^ b := sub32_eq small (Nat.zero_le _)
    have nothing : sub32 0 0 = 0 := rfl
    rw [initiateMemoryAccess, if_neg (by omega), mod_eq_of_lt (by omega)]
    simp only [start, stop, Nat.sub_zero, visits, Option.map_some, steps]
    simp [pieces, start, stop, whole, nothing]
  refine ⟨?_, fun both => ⟨3, _, made both.1, both.2⟩⟩
  rintro ⟨fuel, ps, returns, holds⟩
  by_cases room : line + 2 * 2 ^ b < 2 ^ 64
  · exact ⟨room, access_unique returns (made room) ▸ holds⟩
  · exfalso
    have inside := add_step_le divides aligned word
    by_cases top : line + 2 ^ b = 2 ^ 64
    · rw [access_wrapped pos small pos small word (by omega)] at returns
      cases returns
    · have next := add_step_le divides (Nat.dvd_add aligned (Nat.dvd_refl (2 ^ b))) (by omega)
      rw [access_endless divides pos word (by omega) (by omega)] at returns
      cases returns

lemma fetch_line (lastBlock : ℕ) (word : f.address < 2 ^ 64)
    (nonempty : 1 ≤ f.instructionSize) (short : f.instructionSize ≤ 2 ^ b) :
    (fetch (2 ^ b) lastBlock f).1 = if lineOf (2 ^ b) f.address = lastBlock then
        if f.lastLine (2 ^ b) = lastBlock then none else some (f.lastLine (2 ^ b))
      else some (lineOf (2 ^ b) f.address) := by
  have final : lineOf (2 ^ b) ((f.address + f.instructionSize + (2 ^ 64 - 1)) % 2 ^ 64) =
      f.lastLine (2 ^ b) := by
    have same : (f.address + f.instructionSize + (2 ^ 64 - 1)) % 2 ^ 64 =
        (f.address + f.instructionSize - 1) % 2 ^ 64 := by omega
    rw [same, Fetch.lastLine]
  have last : f.lastLine (2 ^ b) = _ :=
    (congrArg (fun n => lineOf (2 ^ b) (n % 2 ^ 64))
      (Nat.add_sub_assoc nonempty f.address)).trans (lineOf_byte hb word (by omega))
  unfold fetch
  rw [final]
  dsimp only
  by_cases known : lineOf (2 ^ b) f.address = lastBlock
  · rw [if_pos known, if_pos known]
    by_cases single : f.lastLine (2 ^ b) = lastBlock
    · rw [if_pos single, if_pos (by rw [known, single, beq_self_eq_true])]
    · have next : f.lastLine (2 ^ b) = (lineOf (2 ^ b) f.address + 2 ^ b) % 2 ^ 64 := by
        split at last
        · exact absurd (last.trans known) single
        · exact last
      have aligned : lineOf (2 ^ b) (f.lastLine (2 ^ b)) = f.lastLine (2 ^ b) := by
        have word : f.lastLine (2 ^ b) < 2 ^ 64 := lineOf_lt _ _
        rw [lineOf_eq (by omega) word]
        exact Nat.div_mul_cancel (lastLine_dvd hb f)
      rw [if_neg single, if_neg (by simpa [known] using Ne.symm single), ← next, aligned]
  · rw [if_neg known, if_neg known]

lemma accessesLines_iff (lastBlock : ℕ) (word : f.address < 2 ^ 64)
    (nonempty : 1 ≤ f.instructionSize) (short : f.instructionSize ≤ 2 ^ b) :
    AccessesLines (2 ^ b) lastBlock f ↔ Fetched (2 ^ b) lastBlock f := by
  have lines : ∀ ps : List Piece, (∀ i < f.instructionSize,
      lineOf (2 ^ b) ((f.address + i) % 2 ^ 64) ≠ lastBlock →
        ∃ p ∈ ps, p.address = lineOf (2 ^ b) ((f.address + i) % 2 ^ 64)) ↔
      (lineOf (2 ^ b) f.address ≠ lastBlock → ∃ p ∈ ps, p.address = lineOf (2 ^ b) f.address) ∧
      (f.lastLine (2 ^ b) ≠ lastBlock → ∃ p ∈ ps, p.address = f.lastLine (2 ^ b)) :=
    fun ps => forall_lines hb word nonempty short
      (P := fun line => line ≠ lastBlock → ∃ p ∈ ps, p.address = line)
  unfold AccessesLines readInstructionMemory Fetched
  simp only [lines, fetch_line hb lastBlock word nonempty short]
  by_cases known : lineOf (2 ^ b) f.address = lastBlock
  · simp only [if_pos known]
    by_cases single : f.lastLine (2 ^ b) = lastBlock
    · simp [known, single]
    · simp only [if_neg single]
      rw [line_access_iff hb (lastLine_dvd hb f) (lineOf_lt _ _)]
      simp [known, single]
  · simp only [if_neg known]
    rw [line_access_iff hb (lineOf_dvd hb word) (lineOf_lt _ _)]
    by_cases seen : f.lastLine (2 ^ b) = lastBlock
    · simp [known, seen]
    · simp [known, seen, eq_comm]

end OneBlock

/-! ## Sequences of fetches -/

/-- In every sequence of fetches, a fetch accesses the lines of its instruction, other than the one
remembered, exactly when it does not skip the second of two lines and keeps away from the end of the
address space. -/
theorem fetch_accesses_lines_iff (b : Fin 32) (fs : List Fetch)
    (legal : ∀ f ∈ fs, f.address < 2 ^ 64 ∧ 1 ≤ f.instructionSize ∧ f.instructionSize ≤ 2 ^ b.val)
    {earlier later : List Fetch} {f : Fetch} (split : fs = earlier ++ f :: later) :
    AccessesLines (2 ^ b.val) (icacheLastBlock (2 ^ b.val) earlier) f ↔
      Fetched (2 ^ b.val) (icacheLastBlock (2 ^ b.val) earlier) f := by
  obtain ⟨word, nonempty, short⟩ := legal f (by simp [split])
  exact accessesLines_iff b.isLt _ word nonempty short

/-- The second fetch finds its first line remembered and accesses the other one. -/
theorem second_fetch_accesses_line : AccessesLines (2 ^ (6 : Fin 32).val)
      (icacheLastBlock (2 ^ (6 : Fin 32).val) [⟨0x1030, 4⟩]) ⟨0x103e, 4⟩ :=
  (fetch_accesses_lines_iff 6 [⟨0x1030, 4⟩, ⟨0x103e, 4⟩] (by decide) rfl).mpr (by decide)

/-- A first fetch across a line boundary does not access the second line. -/
theorem first_fetch_skips_line :
    lineOf (2 ^ 6) (0x103e + 3) = 0x1040 ∧ icacheLastBlock (2 ^ 6) [] ≠ 0x1040 ∧
    readInstructionMemory (2 ^ 6) 3 (icacheLastBlock (2 ^ 6) []) ⟨0x103e, 4⟩ =
      some [⟨0x1000, 0, none, 64⟩] ∧
    ¬ AccessesLines (2 ^ 6) (icacheLastBlock (2 ^ 6) []) ⟨0x103e, 4⟩ := by
  refine ⟨by decide, by decide, by decide, ?_⟩
  rw [accessesLines_iff (by decide) _ (by decide) (by decide) (by decide)]
  decide

end Sniper.Core
