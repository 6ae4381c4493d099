import Sniper.Sift.Code
import Sniper.Sift.Writer
import Sniper.Lib.Cyclic

/-!
# The pages of an instruction

In page mode `Writer::Instruction` sends the pages from that of the first byte to that of the last
byte of the instruction, unless they were sent before. The loop ends when its address is past the
last page, and no address is past the last page of the address space.
-/

namespace Sniper.Sift.Writer

open Strides

variable {cfg : WriterConfig} {w : Writer} {base last p addr : IntPtr} {size : ℕ}

def Overlaps (page addr : IntPtr) (size : ℕ) : Prop :=
  IsPage page ∧ page.toNat < addr.toNat + size ∧ addr.toNat < page.toNat + icacheSize

def topPage : IntPtr := 0xfffffffffffff000

lemma sendPage_icache : (sendPage cfg w base).icache p = true ↔ w.icache p = true ∨ p = base := by
  unfold sendPage
  split
  · next sent => refine ⟨.inl, fun either => either.elim id fun here => here ▸ sent⟩
  · by_cases here : p = base
    · simp [markSent, here]
    · simp [markSent, write, here]

lemma sendPages_eq (cfg : WriterConfig) (rounds : ℕ) (w : Writer) (base last : IntPtr) :
    sendPages cfg rounds w base last =
      (visit (2 ^ 64) icacheSize last.toNat rounds base.toNat).elim (.error .endless)
        fun pages => .ok ((pages.map (BitVec.ofNat 64)).foldl (sendPage cfg) w) := by
  induction rounds generalizing w base with
  | zero => rfl
  | succ rounds ih =>
    have next : (base + BitVec.ofNat 64 icacheSize).toNat = (base.toNat + icacheSize) % 2 ^ 64 := by
      simp [icacheSize]
    rw [sendPages, visit, ih, next]
    by_cases more : base.toNat ≤ last.toNat
    · rw [if_pos (BitVec.le_def.mpr more), if_pos more]
      cases visit (2 ^ 64) icacheSize last.toNat rounds ((base.toNat + icacheSize) % 2 ^ 64) with
      | none => rfl
      | some pages => simp
    · rw [if_neg fun le => more (BitVec.le_def.mp le), if_neg more]
      rfl

lemma foldl_sendPage_icache (pages : List IntPtr) :
    (pages.foldl (sendPage cfg) w).icache p = true ↔ w.icache p = true ∨ p ∈ pages := by
  induction pages generalizing w with
  | nil => simp
  | cons page pages ih => rw [List.foldl_cons, ih, sendPage_icache, List.mem_cons, or_assoc]

lemma lastByte_toNat (nonempty : 1 ≤ size) (inside : addr.toNat + size - 1 < 2 ^ 64) :
    (addr + BitVec.ofNat 64 size - 1).toNat = addr.toNat + size - 1 := by
  have word := addr.isLt
  rw [BitVec.toNat_sub, BitVec.toNat_add, BitVec.toNat_ofNat]
  simp only [BitVec.ofNat_eq_ofNat, BitVec.toNat_ofNat]
  omega

/-- The page loop of an instruction ends, and has then marked exactly the pages of the instruction
in addition, unless the instruction reaches into the last page of the address space. -/
theorem pages_marked_iff (cfg : WriterConfig) (w : Writer) (addr : IntPtr) (size : ℕ)
    (nonempty : 1 ≤ size) (small : size ≤ 15) (inside : addr.toNat + size - 1 < 2 ^ 64) :
    (∃ rounds w', sendPages cfg rounds w (pageOf addr)
        (pageOf (addr + BitVec.ofNat 64 size - 1)) = .ok w' ∧
      ∀ page, w'.icache page = true ↔ w.icache page = true ∨ Overlaps page addr size) ↔
    pageOf (addr + BitVec.ofNat 64 size - 1) ≠ topPage := by
  have firstPage := pageOf_toNat addr
  have lastPage := pageOf_toNat (addr + BitVec.ofNat 64 size - 1)
  rw [lastByte_toNat nonempty inside] at lastPage
  have size_eq : icacheSize = 4096 := rfl
  have top : topPage.toNat = 2 ^ 64 - 4096 := rfl
  have word := addr.isLt
  constructor
  · rintro ⟨rounds, w', ends, -⟩ isTop
    rw [sendPages_eq, visit_endless (by decide) (by rw [isTop]; rfl)
      (by rw [firstPage]; exact Nat.dvd_mul_left _ _) (by omega)] at ends
    cases ends
  · intro notTop
    have room : (pageOf (addr + BitVec.ofNat 64 size - 1)).toNat + 4096 < 2 ^ 64 := by
      have other : (pageOf (addr + BitVec.ofNat 64 size - 1)).toNat ≠ 2 ^ 64 - 4096 :=
        fun same => notTop (BitVec.eq_of_toNat_eq (same.trans top.symm))
      omega
    generalize turns_eq : (addr.toNat + size - 1) / 4096 - addr.toNat / 4096 = turns
    have visits := visit_eq (by decide) room
      (show (pageOf addr).toNat + turns * 4096 = _ by omega) (Nat.le_refl (turns + 2))
    have ends := sendPages_eq cfg (turns + 2) w (pageOf addr)
      (pageOf (addr + BitVec.ofNat 64 size - 1))
    rw [size_eq, visits, Option.elim_some] at ends
    refine ⟨turns + 2, _, ends, fun page => ?_⟩
    rw [foldl_sendPage_icache, List.mem_map]
    refine or_congr_right ⟨?_, ?_⟩
    · rintro ⟨a, visited, rfl⟩
      obtain ⟨i, low, rfl⟩ := mem_steps.mp visited
      have here : (BitVec.ofNat 64 ((pageOf addr).toNat + i * 4096)).toNat =
          (pageOf addr).toNat + i * 4096 := by
        rw [BitVec.toNat_ofNat]
        omega
      rw [Overlaps, IsPage, here, size_eq]
      omega
    · rintro ⟨aligned, before, after⟩
      rw [IsPage] at aligned
      refine ⟨page.toNat, mem_steps.mpr
        ⟨page.toNat / 4096 - addr.toNat / 4096, by omega, by omega⟩, ?_⟩
      simp

/-- An instruction of four bytes in two pages. -/
theorem two_pages_marked : let cfg : WriterConfig := ⟨fun _ => 0x90, false, false, false⟩
    ∃ rounds w', sendPages cfg rounds (new cfg) (pageOf 0x1ffe)
        (pageOf (0x1ffe + BitVec.ofNat 64 4 - 1)) = .ok w' ∧
      ∀ page, w'.icache page = true ↔ (new cfg).icache page = true ∨ Overlaps page 0x1ffe 4 :=
  (pages_marked_iff _ _ 0x1ffe 4 (by decide) (by decide) (by decide)).mpr (by decide)

/-- An instruction in the last page keeps the writer busy for ever. -/
theorem last_page_endless : let cfg : WriterConfig := ⟨fun _ => 0x90, false, false, false⟩
    (0xfffffffffffff010 : IntPtr).toNat + 4 - 1 < 2 ^ 64 ∧
    ∀ rounds, sendPages cfg rounds (new cfg) (pageOf 0xfffffffffffff010)
      (pageOf (0xfffffffffffff010 + BitVec.ofNat 64 4 - 1)) = .error .endless := by
  refine ⟨by decide, fun rounds => ?_⟩
  rw [sendPages_eq, visit_endless (by decide) (by decide) (by decide) (by decide)]
  rfl

end Sniper.Sift.Writer
