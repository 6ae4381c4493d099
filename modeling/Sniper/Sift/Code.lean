import Sniper.Sift.Reader

/-!
# The code the reader knows

The reader keeps code in pages and the bytes of an instruction may lie in two of
them. `Agrees` is what it knows at an address, whatever the page: storing bytes of
the program makes it hold of their addresses and spoils it nowhere, and where it
holds of a whole instruction the reader gets the bytes of the program.
-/

namespace Sniper.Sift

open ByteStream Function BitVec

variable {code : IntPtr → Byte} {icache : IntPtr → Option Page} {addr base x : IntPtr}
  {m n offset : Nat}

/-! ## Addresses -/

lemma add_toNat (inside : x.toNat + n < 2 ^ 64) : (x + BitVec.ofNat 64 n).toNat = x.toNat + n := by
  rw [toNat_add, toNat_ofNat]
  omega

lemma pageOf_add_offsetOf (x : IntPtr) : (pageOf x).toNat + offsetOf x = x.toNat := by
  rw [pageOf_toNat, offsetOf_eq]
  omega

lemma offsetOf_lt (x : IntPtr) : offsetOf x < 4096 := by
  rw [offsetOf_eq]
  omega

def IsPage (base : IntPtr) : Prop := base.toNat % 4096 = 0

lemma isPage_pageOf (x : IntPtr) : IsPage (pageOf x) := by
  rw [IsPage, pageOf_toNat]
  omega

lemma IsPage.pageOf_eq (page : IsPage base) (low : base.toNat ≤ x.toNat)
    (high : x.toNat < base.toNat + 4096) : pageOf x = base := by
  apply eq_of_toNat_eq
  have aligned : base.toNat % 4096 = 0 := page
  rw [pageOf_toNat]
  omega

lemma IsPage.offsetOf_eq (page : IsPage base) (low : base.toNat ≤ x.toNat)
    (high : x.toNat < base.toNat + 4096) : offsetOf x = x.toNat - base.toNat := by
  have aligned : base.toNat % 4096 = 0 := page
  rw [Sift.offsetOf_eq]
  omega

/-! ## Bytes of the program -/

@[simp] lemma length_codeBytes : (codeBytes code addr n).length = n := by
  simp [codeBytes]

lemma codeBytes_getD (inside : m < n) :
    (codeBytes code addr n).getD m 0 = code (addr + BitVec.ofNat 64 m) := by
  simp [codeBytes, List.getD, inside]

lemma codeBytes_append (code : IntPtr → Byte) (addr : IntPtr) (m n : Nat) :
    codeBytes code addr m ++ codeBytes code (addr + BitVec.ofNat 64 m) n =
      codeBytes code addr (m + n) := by
  have shift : ∀ i, addr + BitVec.ofNat 64 (m + i) =
      addr + BitVec.ofNat 64 m + BitVec.ofNat 64 i := fun i => by
    rw [ofNat_add, BitVec.add_assoc]
  simp [codeBytes, List.range_add, comp_def, shift]

lemma codeBytes_drop (le : m ≤ n) :
    (codeBytes code addr n).drop m = codeBytes code (addr + BitVec.ofNat 64 m) (n - m) := by
  obtain ⟨k, rfl⟩ := Nat.exists_eq_add_of_le le
  rw [← codeBytes_append, List.drop_left' length_codeBytes, Nat.add_sub_cancel_left]

/-! ## What the reader knows -/

/-- The reader has the byte of the program at `x`. -/
def Agrees (code : IntPtr → Byte) (icache : IntPtr → Option Page) (x : IntPtr) : Prop :=
  ∃ page, icache (pageOf x) = some page ∧ page (offsetOf x) = code x

lemma Agrees.update_other (agrees : Agrees code icache x) (other : pageOf x ≠ base)
    (page : Option Page) : Agrees code (update icache base page) x := by
  obtain ⟨old, found, same⟩ := agrees
  exact ⟨old, by rw [update_of_ne other, found], same⟩

lemma agrees_storePage (known : Agrees code icache x ∨ pageOf x = base) :
    Agrees code (update icache base
      (some fun i => (codeBytes code base icacheSize).getD i 0)) x := by
  by_cases here : pageOf x = base
  · refine ⟨_, by rw [here, update_self], ?_⟩
    have inside : offsetOf x < icacheSize := offsetOf_lt x
    have whole : base + BitVec.ofNat 64 (offsetOf x) = x := by
      apply eq_of_toNat_eq
      have parts := pageOf_add_offsetOf x
      have bound := x.isLt
      rw [here] at parts
      rw [add_toNat (by omega), parts]
    rw [codeBytes_getD inside, whole]
  · exact (known.resolve_right here).update_other here _

lemma agrees_fillPage (fresh : Page) (inPage : offsetOf addr + m ≤ icacheSize) (le : m ≤ n)
    (known : Agrees code icache x ∨ (addr.toNat ≤ x.toNat ∧ x.toNat < addr.toNat + m)) :
    Agrees code (update icache (pageOf addr) (some fun i =>
      if offsetOf addr ≤ i ∧ i < offsetOf addr + m then
        (codeBytes code addr n).getD (i - offsetOf addr) 0
      else (icache (pageOf addr)).getD fresh i)) x := by
  have parts := pageOf_add_offsetOf addr
  have bound := x.isLt
  have size : icacheSize = 4096 := rfl
  by_cases here : pageOf x = pageOf addr
  · have partsX := pageOf_add_offsetOf x
    rw [here] at partsX
    refine ⟨_, by rw [here, update_self], ?_⟩
    split
    · rename_i written
      have same : addr + BitVec.ofNat 64 (offsetOf x - offsetOf addr) = x := by
        apply eq_of_toNat_eq
        rw [add_toNat (by omega)]
        omega
      rw [codeBytes_getD (by omega), same]
    · rename_i kept
      obtain ⟨page, found, same⟩ := known.resolve_right (by omega)
      rw [← here, found]
      exact same
  · refine (known.resolve_right fun inside => here ?_).update_other here _
    exact (isPage_pageOf addr).pageOf_eq (by omega) (by omega)

lemma agrees_storeCode (fresh : IntPtr → Page) (rounds : Nat) (enough : n ≤ rounds)
    (bound : addr.toNat + n ≤ 2 ^ 64 - 4096)
    (known : Agrees code icache x ∨ (addr.toNat ≤ x.toNat ∧ x.toNat < addr.toNat + n)) :
    Agrees code (storeCode fresh rounds icache addr (codeBytes code addr n)) x := by
  induction rounds generalizing icache addr n with
  | zero => exact known.resolve_right (by omega)
  | succ rounds ih =>
    rw [storeCode, length_codeBytes]
    split
    · rename_i some
      have size : icacheSize = 4096 := rfl
      have low := offsetOf_lt addr
      have parts := pageOf_add_offsetOf addr
      have aligned : (pageOf addr).toNat % 4096 = 0 := isPage_pageOf addr
      have next : (pageOf addr + BitVec.ofNat 64 icacheSize).toNat = (pageOf addr).toNat + 4096 :=
        add_toNat (by omega)
      dsimp only
      generalize amount_eq : min n (icacheSize - offsetOf addr) = amount
      -- what is left starts on the next page, if anything is left
      have left : (codeBytes code addr n).drop amount =
          codeBytes code (pageOf addr + BitVec.ofNat 64 icacheSize) (n - amount) := by
        rw [codeBytes_drop (by omega)]
        by_cases none : n - amount = 0
        · simp [none, codeBytes]
        · have same : addr + BitVec.ofNat 64 amount = pageOf addr + BitVec.ofNat 64 icacheSize := by
            apply eq_of_toNat_eq
            rw [next, add_toNat (by omega)]
            omega
          rw [same]
      rw [left]
      refine ih (by omega) (by omega) ?_
      by_cases later : addr.toNat + amount ≤ x.toNat ∧ x.toNat < addr.toNat + n
      · exact .inr (by omega)
      · exact .inl (agrees_fillPage (fresh (pageOf addr)) (by omega) (by omega)
          (known.imp id fun inside => by omega))
    · exact known.resolve_right (by omega)

lemma copyCode_eq (rounds : Nat) (enough : n ≤ rounds) (page : IsPage base)
    (inPage : offset < 4096) (bound : base.toNat + offset + n ≤ 2 ^ 64 - 4096)
    (known : ∀ x : IntPtr, base.toNat + offset ≤ x.toNat → x.toNat < base.toNat + offset + n →
      Agrees code icache x) :
    copyCode icache rounds base offset n =
      .ok (codeBytes code (base + BitVec.ofNat 64 offset) n) := by
  induction rounds generalizing base offset n with
  | zero =>
    obtain rfl : n = 0 := by omega
    rfl
  | succ rounds ih =>
    rw [copyCode]
    split
    · rename_i some
      have size : icacheSize = 4096 := rfl
      have aligned : base.toNat % 4096 = 0 := page
      have start : (base + BitVec.ofNat 64 offset).toNat = base.toNat + offset :=
        add_toNat (by omega)
      have next : (base + BitVec.ofNat 64 icacheSize).toNat = base.toNat + 4096 :=
        add_toNat (by omega)
      generalize amount_eq : min n (icacheSize - offset) = amount
      -- the first byte tells that the page is there, and its other bytes are known as well
      obtain ⟨content, found, -⟩ := known (base + BitVec.ofNat 64 offset) (by omega) (by omega)
      rw [page.pageOf_eq (by omega) (by omega)] at found
      have copied : ((List.range amount).map fun i => content (offset + i)) =
          codeBytes code (base + BitVec.ofNat 64 offset) amount := by
        refine List.map_congr_left fun i hi => ?_
        have small : i < amount := List.mem_range.mp hi
        have there : (base + BitVec.ofNat 64 offset + BitVec.ofNat 64 i).toNat =
            base.toNat + offset + i := by
          rw [add_toNat (by omega), start]
        obtain ⟨content', found', same⟩ := known
          (base + BitVec.ofNat 64 offset + BitVec.ofNat 64 i) (by omega) (by omega)
        rw [page.pageOf_eq (by omega) (by omega), found] at found'
        cases found'
        have index : base.toNat + offset + i - base.toNat = offset + i := by omega
        rw [page.offsetOf_eq (by omega) (by omega), there, index] at same
        exact same
      have rest : copyCode icache rounds (base + BitVec.ofNat 64 icacheSize) 0 (n - amount) =
          .ok (codeBytes code (base + BitVec.ofNat 64 offset + BitVec.ofNat 64 amount)
            (n - amount)) := by
        rw [ih (by omega) (by rw [IsPage, next]; omega) (by omega) (by omega)
          fun x low high => known x (by omega) (by omega)]
        by_cases none : n - amount = 0
        · simp [none, codeBytes]
        · have same : base + BitVec.ofNat 64 icacheSize + BitVec.ofNat 64 0 =
              base + BitVec.ofNat 64 offset + BitVec.ofNat 64 amount := by
            apply eq_of_toNat_eq
            rw [add_toNat (by omega), next, add_toNat (by omega), start]
            omega
          rw [same]
      simp only [found]
      rw [rest]
      change Except.ok _ = _
      rw [copied, codeBytes_append, Nat.add_sub_cancel' (by omega)]
    · obtain rfl : n = 0 := by omega
      rfl

end Sniper.Sift
