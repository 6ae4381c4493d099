import Sniper.Cache.DataCache
import Sniper.Lib.Cyclic

/-!
# The home of an address

`AddressHomeLookup` deals blocks of `2 ^ ahl_param` bytes out to the cores in `m_core_list`, and
`getLinearAddress` renumbers the bytes that one core is the home of. On the values of the addresses
this is an interleaving, so an address can be told from its home and its linear address, and the
linear addresses of a home leave no gaps.
-/

namespace Sniper

open BitVec Nat Interleave List

/-- The id of a core: a `core_id_t` from zero up to, and without, the number of cores as a
`core_id_t`. -/
abbrev CoreId := Fin 0x7fffffff

/-- `AddressHomeLookup` with its list of home cores. -/
structure HomeLookup extends AddressHomeLookup where
  coreList : List CoreId

namespace HomeLookup

/-- The constructor. The shift is one of `SInt32`, and `m_total_modules` is a `UInt32`; `none` when
the assertion fails. -/
def create (ahlParam : ℕ) (coreList : List CoreId) (cacheBlockSize : BitVec 32) :
    Option HomeLookup :=
  if cacheBlockSize.toInt ≤ (1#32 <<< ahlParam).toInt then
    some { ahlParam, totalModules := coreList.length % 2 ^ 32, coreList }
  else none

/-- `getHome`. The remainder is cut down to an `SInt32`; `none` when the assertion fails. -/
def getHome (l : HomeLookup) (address : IntPtr) : Option CoreId :=
  let moduleNum : BitVec 32 :=
    ((address >>> l.ahlParam) % BitVec.ofNat 64 l.totalModules).setWidth 32
  if 0 ≤ moduleNum.toInt ∧ moduleNum.toInt < (BitVec.ofNat 32 l.totalModules).toInt then
    l.coreList[moduleNum.toNat]?
  else none

end HomeLookup

/-! ## The interleaving -/

namespace AddressHomeLookup

variable {ahl : AddressHomeLookup}

lemma shiftRight_toNat (address : IntPtr) :
    (address >>> ahl.ahlParam).toNat = address.toNat / 2 ^ ahl.ahlParam := by
  rw [toNat_ushiftRight, shiftRight_eq_div_pow]

lemma totalModules_toNat (fits : ahl.totalModules < 2 ^ 31) :
    (BitVec.ofNat 64 ahl.totalModules).toNat = ahl.totalModules := by
  rw [toNat_ofNat]
  exact mod_eq_of_lt (by omega)

lemma mask_toNat (small : ahl.ahlParam ≤ 30) (address : IntPtr) :
    (address &&& ((1#64 <<< ahl.ahlParam) - 1#64)).toNat = address.toNat % 2 ^ ahl.ahlParam := by
  have block : (1#64 <<< ahl.ahlParam).toNat = 2 ^ ahl.ahlParam := by
    have below : 2 ^ ahl.ahlParam < 2 ^ 64 := Nat.pow_lt_pow_right (by decide) (by omega)
    rw [toNat_shiftLeft, Nat.shiftLeft_eq, toNat_ofNat,
      mod_eq_of_lt (show 1 < 2 ^ 64 by decide), Nat.one_mul, mod_eq_of_lt below]
  have mask : ((1#64 <<< ahl.ahlParam) - 1#64).toNat = 2 ^ ahl.ahlParam - 1 := by
    rw [toNat_sub_of_le, block]
    · rfl
    · rw [le_def, block]
      exact Nat.one_le_two_pow
  rw [toNat_and, mask, and_two_pow_sub_one_eq_mod]

lemma getLinearBlock_toNat (fits : ahl.totalModules < 2 ^ 31) (address : IntPtr) :
    (ahl.getLinearBlock address).toNat = address.toNat / 2 ^ ahl.ahlParam / ahl.totalModules := by
  rw [getLinearBlock, toNat_udiv, shiftRight_toNat, totalModules_toNat fits]

lemma getLinearAddress_toNat (small : ahl.ahlParam ≤ 30) (fits : ahl.totalModules < 2 ^ 31)
    (address : IntPtr) : (ahl.getLinearAddress address).toNat =
      offset (2 ^ ahl.ahlParam) ahl.totalModules address.toNat := by
  have within : address.toNat / 2 ^ ahl.ahlParam / ahl.totalModules * 2 ^ ahl.ahlParam < 2 ^ 64 :=
    calc _ ≤ offset (2 ^ ahl.ahlParam) ahl.totalModules address.toNat := Nat.le_add_right _ _
      _ ≤ address.toNat := offset_le _
      _ < 2 ^ 64 := address.isLt
  have rest : address.toNat % 2 ^ ahl.ahlParam < 2 ^ ahl.ahlParam := mod_lt _ (Nat.two_pow_pos _)
  rw [getLinearAddress, toNat_or, toNat_shiftLeft, getLinearBlock_toNat fits,
    Nat.shiftLeft_eq, mod_eq_of_lt within, mask_toNat small, ← Nat.shiftLeft_eq,
    ← shiftLeft_add_eq_or_of_lt rest, Nat.shiftLeft_eq, offset]

end AddressHomeLookup

namespace HomeLookup

/-- What the constructor leaves of a list of distinct cores. -/
structure WellFormed (l : HomeLookup) : Prop where
  small : l.ahlParam ≤ 30
  positive : 0 < l.totalModules
  fits : l.totalModules < 2 ^ 31
  modules : l.totalModules = l.coreList.length
  distinct : l.coreList.Nodup

lemma create_wellFormed {ahlParam : ℕ} {coreList : List CoreId} {cacheBlockSize : BitVec 32}
    {l : HomeLookup} (small : ahlParam ≤ 30) (nonempty : coreList ≠ []) (distinct : coreList.Nodup)
    (created : create ahlParam coreList cacheBlockSize = some l) :
    l.WellFormed ∧ l.ahlParam = ahlParam ∧ l.coreList = coreList := by
  have few : coreList.length ≤ 0x7fffffff := by
    have card := distinct.length_le_card
    rwa [Fintype.card_fin] at card
  rw [create] at created
  split at created
  · cases created
    have some_core : 0 < coreList.length := length_pos_of_ne_nil nonempty
    refine ⟨⟨small, ?_, ?_, ?_, distinct⟩, rfl, rfl⟩
    · show 0 < coreList.length % 2 ^ 32
      omega
    · show coreList.length % 2 ^ 32 < 2 ^ 31
      omega
    · exact mod_eq_of_lt (by omega)
  · cases created

variable {l : HomeLookup}

lemma WellFormed.owner_lt (wf : l.WellFormed) (address : IntPtr) :
    owner (2 ^ l.ahlParam) l.totalModules address.toNat < l.coreList.length :=
  Nat.lt_of_lt_of_eq (mod_lt _ wf.positive) wf.modules

open AddressHomeLookup

lemma WellFormed.getHome_eq (wf : l.WellFormed) (address : IntPtr) : l.getHome address =
      l.coreList[owner (2 ^ l.ahlParam) l.totalModules address.toNat]? := by
  have fits := wf.fits
  have isOwner : owner (2 ^ l.ahlParam) l.totalModules address.toNat < l.totalModules :=
    mod_lt _ wf.positive
  have moduleNum : (((address >>> l.ahlParam) % BitVec.ofNat 64 l.totalModules).setWidth 32).toNat =
      owner (2 ^ l.ahlParam) l.totalModules address.toNat := by
    rw [toNat_setWidth, toNat_umod, shiftRight_toNat, totalModules_toNat fits]
    exact mod_eq_of_lt (by rw [owner] at isOwner; omega)
  have total : (BitVec.ofNat 32 l.totalModules).toNat = l.totalModules := by
    rw [toNat_ofNat]
    exact mod_eq_of_lt (by omega)
  have asserted : 0 ≤ (((address >>> l.ahlParam) % BitVec.ofNat 64 l.totalModules).setWidth
        32).toInt ∧
      (((address >>> l.ahlParam) % BitVec.ofNat 64 l.totalModules).setWidth 32).toInt <
        (BitVec.ofNat 32 l.totalModules).toInt := by
    rw [toInt_eq_toNat_of_lt (by omega), toInt_eq_toNat_of_lt (by omega)]
    omega
  rw [getHome, if_pos asserted, moduleNum]

lemma WellFormed.getHome_eq_some_iff (wf : l.WellFormed) {m : ℕ} {home : CoreId}
    (place : l.coreList[m]? = some home) (address : IntPtr) : l.getHome address = some home ↔
      owner (2 ^ l.ahlParam) l.totalModules address.toNat = m := by
  rw [wf.getHome_eq, ← place, getElem?_inj (wf.owner_lt address) wf.distinct]

/-- For every number of home cores and block sizes up to `2 ^ 30`: every address has a home, no two
addresses have the same home and the same linear address there, and the linear addresses at one home
of the addresses of the first `k` rounds are the numbers below `k * 2 ^ ahl_param`. -/
theorem home_and_linear_address_exact (p : ℕ) (le_thirty : p ≤ 30) (cores : List CoreId)
    (nonempty : cores ≠ []) (distinct : cores.Nodup) (cacheBlockSize : BitVec 32) (l : HomeLookup)
    (created : create p cores cacheBlockSize = some l) :
    (∀ address, ∃ home ∈ cores, l.getHome address = some home) ∧
    Function.Injective (fun address => (l.getHome address, l.getLinearAddress address)) ∧
    ∀ home ∈ cores, ∀ k, cores.length * k * 2 ^ p < 2 ^ 64 → ∀ x : ℕ,
      (∃ address, address.toNat < cores.length * k * 2 ^ p ∧ l.getHome address = some home ∧
        (l.getLinearAddress address).toNat = x) ↔ x < k * 2 ^ p := by
  obtain ⟨wf, rfl, rfl⟩ := create_wellFormed le_thirty nonempty distinct created
  have block : 0 < 2 ^ l.ahlParam := Nat.two_pow_pos _
  have home_of (address : IntPtr) : ∃ home ∈ l.coreList, l.getHome address = some home := by
    have place := List.getElem?_eq_getElem (wf.owner_lt address)
    exact ⟨_, mem_of_getElem? place, (wf.getHome_eq address).trans place⟩
  refine ⟨home_of, ?_, ?_⟩
  · intro address other same
    obtain ⟨homes, linears⟩ := Prod.mk.inj same
    rw [wf.getHome_eq, wf.getHome_eq] at homes
    have owners := (getElem?_inj (wf.owner_lt address) wf.distinct).mp homes
    have offsets := congrArg BitVec.toNat linears
    rw [getLinearAddress_toNat wf.small wf.fits, getLinearAddress_toNat wf.small wf.fits] at offsets
    exact eq_of_toNat_eq (owner_offset_injective block owners offsets)
  · intro home isHome k inside x
    obtain ⟨m, place⟩ := getElem?_of_mem isHome
    have isOwner : m < l.totalModules := wf.modules.symm ▸ (List.getElem?_eq_some_iff.mp place).1
    rw [← wf.modules] at inside ⊢
    rw [← number_lt_iff block isOwner]
    constructor
    · rintro ⟨address, below, homed, rfl⟩
      have owner := (wf.getHome_eq_some_iff place address).mp homed
      rw [getLinearAddress_toNat wf.small wf.fits, ← owner, number_owner_offset block]
      exact below
    · intro below
      have value : (BitVec.ofNat 64 (number (2 ^ l.ahlParam) l.totalModules m x)).toNat =
          number (2 ^ l.ahlParam) l.totalModules m x := by
        rw [toNat_ofNat]
        exact mod_eq_of_lt (below.trans inside)
      refine ⟨BitVec.ofNat 64 (number (2 ^ l.ahlParam) l.totalModules m x), ?_, ?_, ?_⟩
      · rwa [value]
      · rw [wf.getHome_eq_some_iff place, value, owner_number block isOwner]
      · rw [getLinearAddress_toNat wf.small wf.fits, value, offset_number block isOwner]

/-- Three home cores with blocks of 64 bytes: the second block of core 5 is block 4. -/
theorem three_homes_exact : ∃ l, create 6 [2, 5, 9] 64 = some l ∧ l.getHome 0x105 = some 5 ∧
      l.getLinearAddress 0x105 = 0x45 ∧
      Function.Injective (fun address => (l.getHome address, l.getLinearAddress address)) :=
  ⟨_, rfl, by decide, by decide, (home_and_linear_address_exact 6 (by decide) [2, 5, 9] (by decide)
    (by decide) 64 _ rfl).2.1⟩

end HomeLookup

end Sniper
