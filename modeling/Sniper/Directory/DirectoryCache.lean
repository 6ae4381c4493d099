import Sniper.Directory.Entry
import Mathlib.Data.List.Find

/-!
# The directory cache

`DramDirectoryCache`: a set-associative array of directory entries, and a list of
entries that lost their place while their line was still cached. A lookup takes a
free entry of the set when it finds none for its address.
-/

namespace Sniper

open Fallible List Function

structure DirLayout where
  numSets : Nat
  assoc : Nat
  logBlocksize : Nat
  uninit : Nat → Int

namespace DirLayout

/-- The set of `splitAddress`, from the low 32 bits of the line number. -/
def setIndex (l : DirLayout) (a : IntPtr) : Nat :=
  (a.toNat >>> l.logBlocksize) % 2 ^ 32 &&& (l.numSets - 1)

def slots (l : DirLayout) (a : IntPtr) : List Nat :=
  (List.range l.assoc).map (l.setIndex a * l.assoc + ·)

end DirLayout

/-- `created` counts the entries made by replacements. -/
structure DramDirectoryCache (n : Nat) where
  entries : Nat → DirectoryEntry n
  replaced : List (DirectoryEntry n)
  replacementPtrs : Nat → Nat
  created : Nat

inductive EntryRef where
  | slot (i : Nat)
  | replaced (k : Nat)
  deriving DecidableEq, Repr

namespace DramDirectoryCache

variable {n : Nat} (l : DirLayout)

def new (n : Nat) (replacementPtrs : Nat → Nat) : DramDirectoryCache n where
  entries := fun i => .new n (l.uninit i)
  replaced := []
  replacementPtrs := replacementPtrs
  created := 0

variable (c : DramDirectoryCache n)

def get? : EntryRef → Option (DirectoryEntry n)
  | .slot i => some (c.entries i)
  | .replaced k => c.replaced[k]?

def set (r : EntryRef) (e : DirectoryEntry n) : DramDirectoryCache n :=
  match r with
  | .slot i => { c with entries := update c.entries i e }
  | .replaced k => { c with replaced := c.replaced.set k e }

/-- The first entry of the set of `a` with address `b`. -/
def slotOf (a b : IntPtr) : Option Nat :=
  (l.slots a).find? fun i => (c.entries i).address = b

def getDirectoryEntry (a : IntPtr) : DramDirectoryCache n × Option EntryRef :=
  match c.slotOf l a a with
  | some i => (c, some (.slot i))
  | none =>
    match c.slotOf l a invalidAddress with
    | some i => (c.set (.slot i) { c.entries i with address := a }, some (.slot i))
    | none => (c, (c.replaced.findIdx? fun e => e.address = a).map .replaced)

/-- `getReplacementCandidates`: the entries of the set, from the replacement
pointer on, which then moves. The pointer is a 32-bit counter. -/
def getReplacementCandidates (a : IntPtr) : DramDirectoryCache n × List Nat :=
  let s := l.setIndex a
  let ptr := c.replacementPtrs s
  ({ c with replacementPtrs := update c.replacementPtrs s ((ptr + 1) % 2 ^ 32) },
    (List.range l.assoc).map fun i => s * l.assoc + (i + ptr) % 2 ^ 32 % l.assoc)

/-- `replaceDirectoryEntry`: the entry of `old` moves to the list, and a new entry
for `a` takes its place. -/
def replaceDirectoryEntry (old a : IntPtr) : Except DirFault (DramDirectoryCache n × EntryRef) :=
  match c.slotOf l old old with
  | none => .error .noReplacedEntry
  | some i =>
    let fresh := { DirectoryEntry.new n (l.uninit (l.numSets * l.assoc + c.created)) with
      address := a }
    .ok ({ c with
      entries := update c.entries i fresh
      replaced := c.replaced ++ [c.entries i]
      created := c.created + 1 }, .slot i)

/-- `invalidateDirectoryEntry`: a replaced entry is given up. -/
def invalidateDirectoryEntry (a : IntPtr) : Except DirFault (DramDirectoryCache n) :=
  match c.replaced.findIdx? fun e => e.address = a with
  | none => .error .noReplacedEntry
  | some k => .ok { c with replaced := c.replaced.eraseIdx k }

/-! ## Entries under updates -/

variable {l} {c : DramDirectoryCache n} {a b : IntPtr} {r : EntryRef} {e e' : DirectoryEntry n}

/-- `P` holds of every entry of the directory. -/
def All (c : DramDirectoryCache n) (P : DirectoryEntry n → Prop) : Prop :=
  ∀ r e, c.get? r = some e → P e

variable {P : DirectoryEntry n → Prop}

lemma all_iff : c.All P ↔ (∀ i, P (c.entries i)) ∧ ∀ e ∈ c.replaced, P e := by
  constructor
  · intro all
    refine ⟨fun i => all (.slot i) _ rfl, fun e he => ?_⟩
    obtain ⟨k, hk⟩ := mem_iff_getElem?.mp he
    exact all (.replaced k) e hk
  · rintro ⟨slots, rest⟩ r e found
    cases r with
    | slot i => exact Option.some.inj found ▸ slots i
    | replaced k => exact rest e (mem_of_getElem? found)

lemma get?_set (c : DramDirectoryCache n) (r r' : EntryRef) (e : DirectoryEntry n) :
    (c.set r e).get? r' = if r' = r then (c.get? r).map fun _ => e else c.get? r' := by
  cases r with
  | slot i =>
    cases r' with
    | slot j => by_cases h : j = i <;> simp [get?, set, h]
    | replaced k => simp [get?, set]
  | replaced k =>
    cases r' with
    | slot j => simp [get?, set]
    | replaced j =>
      by_cases h : j = k
      · subst h
        by_cases inside : j < c.replaced.length <;> simp [get?, set, inside]
      · simp [get?, set, h, getElem?_set_ne (Ne.symm h)]

lemma get?_set_self (found : c.get? r = some e) : (c.set r e').get? r = some e' := by
  simp [get?_set, found]

lemma All.set (rest : ∀ r' e, r' ≠ r → c.get? r' = some e → P e)
    (new : P e) : (c.set r e).All P := by
  intro r' e' found
  rw [get?_set] at found
  split at found
  · obtain ⟨_, _, rfl⟩ := Option.map_eq_some_iff.mp found
    exact new
  · rename_i other
    exact rest r' e' other found

lemma set_address (found : c.get? r = some e) (same : e'.address = e.address) (i : Nat) :
    ((c.set r e').entries i).address = (c.entries i).address := by
  cases r with
  | slot j =>
    by_cases h : i = j
    · subst h
      cases found
      simp [set, same]
    · simp [set, h]
  | replaced k => rfl

/-! ## Lookups -/

/-- The lookup of `a` finds the entry `r` and changes nothing. -/
def Found (l : DirLayout) (c : DramDirectoryCache n) (a : IntPtr) (r : EntryRef) : Prop :=
  c.getDirectoryEntry l a = (c, some r)

variable {i : Nat}

lemma slotOf_some (found : c.slotOf l a b = some i) : i ∈ l.slots a ∧ (c.entries i).address = b :=
  ⟨mem_of_find?_eq_some found, by simpa using find?_some found⟩

lemma slotOf_none (missing : c.slotOf l a b = none) (hi : i ∈ l.slots a) :
    (c.entries i).address ≠ b := by
  simpa using find?_eq_none.mp missing i hi

lemma exists_slotOf (hi : i ∈ l.slots a) (address : (c.entries i).address = b) :
    ∃ j, c.slotOf l a b = some j :=
  Option.isSome_iff_exists.mp (find?_isSome.mpr ⟨i, hi, by simpa using address⟩)

variable {c' : DramDirectoryCache n}

lemma slotOf_congr
    (same : ∀ i ∈ l.slots a, (c'.entries i).address = b ↔ (c.entries i).address = b) :
    c'.slotOf l a b = c.slotOf l a b :=
  find?_congr fun i hi => by simp [same i hi]

lemma Found.of_slot (found : c.slotOf l a a = some i) : c.Found l a (.slot i) := by
  simp [Found, getDirectoryEntry, found]

lemma getDirectoryEntry_cases (l : DirLayout) (c : DramDirectoryCache n) (a : IntPtr) :
    (∃ i, c.slotOf l a a = some i ∧ c.getDirectoryEntry l a = (c, some (.slot i))) ∨
    (∃ i, c.slotOf l a a = none ∧ c.slotOf l a invalidAddress = some i ∧ c.getDirectoryEntry l a =
        (c.set (.slot i) { c.entries i with address := a }, some (.slot i))) ∨
    (c.slotOf l a a = none ∧ c.slotOf l a invalidAddress = none ∧ c.getDirectoryEntry l a =
        (c, (c.replaced.findIdx? fun e => e.address = a).map .replaced)) := by
  cases here : c.slotOf l a a with
  | some i => exact .inl ⟨i, rfl, by simp [getDirectoryEntry, here]⟩
  | none =>
    cases free : c.slotOf l a invalidAddress with
    | some i => exact .inr (.inl ⟨i, rfl, rfl, by simp [getDirectoryEntry, here, free]⟩)
    | none => exact .inr (.inr ⟨rfl, rfl, by simp [getDirectoryEntry, here, free]⟩)

lemma slotOf_set_free (missing : c.slotOf l a a = none) (hi : i ∈ l.slots a)
    (e : DirectoryEntry n) (address : e.address = a) :
    (c.set (.slot i) e).slotOf l a a = some i := by
  have there : ((c.set (.slot i) e).entries i).address = a := by simp [set, address]
  obtain ⟨j, found⟩ := exists_slotOf hi there
  have hj := slotOf_some found
  by_cases same : j = i
  · rw [found, same]
  · have before : (c.entries j).address = a := by simpa [set, same] using hj.2
    exact absurd before (slotOf_none missing hj.1)

lemma getDirectoryEntry_found
    (looked : c.getDirectoryEntry l a = (c', some r)) : c'.Found l a r := by
  rcases getDirectoryEntry_cases l c a with ⟨i, -, result⟩ | ⟨i, missing, free, result⟩ |
    ⟨-, -, result⟩
  · cases looked.symm.trans result
    exact looked
  · obtain ⟨rfl, ref⟩ := Prod.mk.inj (looked.symm.trans result)
    cases ref
    exact .of_slot (slotOf_set_free missing (slotOf_some free).1 _ rfl)
  · obtain ⟨rfl, -⟩ := Prod.mk.inj (looked.symm.trans result)
    exact looked

lemma Found.slotOf (found : c.Found l a (.slot i)) : c.slotOf l a a = some i := by
  rcases getDirectoryEntry_cases l c a with ⟨j, here, result⟩ | ⟨j, missing, free, result⟩ |
    ⟨-, -, result⟩ <;> obtain ⟨same, ref⟩ := Prod.mk.inj (found.symm.trans result)
  · obtain rfl : i = j := by simpa using ref
    exact here
  · have taken := slotOf_set_free missing (slotOf_some free).1 { c.entries j with address := a } rfl
    rw [← same, missing] at taken
    cases taken
  · simp at ref

lemma Found.replaced {k : Nat} (found : c.Found l a (.replaced k)) :
    c.slotOf l a a = none ∧ c.slotOf l a invalidAddress = none ∧
      (c.replaced.findIdx? fun e => e.address = a) = some k := by
  rcases getDirectoryEntry_cases l c a with ⟨j, -, result⟩ | ⟨j, -, -, result⟩ |
    ⟨missing, full, result⟩ <;> obtain ⟨-, ref⟩ := Prod.mk.inj (found.symm.trans result)
  · simp at ref
  · simp at ref
  · exact ⟨missing, full, by simpa using ref.symm⟩

lemma Found.get? (found : c.Found l a r) : ∃ e, c.get? r = some e := by
  cases r with
  | slot i => exact ⟨_, rfl⟩
  | replaced k =>
    have inside := (findIdx?_eq_some_iff_findIdx_eq.mp found.replaced.2.2).1
    exact ⟨_, getElem?_eq_getElem inside⟩

lemma Found.set (found : c.Found l a r) (here : c.get? r = some e)
    (same : e'.address = e.address) : (c.set r e').Found l a r := by
  have slots : ∀ b, (c.set r e').slotOf l a b = c.slotOf l a b := fun b =>
    slotOf_congr fun i _ => by rw [set_address here same]
  cases r with
  | slot i => exact .of_slot ((slots a).trans found.slotOf)
  | replaced k =>
    obtain ⟨missing, full, index⟩ := found.replaced
    obtain ⟨inside, rfl⟩ := List.getElem?_eq_some_iff.mp here
    have addresses : (c.replaced.set k e').map (·.address) = c.replaced.map (·.address) := by
      rw [map_set, same, ← map_set, set_getElem_self]
    have search : ∀ es : List (DirectoryEntry n), (es.findIdx? fun e => e.address = a) =
        (es.map (·.address)).findIdx? (· = a) := fun es => by rw [findIdx?_map]; rfl
    have index' : ((c.replaced.set k e').findIdx? fun e => e.address = a) = some k := by
      rw [search, addresses, ← search, index]
    rw [Found, getDirectoryEntry, slots, slots, missing, full]
    simp [DramDirectoryCache.set, index']

lemma getDirectoryEntry_slot (valid : a ≠ invalidAddress)
    (found : c.slotOf l a a = some i) (b : IntPtr) :
    (c.getDirectoryEntry l b).1.slotOf l a a = some i := by
  rcases getDirectoryEntry_cases l c b with ⟨j, -, result⟩ | ⟨j, missing, free, result⟩ |
    ⟨-, -, result⟩ <;> rw [result]
  · exact found
  · have freeAddress := (slotOf_some free).2
    have other : i ≠ j := by
      rintro rfl
      exact valid ((slotOf_some found).2.symm.trans freeAddress)
    have notA : b ≠ a := by
      rintro rfl
      rw [missing] at found
      cases found
    refine (slotOf_congr fun k _ => ?_).trans found
    by_cases hk : k = j
    · subst hk
      simp [set, notA, freeAddress, Ne.symm valid]
    · simp [set, hk]
  · exact found

lemma All.getDirectoryEntry (all : c.All P)
    (blind : ∀ e b, P e → P { e with address := b }) (a : IntPtr) :
    (c.getDirectoryEntry l a).1.All P := by
  rcases getDirectoryEntry_cases l c a with ⟨i, -, result⟩ | ⟨i, -, -, result⟩ | ⟨-, -, result⟩ <;>
    rw [result]
  · exact all
  · exact All.set (r := .slot i) (fun r' e _ found => all r' e found)
      (blind _ a (all (.slot i) _ rfl))
  · exact all

/-! ## Every entry is in the set of its address -/

def Homed (l : DirLayout) (c : DramDirectoryCache n) : Prop :=
  ∀ i, (c.entries i).address ≠ invalidAddress → i ∈ l.slots (c.entries i).address

lemma Homed.set (homed : c.Homed l) (found : c.get? r = some e)
    (same : e'.address = e.address) : (c.set r e').Homed l := by
  intro i
  rw [set_address found same]
  exact homed i

lemma Homed.getDirectoryEntry (homed : c.Homed l) (a : IntPtr) :
    (c.getDirectoryEntry l a).1.Homed l := by
  rcases getDirectoryEntry_cases l c a with ⟨i, -, result⟩ | ⟨i, -, free, result⟩ |
    ⟨-, -, result⟩ <;> rw [result]
  · exact homed
  · intro j used
    by_cases hj : j = i
    · subst hj
      simpa [DramDirectoryCache.set] using (slotOf_some free).1
    · simpa [DramDirectoryCache.set, hj] using
        homed j (by simpa [DramDirectoryCache.set, hj] using used)
  · exact homed

lemma slots_eq (ha : i ∈ l.slots a) (hb : i ∈ l.slots b) : l.slots a = l.slots b := by
  simp only [DirLayout.slots, mem_map, mem_range] at ha hb
  obtain ⟨x, hx, hxa⟩ := ha
  obtain ⟨y, hy, hyb⟩ := hb
  have sets : l.setIndex a = l.setIndex b := by
    have quotient : ∀ s w, w < l.assoc → (s * l.assoc + w) / l.assoc = s := by
      intro s w hw
      rw [Nat.mul_comm, Nat.mul_add_div (by omega), Nat.div_eq_of_lt hw, Nat.add_zero]
    rw [← quotient (l.setIndex a) x hx, hxa, ← hyb, quotient _ y hy]
  rw [DirLayout.slots, DirLayout.slots, sets]

lemma mem_candidates (hi : i ∈ (c.getReplacementCandidates l a).2) : i ∈ l.slots a := by
  simp only [getReplacementCandidates, mem_map, mem_range] at hi
  obtain ⟨j, hj, rfl⟩ := hi
  exact mem_map.mpr ⟨_, mem_range.mpr (Nat.mod_lt _ (by omega)), rfl⟩

lemma replaceDirectoryEntry_spec (homed : c.Homed l) (missing : c.slotOf l a a = none)
    (full : c.slotOf l a invalidAddress = none) (hi : i ∈ l.slots a) :
    Ensures (c.replaceDirectoryEntry l (c.entries i).address a) fun (c', r) =>
      ∃ j uninit, r = .slot j ∧ c'.slotOf l a a = some j ∧ j ∈ l.slots a ∧
        c'.entries = update c.entries j { DirectoryEntry.new n uninit with address := a } ∧
        c'.replaced = c.replaced ++ [c.entries j] := by
  unfold replaceDirectoryEntry
  split
  · exact .error
  · rename_i j found
    refine .ok ⟨j, _, rfl, ?_, ?_, rfl, rfl⟩
    all_goals
      have home := homed i (slotOf_none full hi)
      have inSet : j ∈ l.slots a := slots_eq home hi ▸ (slotOf_some found).1
    · exact slotOf_set_free missing inSet _ rfl
    · exact inSet

end DramDirectoryCache

end Sniper
