import Sniper.Cache.Block
import Sniper.Lib.Fallible
import Sniper.Lib.Selection
import Sniper.Lib.Cyclic

/-!
# The global history buffer prefetcher

`GhbPrefetcher` keeps the differences between the addresses it is trained with in a circular buffer,
and in a table, for every difference, a link to the slot that was written after it. A table entry is
not told when its slot is overwritten. It carries the generation of its slot instead, and a link
with the generation that the slot has now is taken as live. There are four generations, so a link
that is a multiple of four passes old is taken as live, too.

The state has a history: how often the slot of a table entry was overwritten since the entry was
written, and the links that were looked at.
-/

namespace Sniper

open Checked Option

open Function (update_of_ne update_self)

/-- `INVALID_DELTA`. -/
def invalidDelta : BitVec 64 := BitVec.intMax 64

/-- `INVALID_INDEX`. -/
def invalidIndex : ℕ := 2 ^ 32 - 1

structure GHBEntry where
  nextIndex : ℕ := invalidIndex
  delta : BitVec 64 := invalidDelta
  generation : ℕ := 0
  deriving DecidableEq, Repr

structure TableEntry where
  ghbIndex : ℕ := invalidIndex
  delta : BitVec 64 := invalidDelta
  generation : ℕ := 0
  deriving DecidableEq, Repr

/-- A table link that was looked at: how often its slot was overwritten since the table entry was
last written, and whether it was accepted as live. -/
structure Link where
  overwritten : ℕ
  accepted : Bool
  deriving DecidableEq, Repr

structure GhbConfig where
  prefetchWidth : UInt32
  prefetchDepth : UInt32
  ghbSize : UInt32
  tableSize : UInt32

/-- A prefetcher with a buffer of `N` slots and a table of `T` entries. -/
structure GhbPrefetcher (N T : ℕ) where
  lastAddress : IntPtr
  ghbHead : ℕ
  generation : ℕ
  ghb : Fin N → GHBEntry
  tableHead : ℕ
  ghbTable : Fin T → TableEntry
  overwritten : Fin T → ℕ
  links : List Link

namespace GhbPrefetcher

variable {N T : ℕ}

def create (cfg : GhbConfig) : GhbPrefetcher cfg.ghbSize.toNat cfg.tableSize.toNat where
  lastAddress := invalidAddress
  ghbHead := 0
  generation := 0
  ghb := fun _ => {}
  tableHead := 0
  ghbTable := fun _ => {}
  overwritten := fun _ => 0
  links := []

/-- The entry for `delta`. The search ends at the first entry that is unused or for `delta`. -/
def lookup (s : GhbPrefetcher N T) (delta : BitVec 64) : Option (Fin T) :=
  (Scan.up fun i => (s.ghbTable i).delta == invalidDelta || (s.ghbTable i).delta == delta).filter
    fun i => (s.ghbTable i).delta == delta

def consult (s : GhbPrefetcher N T) (i : Fin T) : Option (Bool × GhbPrefetcher N T) := do
  let slot ← Checked.read s.ghb (s.ghbTable i).ghbIndex
  let live := (s.ghbTable i).generation == slot.generation
  some (live, { s with links := ⟨s.overwritten i, live⟩ :: s.links })

/-- The inner loop of the prefetch, with `left` turns to go. -/
def followDeltas (s : GhbPrefetcher N T) (ghbIndex : ℕ) :
    ℕ → ℕ → IntPtr → List IntPtr → Option (List IntPtr)
  | 0, _, _, prefetchList => some prefetchList
  | left + 1, depth, newAddress, prefetchList => do
    let entry ← Checked.read s.ghb ((ghbIndex + depth) % 2 ^ 32 % N)
    if entry.delta = invalidDelta then some prefetchList
    else
      let newAddress := newAddress + entry.delta
      s.followDeltas ghbIndex left (depth + 1) newAddress
        (if newAddress ∈ prefetchList then prefetchList else prefetchList ++ [newAddress])

/-- The outer loop of the prefetch, with `left` turns to go. -/
def followLinks (s : GhbPrefetcher N T) (prefetchDepth : ℕ) (currentAddress : IntPtr) :
    ℕ → ℕ → List IntPtr → Option (List IntPtr)
  | 0, _, prefetchList => some prefetchList
  | left + 1, ghbIndex, prefetchList =>
    if ghbIndex = invalidIndex then some prefetchList
    else do
      let prefetchList ← s.followDeltas ghbIndex prefetchDepth 0 currentAddress prefetchList
      let entry ← Checked.read s.ghb ghbIndex
      s.followLinks prefetchDepth currentAddress left
        (if (entry.nextIndex > ghbIndex ∨ ghbIndex > s.ghbHead) ∧ entry.nextIndex < s.ghbHead then
          invalidIndex
        else entry.nextIndex)
        prefetchList

/-- The first half of `getNextAddress`: a prefetch chain starts at a live link for `delta`. -/
def prefetch (cfg : GhbConfig) (s : GhbPrefetcher N T) (currentAddress : IntPtr)
    (delta : BitVec 64) : Option (List IntPtr × GhbPrefetcher N T) :=
  match s.lookup delta with
  | none => some ([], s)
  | some i => do
    let (live, s) ← s.consult i
    if live then
      let prefetchList ← s.followLinks cfg.prefetchDepth.toNat currentAddress
        cfg.prefetchWidth.toNat (s.ghbTable i).ghbIndex []
      some (prefetchList, s)
    else some ([], s)

variable (s : GhbPrefetcher N T)

def writeSlot (delta : BitVec 64) : Option (GhbPrefetcher N T) := do
  let ghb ← Checked.write s.ghb s.ghbHead ⟨invalidIndex, delta, s.generation⟩
  some { s with
    ghb
    overwritten := fun i => s.overwritten i + if (s.ghbTable i).ghbIndex = s.ghbHead then 1 else 0 }

def writeEntry (i : Fin T) (delta : BitVec 64) : GhbPrefetcher N T :=
  { s with
    ghbTable := Function.update s.ghbTable i ⟨s.ghbHead, delta, s.generation⟩
    overwritten := Function.update s.overwritten i 0 }

/-- The second half of `getNextAddress`: the entry for the delta before the new one points to the
new slot, and the new slot to where that entry pointed to, if that is live. -/
def link : Option (GhbPrefetcher N T) := do
  let prev ← Checked.read s.ghb (if s.ghbHead > 0 then s.ghbHead - 1 else N - 1)
  if prev.delta = invalidDelta then some s
  else
    match s.lookup prev.delta with
    | some i => do
      let (live, s) ← s.consult i
      let slot ← Checked.read s.ghb s.ghbHead
      let ghb ← Checked.write s.ghb s.ghbHead
        { slot with nextIndex := if live then (s.ghbTable i).ghbIndex else invalidIndex }
      some ({ s with ghb }.writeEntry i prev.delta)
    | none =>
      if inside : s.tableHead < T then
        some { s.writeEntry ⟨s.tableHead, inside⟩ prev.delta with
          tableHead := (s.tableHead + 1) % T }
      else none

def advance : GhbPrefetcher N T :=
  if s.ghbHead + 1 = N then { s with ghbHead := 0, generation := (s.generation + 1) % 4 }
  else { s with ghbHead := s.ghbHead + 1 }

/-- `getNextAddress`. -/
def getNextAddress (cfg : GhbConfig) (s : GhbPrefetcher N T) (currentAddress : IntPtr) :
    Option (List IntPtr × GhbPrefetcher N T) :=
  if s.lastAddress = invalidAddress then some ([], { s with lastAddress := currentAddress })
  else do
    let delta := currentAddress - s.lastAddress
    let (prefetchList, s) ←
      { s with lastAddress := currentAddress }.prefetch cfg currentAddress delta
    let s ← s.writeSlot delta
    let s ← s.link
    some (prefetchList, s.advance)

/-- The prefetcher after it was trained with some addresses. -/
def train (cfg : GhbConfig) (s : GhbPrefetcher N T) (addresses : List IntPtr) :
    Option (GhbPrefetcher N T) :=
  addresses.foldlM (fun s address => (s.getNextAddress cfg address).map Prod.snd) s

/-! ## Generations -/

/-- The generations of slots and table entries, in a pass over the buffer that has reached the slot
`edge`, and the links looked at so far. -/
structure Consistent (s : GhbPrefetcher N T) (edge : ℕ) : Prop where
  generation_lt : s.generation < 4
  slot_lt : ∀ j, (s.ghb j).generation < 4
  entry_lt : ∀ i, (s.ghbTable i).generation < 4
  current : ∀ i (j : Fin N), (s.ghbTable i).ghbIndex = j.val →
    Stamps.Current 4 edge s.generation j.val (s.ghb j).generation
  refers : ∀ i (j : Fin N), (s.ghbTable i).ghbIndex = j.val →
    Stamps.Refers 4 (s.ghb j).generation (s.ghbTable i).generation (s.overwritten i)
  links : ∀ l ∈ s.links, l.accepted = true ↔ 4 ∣ l.overwritten

def HeadWritten (s : GhbPrefetcher N T) : Prop :=
  ∀ j : Fin N, j.val = s.ghbHead → (s.ghb j).generation = s.generation

variable {s s' : GhbPrefetcher N T} {edge : ℕ} {i : Fin T} {live : Bool} {delta : BitVec 64}

lemma Consistent.consult (consistent : s.Consistent edge)
    (consulted : s.consult i = some (live, s')) :
    s'.Consistent edge ∧ s' = { s with links := ⟨s.overwritten i, live⟩ :: s.links } := by
  obtain ⟨slot, here, returned⟩ := bind_eq_some_iff.mp consulted
  obtain ⟨j, place, rfl⟩ := read_eq_some here
  cases returned
  refine ⟨{ consistent with links := ?_ }, rfl⟩
  intro l looked
  rcases List.mem_cons.mp looked with rfl | before
  · rw [beq_iff_eq]
    exact (consistent.refers i j place.symm).eq_iff (consistent.slot_lt j) (consistent.entry_lt i)
  · exact consistent.links l before

variable {cfg : GhbConfig} {currentAddress : IntPtr} {list : List IntPtr}

lemma Consistent.prefetch (consistent : s.Consistent edge)
    (done : s.prefetch cfg currentAddress delta = some (list, s')) :
    s'.Consistent edge ∧ s'.ghbHead = s.ghbHead := by
  rw [GhbPrefetcher.prefetch] at done
  split at done
  · cases done
    exact ⟨consistent, rfl⟩
  · obtain ⟨⟨live, t⟩, consulted, rest⟩ := bind_eq_some_iff.mp done
    obtain ⟨kept, rfl⟩ := consistent.consult consulted
    suffices same : s' = _ by
      rw [same]
      exact ⟨kept, rfl⟩
    cases live with
    | true =>
      obtain ⟨chain, -, returned⟩ := bind_eq_some_iff.mp rest
      exact (Prod.mk.inj (some.inj returned)).2.symm
    | false => exact (Prod.mk.inj (some.inj rest)).2.symm

lemma Consistent.writeSlot (consistent : s.Consistent s.ghbHead)
    (done : s.writeSlot delta = some s') : s'.Consistent (s'.ghbHead + 1) ∧ s'.HeadWritten := by
  obtain ⟨ghb, written, returned⟩ := bind_eq_some_iff.mp done
  obtain ⟨h, place, rfl⟩ := write_eq_some written
  cases returned
  refine ⟨⟨consistent.generation_lt, ?_, consistent.entry_lt, ?_, ?_, consistent.links⟩, ?_⟩
  · intro j
    by_cases head : j = h
    · simp only [head, update_self]
      exact consistent.generation_lt
    · simp only [update_of_ne head]
      exact consistent.slot_lt j
  · intro i j points
    by_cases head : j = h
    · simp only [head, update_self, ← place]
      exact Stamps.Current.written
    · simp only [update_of_ne head]
      refine (consistent.current i j points).elsewhere ?_
      rw [← place]
      exact fun same => head (Fin.ext same)
  · intro i j points
    by_cases head : j = h
    · subst head
      have current := consistent.current i j points
      rw [← place] at current
      simp only [update_self, if_pos (points.trans place)]
      exact (consistent.refers i j points).overwrite current
    · have elsewhere : (s.ghbTable i).ghbIndex ≠ s.ghbHead := by
        rw [points, ← place]
        exact fun same => head (Fin.ext same)
      simp only [update_of_ne head, if_neg elsewhere]
      exact consistent.refers i j points
  · intro j head
    obtain rfl : j = h := Fin.ext (head.trans place.symm)
    simp only [update_self]

lemma Consistent.writeEntry (consistent : s.Consistent (s.ghbHead + 1))
    (written : s.HeadWritten) (i : Fin T) (delta : BitVec 64) :
    (s.writeEntry i delta).Consistent (s.ghbHead + 1) := by
  refine ⟨consistent.generation_lt, consistent.slot_lt, ?_, ?_, ?_, consistent.links⟩
  · intro k
    by_cases same : k = i
    · simp only [GhbPrefetcher.writeEntry, same, update_self]
      exact consistent.generation_lt
    · simp only [GhbPrefetcher.writeEntry, update_of_ne same]
      exact consistent.entry_lt k
  · intro k j points
    by_cases same : k = i
    · simp only [GhbPrefetcher.writeEntry, same, update_self] at points ⊢
      rw [written j points.symm, points]
      exact Stamps.Current.written
    · simp only [GhbPrefetcher.writeEntry, update_of_ne same] at points ⊢
      exact consistent.current k j points
  · intro k j points
    by_cases same : k = i
    · simp only [GhbPrefetcher.writeEntry, same, update_self] at points ⊢
      rw [written j points.symm]
      exact Stamps.refers_new
    · simp only [GhbPrefetcher.writeEntry, update_of_ne same] at points ⊢
      exact consistent.refers k j points

lemma Consistent.relink (consistent : s.Consistent edge) (written : s.HeadWritten) {ghb}
    {slot : GHBEntry} {next : ℕ} (read : Checked.read s.ghb s.ghbHead = some slot)
    (linked : write s.ghb s.ghbHead { slot with nextIndex := next } = some ghb) :
    { s with ghb }.Consistent edge ∧ { s with ghb }.HeadWritten := by
  obtain ⟨h, place, rfl⟩ := read_eq_some read
  obtain ⟨h', place', rfl⟩ := write_eq_some linked
  obtain rfl : h = h' := Fin.ext (place.trans place'.symm)
  have same (j : Fin N) :
      (Function.update s.ghb h { s.ghb h with nextIndex := next } j).generation =
        (s.ghb j).generation := by
    by_cases head : j = h
    · rw [head, update_self]
    · rw [update_of_ne head]
  refine ⟨⟨consistent.generation_lt, ?_, consistent.entry_lt, ?_, ?_, consistent.links⟩, ?_⟩
  · intro j
    exact (same j).symm ▸ consistent.slot_lt j
  · intro i j points
    exact (same j).symm ▸ consistent.current i j points
  · intro i j points
    exact (same j).symm ▸ consistent.refers i j points
  · intro j head
    exact (same j).trans (written j head)

lemma Consistent.link (consistent : s.Consistent (s.ghbHead + 1)) (written : s.HeadWritten)
    (done : s.link = some s') : s'.Consistent (s'.ghbHead + 1) := by
  obtain ⟨prev, -, rest⟩ := bind_eq_some_iff.mp done
  split at rest
  · cases rest
    exact consistent
  split at rest
  · next i found =>
    obtain ⟨⟨live, t⟩, consulted, rest⟩ := bind_eq_some_iff.mp rest
    obtain ⟨kept, rfl⟩ := consistent.consult consulted
    obtain ⟨slot, read, rest⟩ := bind_eq_some_iff.mp rest
    obtain ⟨ghb, linked, returned⟩ := bind_eq_some_iff.mp rest
    obtain ⟨relinked, still⟩ := kept.relink written read linked
    cases returned
    exact relinked.writeEntry still i _
  · split at rest
    · next inside =>
      cases rest
      have entered := consistent.writeEntry written ⟨s.tableHead, inside⟩ prev.delta
      exact { entered with }
    · cases rest

lemma Consistent.advance (consistent : s.Consistent (s.ghbHead + 1)) :
    s.advance.Consistent s.advance.ghbHead := by
  rw [GhbPrefetcher.advance]
  split
  · next last =>
    refine { consistent with generation_lt := Nat.mod_lt _ (by decide), current := ?_ }
    intro i j points
    exact ((consistent.current i j points).wrap (Nat.lt_of_lt_of_eq j.isLt last.symm)).mod
  · exact { consistent with }

lemma Consistent.getNextAddress (consistent : s.Consistent s.ghbHead)
    (done : s.getNextAddress cfg currentAddress = some (list, s')) : s'.Consistent s'.ghbHead := by
  rw [GhbPrefetcher.getNextAddress] at done
  split at done
  · cases done
    exact { consistent with }
  · obtain ⟨⟨list, t⟩, prefetched, rest⟩ := bind_eq_some_iff.mp done
    have start : { s with lastAddress := currentAddress }.Consistent s.ghbHead :=
      { consistent with }
    obtain ⟨looked, head⟩ := start.prefetch prefetched
    have looked : t.Consistent t.ghbHead := by rwa [head]
    obtain ⟨u, wrote, rest⟩ := bind_eq_some_iff.mp rest
    obtain ⟨stored, written⟩ := looked.writeSlot wrote
    obtain ⟨v, linked, returned⟩ := bind_eq_some_iff.mp rest
    cases returned
    exact (stored.link written linked).advance

lemma Consistent.train {addresses : List IntPtr}
    (consistent : s.Consistent s.ghbHead) (done : s.train cfg addresses = some s') :
    s'.Consistent s'.ghbHead := by
  refine Fallible.foldlM_keeps (I := fun s => s.Consistent s.ghbHead) ?_ consistent done
  intro s address s' before trained
  obtain ⟨⟨list, t⟩, returned, rfl⟩ := map_eq_some_iff.mp trained
  exact before.getNextAddress returned

lemma create_consistent (cfg : GhbConfig) : (create cfg).Consistent (create cfg).ghbHead := by
  have nowhere (j : Fin cfg.ghbSize.toNat) : invalidIndex ≠ j.val := by
    have inside := j.isLt
    have fits := cfg.ghbSize.toNat_lt
    rw [invalidIndex]
    omega
  have zero : 0 < 4 := by decide
  exact ⟨zero, fun _ => zero, fun _ => zero, fun _ j points => absurd points (nowhere j),
    fun _ j points => absurd points (nowhere j), fun _ looked => absurd looked List.not_mem_nil⟩

/-- For all sizes and every sequence of trained addresses: every link that was accepted as live, at
the start of a prefetch chain or for a new slot, points to a slot that was not overwritten since the
table entry was written, exactly when no link was looked at after its slot had been overwritten four
times, eight times and so on. -/
theorem accepted_links_fresh_iff (cfg : GhbConfig) (addresses : List IntPtr)
    (s : GhbPrefetcher cfg.ghbSize.toNat cfg.tableSize.toNat)
    (trained : (create cfg).train cfg addresses = some s) :
    (∀ l ∈ s.links, l.accepted = true → l.overwritten = 0) ↔
      ∀ l ∈ s.links, 4 ∣ l.overwritten → l.overwritten = 0 := by
  have consistent := (create_consistent cfg).train trained
  exact forall₂_congr fun l looked => imp_congr_left (consistent.links l looked)

/-- A buffer of two slots, trained with addresses at distances of one, two, and then one again: the
link of the first delta is looked at when its slot has been overwritten once. -/
theorem one_pass_fresh : let cfg : GhbConfig := ⟨2, 2, 2, 2⟩;
    ∃ s, (create cfg).train cfg [0, 1, 3, 5, 7, 8] = some s ∧
      s.links.map (·.overwritten) = [0, 1, 0, 0] ∧
      ∀ l ∈ s.links, l.accepted = true → l.overwritten = 0 := by
  intro cfg
  have computed : ((create cfg).train cfg [0, 1, 3, 5, 7, 8]).map (·.links) =
      some [⟨0, true⟩, ⟨1, false⟩, ⟨0, true⟩, ⟨0, true⟩] := by decide +kernel
  obtain ⟨s, trained, links⟩ := map_eq_some_iff.mp computed
  refine ⟨s, trained, by rw [links]; rfl, ?_⟩
  rw [accepted_links_fresh_iff cfg _ s trained, links]
  decide

/-- With six more addresses at distances of two in between, the slot is overwritten four times, and
the link is accepted. -/
theorem four_passes_accepted : let cfg : GhbConfig := ⟨2, 2, 2, 2⟩;
    ∃ s, (create cfg).train cfg [0, 1, 3, 5, 7, 9, 11, 13, 15, 17, 19, 20] = some s ∧
      ⟨4, true⟩ ∈ s.links ∧ ¬ ∀ l ∈ s.links, l.accepted = true → l.overwritten = 0 := by
  intro cfg
  have computed : ((create cfg).train cfg [0, 1, 3, 5, 7, 9, 11, 13, 15, 17, 19, 20]).map
      (fun s => decide (⟨4, true⟩ ∈ s.links)) = some true := by decide +kernel
  obtain ⟨s, trained, stale⟩ := map_eq_some_iff.mp computed
  have stale := of_decide_eq_true stale
  exact ⟨s, trained, stale, fun fresh => absurd (fresh _ stale rfl) (by decide)⟩

end GhbPrefetcher

end Sniper
