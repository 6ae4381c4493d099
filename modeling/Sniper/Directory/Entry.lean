import Sniper.Cache.Block
import Sniper.Lib.Fallible

/-!
# Directory entries

`DirectoryEntry` of the tag directory: the state of a line, its sharers, its owner
and, for the forwarding protocol, the core that hands out copies. The operations
are those of a full-map or limited directory without broadcast.
-/

namespace Sniper

open Fallible Finset

/-- `CoherencyProtocol::type_t`. -/
inductive CoherencyProtocol where
  | msi
  | mesi
  | mesif
  deriving DecidableEq, Repr

/-- `DirectoryState::dstate_t`. -/
inductive DState where
  | uncached
  | shared
  | owned
  | modified
  | exclusive
  deriving DecidableEq, Repr

/-- `INVALID_CORE_ID`; core ids are signed. -/
def invalidCoreId : Int := -1

inductive DirFault where
  | alreadySharer
  | notSharer
  | ownerNotSharer
  | sharerNotAdded
  | noEntry
  | noCandidate
  | noReplacedEntry
  | queueNotEmpty
  | queueEmpty
  | unsupportedState
  | unrecognizedRequest
  | unexpectedData
  | requesterIsOwner
  | upgraderNotOwner
  | sharersLeft
  | badReplyState
  | invalidateUnshared
  | flushedNotShared
  | writebackWithoutRead
  deriving DecidableEq, Repr

structure DirectoryEntry (n : Nat) where
  address : IntPtr
  dstate : DState
  owner : Option (Fin n)
  forwarder : Int
  sharers : Finset (Fin n)
  deriving DecidableEq

namespace DirectoryEntry

variable {n : Nat}

/-- A new entry, with what its memory held before as forwarder. -/
def new (n : Nat) (uninit : Int) : DirectoryEntry n where
  address := invalidAddress
  dstate := .uncached
  owner := none
  forwarder := uninit
  sharers := ∅

variable (e : DirectoryEntry n)

def getNumSharers : Nat := e.sharers.card

def getSharersList : List (Fin n) :=
  (List.finRange n).filter (· ∈ e.sharers)

def addSharer (c : Fin n) (maxHwSharers : Nat) : Except DirFault (DirectoryEntry n × Bool) := do
  require (c ∉ e.sharers) .alreadySharer
  if e.getNumSharers ≥ maxHwSharers then .ok (e, false)
  else .ok ({ e with sharers := insert c e.sharers }, true)

def removeSharer (c : Fin n) : Except DirFault (DirectoryEntry n) := do
  require (c ∈ e.sharers) .notSharer
  .ok { e with sharers := e.sharers.erase c }

def setOwner (c : Fin n) : Except DirFault (DirectoryEntry n) := do
  require (c ∈ e.sharers) .ownerNotSharer
  .ok { e with owner := some c }

def ownerId : Int :=
  match e.owner with
  | some c => c.val
  | none => invalidCoreId

def occupy (c : Fin n) (maxHwSharers : Nat) (st : DState) : Except DirFault (DirectoryEntry n) := do
  let (e, added) ← e.addSharer c maxHwSharers
  require (added = true) .sharerNotAdded
  let e ← e.setOwner c
  .ok { e with dstate := st }

def settle : DirectoryEntry n :=
  if e.getNumSharers = 0 then { e with dstate := .uncached } else e

/-- What `processInvRepFromL2Cache` does to the entry. -/
def invalidated (sender : Fin n) : Except DirFault (DirectoryEntry n) := do
  require (e.dstate = .shared ∨ e.dstate = .exclusive) .invalidateUnshared
  let e ← e.removeSharer sender
  let e := if e.forwarder = sender.val then { e with forwarder := invalidCoreId } else e
  .ok e.settle

/-- What `processFlushRepFromL2Cache` does to the entry. -/
def flushed (sender : Fin n) : Except DirFault (DirectoryEntry n) := do
  require (sender ∈ e.sharers) .notSharer
  let e ← e.removeSharer sender
  let e := { e with forwarder := invalidCoreId, owner := none }
  require (e.getNumSharers = 0 ∨ e.dstate = .shared) .flushedNotShared
  .ok e.settle

/-- What `processWbRepFromL2Cache` does to the entry. -/
def writtenBack (sender : Fin n) : Except DirFault (DirectoryEntry n) := do
  require (sender ∈ e.sharers) .notSharer
  .ok { e with owner := none, dstate := .shared }

/-! ## Consistency -/

structure Tracks (e : DirectoryEntry n) : Prop where
  notOwned : e.dstate ≠ .owned
  uncached : e.dstate = .uncached ↔ e.sharers = ∅
  sole : e.dstate = .modified ∨ e.dstate = .exclusive → ∃ c, e.sharers = {c} ∧ e.owner = some c

def Forwards (protocol : CoherencyProtocol) (e : DirectoryEntry n) : Prop :=
  protocol = .mesif → e.dstate = .shared →
    e.forwarder = invalidCoreId ∨ ∃ c ∈ e.sharers, e.forwarder = c.val

structure Consistent (protocol : CoherencyProtocol) (e : DirectoryEntry n) : Prop extends
    Tracks e where
  forwards : Forwards protocol e

variable {protocol : CoherencyProtocol} {e : DirectoryEntry n}

lemma Tracks.consistent (tracks : e.Tracks) (notShared : e.dstate ≠ .shared) :
    e.Consistent protocol :=
  ⟨tracks, fun _ shared => absurd shared notShared⟩

lemma consistent_new (uninit : Int) (address : IntPtr) :
    Consistent protocol { new n uninit with address := address } :=
  Tracks.consistent ⟨by simp [new], by simp [new], by simp [new]⟩ (by simp [new])

lemma consistent_uncached (none : e.getNumSharers = 0) :
    Consistent protocol { e with dstate := .uncached } :=
  Tracks.consistent ⟨by simp, by simpa using card_eq_zero.mp none, by simp⟩ (by simp)

lemma addSharer_full (e : DirectoryEntry n) (c : Fin n) {maxHwSharers : Nat}
    (full : maxHwSharers = n) : Ensures (e.addSharer c maxHwSharers) fun r =>
      r = ({ e with sharers := insert c e.sharers }, true) := by
  refine .require fun fresh => ?_
  have room : ¬ e.getNumSharers ≥ n := by
    have less : e.sharers.card < Fintype.card (Fin n) := card_lt_univ_of_notMem fresh
    simpa [getNumSharers] using less
  rw [full, if_neg room]
  exact .ok rfl

lemma removeSharer_spec (e : DirectoryEntry n) (c : Fin n) : Ensures (e.removeSharer c) fun e' =>
      e' = { e with sharers := e.sharers.erase c } ∧ c ∈ e.sharers :=
  .require fun sharer => .ok ⟨rfl, sharer⟩

lemma setOwner_spec (e : DirectoryEntry n) (c : Fin n) :
    Ensures (e.setOwner c) fun e' => e' = { e with owner := some c } :=
  .require fun _ => .ok rfl

lemma occupy_spec (alone : e.sharers = ∅) (c : Fin n) (maxHwSharers : Nat) {st : DState}
    (hst : st ≠ .uncached ∧ st ≠ .owned) : Ensures (e.occupy c maxHwSharers st) fun e' =>
      e'.Tracks ∧ c ∈ e'.sharers ∧ e'.dstate = st ∧ e'.address = e.address := by
  have added : Ensures (e.addSharer c maxHwSharers) fun r => r.2 = true →
      r.1 = { e with sharers := {c} } := by
    refine .require fun _ => ?_
    split
    · exact .ok (by simp)
    · exact .ok (by simp [alone])
  refine added.bind ?_
  rintro ⟨e₁, room⟩ h₁
  refine .require fun hr => (setOwner_spec _ _).bind ?_
  rintro _ rfl
  obtain rfl : e₁ = _ := h₁ hr
  exact .ok ⟨⟨hst.2, by simp [hst.1], fun _ => ⟨c, rfl, rfl⟩⟩, by simp, rfl, rfl⟩

lemma settle_tracks (sole : e.dstate = .shared ∨ e.sharers = ∅) : e.settle.Tracks := by
  unfold settle
  split
  · rename_i none
    exact (consistent_uncached none : Consistent .msi _).toTracks
  · rename_i some
    have nonempty : e.sharers ≠ ∅ := fun empty => some (card_eq_zero.mpr empty)
    have shared := sole.resolve_right nonempty
    exact ⟨by simp [shared], by simp [shared, nonempty], by simp [shared]⟩

@[simp] lemma settle_address (e : DirectoryEntry n) : e.settle.address = e.address := by
  unfold settle
  split <;> rfl

lemma settle_forwards (forwards : e.Forwards protocol) : e.settle.Forwards protocol := by
  unfold settle
  split
  · exact fun _ shared => by cases shared
  · exact forwards

variable {c : Fin n}

lemma Tracks.erase (tracks : e.Tracks) (hc : c ∈ e.sharers) :
    e.dstate = .shared ∨ e.sharers.erase c = ∅ := by
  by_cases alone : e.dstate = .modified ∨ e.dstate = .exclusive
  · obtain ⟨d, sole, -⟩ := tracks.sole alone
    rw [sole, mem_singleton] at hc
    exact .inr (by simp [sole, hc])
  · have cached : e.dstate ≠ .uncached := fun state => by
      rw [tracks.uncached.mp state] at hc
      simp at hc
    have notOwned := tracks.notOwned
    cases state : e.dstate <;> simp_all

lemma invalidated_spec (consistent : e.Consistent protocol) (sender : Fin n) :
    Ensures (e.invalidated sender) fun e' => e'.Consistent protocol ∧ e'.address = e.address := by
  refine .require fun _ => (removeSharer_spec e sender).bind ?_
  rintro _ ⟨rfl, sharer⟩
  refine .ok ⟨⟨settle_tracks ?_, settle_forwards ?_⟩, ?_⟩
  · split <;> exact consistent.erase sharer
  · intro mesif shared
    split
    · exact .inl rfl
    · rename_i other
      rw [if_neg other] at shared
      -- the forwarder is not the core that left
      refine (consistent.forwards mesif shared).imp id ?_
      rintro ⟨c, hc, forwarder⟩
      refine ⟨c, mem_erase.mpr ⟨?_, hc⟩, forwarder⟩
      rintro rfl
      exact other forwarder
  · rw [settle_address]
    split <;> rfl

lemma flushed_spec (protocol : CoherencyProtocol) (tracks : e.Tracks) (sender : Fin n) :
    Ensures (e.flushed sender) fun e' => e'.Consistent protocol ∧ e'.address = e.address := by
  refine .require fun _ => (removeSharer_spec e sender).bind ?_
  rintro _ ⟨rfl, sharer⟩
  refine .require fun _ => .ok ⟨⟨settle_tracks (tracks.erase sharer), settle_forwards ?_⟩, by simp⟩
  exact fun _ _ => Or.inl rfl

lemma writtenBack_spec (e : DirectoryEntry n) (sender : Fin n) :
    Ensures (e.writtenBack sender) fun e' =>
      e'.Tracks ∧ e'.dstate = .shared ∧ e'.address = e.address := by
  refine .require fun sharer => .ok ⟨⟨by simp, ?_, by simp⟩, rfl, rfl⟩
  simp only [reduceCtorEq, false_iff]
  exact ne_empty_of_mem sharer

lemma Tracks.join (tracks : e.Tracks) (shared : e.dstate = .shared) (c : Fin n) :
    Tracks { e with sharers := insert c e.sharers } :=
  ⟨tracks.notOwned, by simp [shared], by simp [shared]⟩

lemma Forwards.join (forwards : e.Forwards protocol) (c : Fin n) :
    Forwards protocol { e with sharers := insert c e.sharers } :=
  fun mesif shared => (forwards mesif shared).imp id
    fun ⟨d, hd, forwarder⟩ => ⟨d, mem_insert_of_mem hd, forwarder⟩

lemma Tracks.forward (tracks : e.Tracks) (hc : c ∈ e.sharers) :
    Consistent protocol { e with forwarder := c.val } :=
  ⟨⟨tracks.notOwned, tracks.uncached, tracks.sole⟩, fun _ _ => Or.inr ⟨c, hc, rfl⟩⟩

lemma getSharersList_eq_singleton (list : e.getSharersList = [c]) : e.sharers = {c} := by
  ext d
  have listed : d ∈ e.getSharersList ↔ d ∈ e.sharers := by simp [getSharersList]
  rw [← listed, list]
  simp

lemma tracks_upgrade (sole : e.sharers = {c}) :
    Tracks { e with owner := some c, dstate := .modified } :=
  ⟨by simp, by simp [sole], fun _ => ⟨c, sole, rfl⟩⟩

end DirectoryEntry

end Sniper
