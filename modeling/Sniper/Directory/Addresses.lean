import Sniper.Directory.Consistency
import Sniper.Lib.Tables

/-!
# The addresses in the directory

A line has at most one entry in the directory. It may be in a slot of its set, or in the list of the
entries that lost their place, and it is in that list just while the request to nullify it is being
served. Lookups take free slots as a side effect and look at the list last. They leave a line in the
list alone because its set was full when it was replaced, and no slot ever becomes free again.
-/

namespace Sniper

open Fallible List Function

variable {n : Nat} {D N : Type}

/-! ## Entries keep their addresses -/

namespace DirectoryEntry

variable {e : DirectoryEntry n}

lemma addSharer_address (c : Fin n) (maxHwSharers : Nat) :
    Ensures (e.addSharer c maxHwSharers) fun r => r.1.address = e.address := by
  refine .require fun _ => ?_
  split <;> exact .ok rfl

lemma occupy_address (c : Fin n) (maxHwSharers : Nat) (st : DState) :
    Ensures (e.occupy c maxHwSharers st) fun e' => e'.address = e.address := by
  refine (addSharer_address c maxHwSharers).bind ?_
  rintro ⟨e₁, added⟩ same
  refine .require fun _ => (setOwner_spec e₁ c).bind ?_
  rintro _ rfl
  exact .ok same

lemma invalidated_address (sender : Fin n) :
    Ensures (e.invalidated sender) fun e' => e'.address = e.address := by
  refine .require fun _ => (removeSharer_spec e sender).bind ?_
  rintro _ ⟨rfl, -⟩
  refine .ok ?_
  rw [settle_address]
  split <;> rfl

lemma flushed_address (sender : Fin n) :
    Ensures (e.flushed sender) fun e' => e'.address = e.address := by
  refine .require fun _ => (removeSharer_spec e sender).bind ?_
  rintro _ ⟨rfl, -⟩
  exact .require fun _ => .ok (settle_address _)

end DirectoryEntry

/-! ## The directory as a table of addresses -/

namespace DramDirectoryCache

variable {l : DirLayout} {c c' : DramDirectoryCache n} {a : IntPtr} {r : EntryRef}
  {e e' : DirectoryEntry n}

def table (c : DramDirectoryCache n) : Displaced.Table Nat IntPtr :=
  ⟨fun i => (c.entries i).address, c.replaced.map (·.address)⟩

abbrev Sound (l : DirLayout) (c : DramDirectoryCache n) : Prop :=
  Displaced.Sound invalidAddress (fun a i => i ∈ l.slots a) c.table

lemma update_addresses (c : DramDirectoryCache n) (i : Nat) (e : DirectoryEntry n) :
    (fun j => (update c.entries i e j).address) =
      update (fun j => (c.entries j).address) i e.address :=
  comp_update DirectoryEntry.address c.entries i e

lemma table_set (found : c.get? r = some e) (same : e'.address = e.address) :
    (c.set r e').table = c.table := by
  have slots : (fun i => ((c.set r e').entries i).address) = fun i => (c.entries i).address :=
    funext fun i => set_address found same i
  have replaced : (c.set r e').replaced.map (·.address) = c.replaced.map (·.address) := by
    cases r with
    | slot i => rfl
    | replaced k =>
      obtain ⟨inside, rfl⟩ := List.getElem?_eq_some_iff.mp found
      rw [DramDirectoryCache.set, map_set, same, ← map_set, set_getElem_self]
  rw [table, slots, replaced, table]

lemma Sound.unique (sound : c.Sound l) {r' : EntryRef} (found : c.get? r = some e)
    (found' : c.get? r' = some e') (live : e.address ≠ invalidAddress)
    (same : e.address = e'.address) : r = r' := by
  have inList {k : Nat} {e : DirectoryEntry n} (listed : c.replaced[k]? = some e) :
      c.table.displaced[k]? = some e.address := by
    rw [table, getElem?_map, listed]
    rfl
  cases r with
  | slot i =>
    cases found
    cases r' with
    | slot j =>
      cases found'
      exact congrArg EntryRef.slot (sound.once i j live same)
    | replaced k => exact absurd (mem_of_getElem? (inList found')) (same ▸ sound.apart i)
  | replaced k =>
    cases r' with
    | slot j =>
      cases found'
      exact absurd (mem_of_getElem? (inList found)) (same ▸ sound.apart j)
    | replaced k' =>
      have inside := (List.getElem?_eq_some_iff.mp (inList found)).1
      have places : c.table.displaced[k]? = c.table.displaced[k']? := by
        rw [inList found, inList found', same]
      exact congrArg EntryRef.replaced ((getElem?_inj inside sound.nodup).mp places)

lemma Sound.getDirectoryEntry (sound : c.Sound l) (valid : a ≠ invalidAddress) :
    (c.getDirectoryEntry l a).1.Sound l ∧
      (c.getDirectoryEntry l a).1.table.displaced = c.table.displaced := by
  rcases getDirectoryEntry_cases l c a with ⟨i, -, result⟩ | ⟨i, missing, free, result⟩ |
    ⟨-, -, result⟩ <;> rw [result]
  · exact ⟨sound, rfl⟩
  · obtain ⟨inSet, unused⟩ := slotOf_some free
    refine ⟨?_, rfl⟩
    rw [Sound, table, DramDirectoryCache.set, update_addresses]
    exact sound.claim valid inSet unused fun j => slotOf_none missing
  · exact ⟨sound, rfl⟩

lemma getDirectoryEntry_none (looked : c.getDirectoryEntry l a = (c', none)) :
    c' = c ∧ c.slotOf l a a = none ∧ c.slotOf l a invalidAddress = none ∧
      a ∉ c.table.displaced := by
  rcases getDirectoryEntry_cases l c a with ⟨i, -, result⟩ | ⟨i, -, -, result⟩ |
    ⟨missing, full, result⟩ <;> obtain ⟨same, ref⟩ := Prod.mk.inj (looked.symm.trans result)
  · cases ref
  · cases ref
  · refine ⟨same, missing, full, fun listed => ?_⟩
    obtain ⟨e, he, address⟩ := List.mem_map.mp listed
    have unlisted := List.findIdx?_eq_none_iff.mp (Option.map_eq_none_iff.mp ref.symm) e he
    simp [address] at unlisted

lemma Sound.replaceDirectoryEntry (sound : c.Sound l) (valid : a ≠ invalidAddress)
    (missing : c.slotOf l a a = none) (full : c.slotOf l a invalidAddress = none)
    (unlisted : a ∉ c.table.displaced) {i : Nat} (hi : i ∈ l.slots a) :
    Ensures (c.replaceDirectoryEntry l (c.entries i).address a) fun (c', _) =>
      c'.Sound l ∧ c'.table.displaced = c.table.displaced ++ [(c.entries i).address] := by
  unfold DramDirectoryCache.replaceDirectoryEntry
  split
  · exact .error
  · rename_i j found
    obtain ⟨inSet, same⟩ := slotOf_some found
    have used : (c.entries i).address ≠ invalidAddress := slotOf_none full hi
    have slots : l.slots (c.entries i).address = l.slots a := slots_eq (sound.homed i used) hi
    refine .ok ⟨?_, ?_⟩
    · rw [Sound, table, update_addresses, map_append]
      refine sound.displace valid (slots ▸ inSet) ?_ (fun k => slotOf_none missing) unlisted
        (fun k => slotOf_none full)
      intro k there
      have there : k ∈ l.slots (c.entries j).address := there
      rwa [same, slots] at there
    · rw [table, map_append, map_singleton, same]
      rfl

lemma Sound.invalidateDirectoryEntry (sound : c.Sound l) (a : IntPtr) :
    Ensures (c.invalidateDirectoryEntry a) fun c' =>
      c'.Sound l ∧ c'.table.displaced = c.table.displaced.erase a := by
  unfold DramDirectoryCache.invalidateDirectoryEntry
  split
  · exact .error
  · rename_i k found
    have erased : (c.replaced.eraseIdx k).map (·.address) = c.table.displaced.erase a := by
      have first : c.replaced.eraseIdx k = c.replaced.eraseP fun e => e.address = a := by
        rw [eraseP_eq_eraseIdx, found]
      rw [first, table, erase_eq_eraseP, eraseP_map]
      congr 2
      funext e
      rw [Bool.eq_iff_iff, decide_eq_true_iff, Function.comp, beq_iff_eq, eq_comm]
    refine .ok ⟨?_, erased⟩
    rw [Sound, table, erased]
    exact sound.release a

end DramDirectoryCache

/-! ## The controller -/

namespace DirCntlr

variable {cfg : DirConfig n D N} {s s' : DirCntlr n D N} {a : IntPtr} {r : EntryRef}
  {e e' : DirectoryEntry n}

def front (s : DirCntlr n D N) (a : IntPtr) : Option ReqType := (s.queues a).head?.map (·.type)

/-- The lines in the list are those that are being nullified. -/
structure Settled (cfg : DirConfig n D N) (s : DirCntlr n D N) : Prop where
  sound : s.directory.Sound cfg.layout
  served : ∀ a, a ∈ s.directory.table.displaced ↔ s.front a = some .nullifyReq

structure Done (cfg : DirConfig n D N) (s : DirCntlr n D N) (a : IntPtr) : Prop where
  sound : s.directory.Sound cfg.layout
  served : ∀ b, b ≠ a → (b ∈ s.directory.table.displaced ↔ s.front b = some .nullifyReq)
  gone : a ∉ s.directory.table.displaced

structure Alike (s' s : DirCntlr n D N) : Prop where
  table : s'.directory.table = s.directory.table
  front : s'.front = s.front

lemma Settled.congr (settled : s.Settled cfg) (alike : Alike s' s) : s'.Settled cfg := by
  constructor
  · rw [DramDirectoryCache.Sound, alike.table]
    exact settled.sound
  · rw [alike.table, alike.front]
    exact settled.served

lemma Settled.done (settled : s.Settled cfg) (other : s.front a ≠ some .nullifyReq) :
    s.Done cfg a :=
  ⟨settled.sound, fun b _ => settled.served b, fun listed => other ((settled.served a).mp listed)⟩

lemma alike_send (s : DirCntlr n D N) (m : DirSend n D) : Alike (s.send m) s := ⟨rfl, rfl⟩

lemma alike_setEntry (found : s.directory.get? r = some e) (same : e'.address = e.address) :
    Alike (s.setEntry r e') s :=
  ⟨DramDirectoryCache.table_set found same, rfl⟩

lemma front_setQueue_self (s : DirCntlr n D N) (a : IntPtr) (q : List (ShmemReq n D)) :
    (s.setQueue a q).front a = q.head?.map (·.type) := by
  rw [front, setQueue_self]

lemma front_setQueue_other {b : IntPtr} (other : b ≠ a) (q : List (ShmemReq n D)) :
    (s.setQueue a q).front b = s.front b := by
  rw [front, setQueue_other other, front]

lemma Done.setQueue (done : s.Done cfg a) {q : List (ShmemReq n D)}
    (other : q.head?.map (·.type) ≠ some .nullifyReq) : (s.setQueue a q).Settled cfg := by
  refine ⟨done.sound, fun b => ?_⟩
  by_cases here : b = a
  · rw [here, front_setQueue_self]
    exact iff_of_false done.gone other
  · rw [front_setQueue_other here]
    exact done.served b here

lemma Settled.displace (settled : s.Settled cfg) {c : DramDirectoryCache n}
    (sound : c.Sound cfg.layout)
    (displaced : c.table.displaced = s.directory.table.displaced ++ [a])
    (idle : s.queues a = []) (requester : Fin n) :
    ({ s with directory := c }.enqueue a (.new .nullifyReq requester)).Settled cfg := by
  refine ⟨sound, fun b => ?_⟩
  have listed : b ∈ c.table.displaced ↔ b ∈ s.directory.table.displaced ∨ b = a := by
    rw [displaced, mem_append, mem_singleton]
  refine listed.trans ?_
  by_cases here : b = a
  · rw [here, enqueue, front_setQueue_self]
    refine iff_of_true (.inr rfl) ?_
    rw [idle]
    rfl
  · rw [enqueue, front_setQueue_other here, or_iff_left here]
    exact settled.served b

variable {req : ShmemReq n D} {rest : List (ShmemReq n D)}

lemma alike_setFront {req' : ShmemReq n D}
    (queue : s.queues a = req :: rest) (same : req'.type = req.type) :
    Alike (s.setFront a req') s := by
  refine ⟨rfl, funext fun b => ?_⟩
  by_cases here : b = a
  · rw [here, setFront, front_setQueue_self, front, queue]
    exact congrArg some same
  · exact front_setQueue_other here _

/-! ## Lookups -/

lemma lookup_settled (settled : s.Settled cfg) (valid : a ≠ invalidAddress) :
    (s.lookup cfg a).1.Settled cfg := by
  obtain ⟨sound, same⟩ := settled.sound.getDirectoryEntry valid
  refine ⟨sound, fun b => ?_⟩
  have listed : b ∈ (s.lookup cfg a).1.directory.table.displaced ↔
      b ∈ s.directory.table.displaced := by
    rw [← same]
    rfl
  exact listed.trans (settled.served b)

structure Serves (cfg : DirConfig n D N) (s : DirCntlr n D N) (a : IntPtr)
    (type : Option ReqType) : Prop where
  settled : s.Settled cfg
  front : s.front a = type

variable {type : Option ReqType}

lemma Serves.congr (serves : s.Serves cfg a type) (alike : Alike s' s) : s'.Serves cfg a type :=
  ⟨serves.settled.congr alike, (congrFun alike.front a).trans serves.front⟩

lemma new_settled (cfg : DirConfig n D N) (replacementPtrs : Nat → Nat) (nuca : Option N) :
    (DirCntlr.new cfg replacementPtrs nuca).Settled cfg where
  sound := {
    homed := fun _ used => absurd rfl used
    once := fun _ _ used => absurd rfl used
    live := not_mem_nil
    nodup := nodup_nil
    apart := fun _ => not_mem_nil
    full := fun _ listed => absurd listed not_mem_nil }
  served := fun _ => iff_of_false not_mem_nil (by simp [DirCntlr.new, front])

end DirCntlr

end Sniper
