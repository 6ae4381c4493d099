import Sniper.Directory.Controller

/-!
# Consistency of the directory

The state of every entry, those that lost their place included, agrees with its sharers, its owner
and its forwarder. The one exception is a write-back, after which the forwarder of a new entry is
still what its memory held; the read that asked for the data makes up for it before the message is
over.
-/

namespace Sniper

open Fallible DirectoryEntry

variable {n : Nat} {D N : Type}

/-! ## The request queues

Looking for an entry leaves the queues alone, and an entry is replaced only when no request for its
line waits. -/

namespace DirCntlr

variable {cfg : DirConfig n D N} {s : DirCntlr n D N} {a b : IntPtr}

@[simp] lemma setQueue_self (s : DirCntlr n D N) (a : IntPtr) (q : List (ShmemReq n D)) :
    (s.setQueue a q).queues a = q := by
  simp [setQueue]

lemma setQueue_other (other : b ≠ a) (q : List (ShmemReq n D)) :
    (s.setQueue a q).queues b = s.queues b := by
  simp [setQueue, other]

@[simp] lemma lookup_queues (cfg : DirConfig n D N) (s : DirCntlr n D N) (a : IntPtr) :
    (s.lookup cfg a).1.queues = s.queues := rfl

lemma chooseReplacement_spec (s : DirCntlr n D N) {candidates : List Nat} {i : Nat}
    (chosen : s.chooseReplacement candidates = some i) :
    i ∈ candidates ∧ s.queues (s.directory.entries i).address = [] := by
  have kept : ∀ best, candidates.foldl s.preferReplacement best = some i →
      i ∈ candidates ∧ s.queues (s.directory.entries i).address = [] ∨ best = some i := by
    clear chosen
    induction candidates with
    | nil => exact fun _ same => Or.inr same
    | cons j js ih =>
      intro best result
      rcases ih _ result with ⟨later, idle⟩ | now
      · exact .inl ⟨List.mem_cons_of_mem j later, idle⟩
      · unfold preferReplacement at now
        split at now
        · rename_i free
          cases now
          exact .inl ⟨List.mem_cons_self, List.length_eq_zero_iff.mp free.2⟩
        · exact .inr now
  exact (kept none chosen).resolve_right (by simp)

lemma processDirectoryEntryAllocationReq_ensures {s : DirCntlr n D N} {a : IntPtr}
    {requester : Fin n} {Q : DirCntlr n D N × EntryRef × DirectoryEntry n → Prop}
    (replaces : ∀ i ∈ (s.directory.getReplacementCandidates cfg.layout a).2,
      s.queues (s.directory.entries i).address = [] →
      Ensures ((s.directory.getReplacementCandidates cfg.layout a).1.replaceDirectoryEntry
        cfg.layout (s.directory.entries i).address a) fun next =>
      Ensures (processNullifyReq cfg (enqueue { s with directory := next.1 }
        (s.directory.entries i).address (.new .nullifyReq requester)) requester
        (s.directory.entries i).address) fun nullified =>
      ∀ e, (if nullified.2 then nullified.1.setQueue (s.directory.entries i).address []
        else nullified.1).directory.get? next.2 = some e →
      Q (if nullified.2 then nullified.1.setQueue (s.directory.entries i).address []
        else nullified.1, next.2, e)) :
    Ensures (s.processDirectoryEntryAllocationReq cfg requester a) Q := by
  unfold processDirectoryEntryAllocationReq
  dsimp only
  split
  · exact .error
  · next i chosen =>
    obtain ⟨candidate, idle⟩ := chooseReplacement_spec _ chosen
    refine (replaces i candidate idle).bind fun next nullifies => ?_
    refine .require fun _ => nullifies.bind fun nullified finds => ?_
    split
    · next e here => exact .ok (finds e here)
    · exact .error

end DirCntlr

/-! ## Entries -/

namespace DramDirectoryCache

variable {l : DirLayout} {p : CoherencyProtocol} {c c' : DramDirectoryCache n} {a : IntPtr}
  {r : EntryRef} {e e' : DirectoryEntry n}

structure Sane (l : DirLayout) (p : CoherencyProtocol) (c : DramDirectoryCache n) : Prop where
  homed : c.Homed l
  consistent : c.All (Consistent p)

/-- The lookup of `a` finds the entry `e` at `r`, and all other entries are
consistent. -/
structure Holds (l : DirLayout) (p : CoherencyProtocol) (c : DramDirectoryCache n) (a : IntPtr)
    (r : EntryRef) (e : DirectoryEntry n) : Prop where
  homed : c.Homed l
  found : c.Found l a r
  here : c.get? r = some e
  others : ∀ r' e', r' ≠ r → c.get? r' = some e' → e'.Consistent p

lemma Holds.set (holds : c.Holds l p a r e) (same : e'.address = e.address) :
    (c.set r e').Holds l p a r e' where
  homed := holds.homed.set holds.here same
  found := holds.found.set holds.here same
  here := get?_set_self holds.here
  others := fun r' e'' other found => by
    rw [get?_set, if_neg other] at found
    exact holds.others r' e'' other found

lemma Holds.sane (holds : c.Holds l p a r e) (consistent : e.Consistent p) : c.Sane l p := by
  refine ⟨holds.homed, fun r' e' found => ?_⟩
  by_cases same : r' = r
  · rw [same, holds.here] at found
    exact Option.some.inj found ▸ consistent
  · exact holds.others r' e' same found

lemma Sane.getDirectoryEntry (sane : c.Sane l p) (a : IntPtr) :
    (c.getDirectoryEntry l a).1.Sane l p :=
  ⟨sane.homed.getDirectoryEntry a, sane.consistent.getDirectoryEntry
    (fun _ _ h => ⟨⟨h.notOwned, h.uncached, h.sole⟩, h.forwards⟩) a⟩

lemma Sane.holds (sane : c.Sane l p) (found : c.Found l a r) (here : c.get? r = some e) :
    c.Holds l p a r e ∧ e.Consistent p :=
  ⟨⟨sane.homed, found, here, fun r' e' _ => sane.consistent r' e'⟩, sane.consistent r e here⟩

end DramDirectoryCache

namespace DirCntlr

variable {cfg : DirConfig n D N} {s s' : DirCntlr n D N} {a : IntPtr} {r : EntryRef}
  {e : DirectoryEntry n}

def Sane (cfg : DirConfig n D N) (s : DirCntlr n D N) : Prop :=
  s.directory.Sane cfg.layout cfg.protocol

def Holds (cfg : DirConfig n D N) (s : DirCntlr n D N) (a : IntPtr) (r : EntryRef)
    (e : DirectoryEntry n) : Prop :=
  s.directory.Holds cfg.layout cfg.protocol a r e

lemma Holds.setEntry (holds : s.Holds cfg a r e) {e' : DirectoryEntry n}
    (same : e'.address = e.address) : (s.setEntry r e').Holds cfg a r e' :=
  DramDirectoryCache.Holds.set holds same

lemma Sane.congr (sane : s.Sane cfg) (same : s'.directory = s.directory) : s'.Sane cfg := by
  rw [Sane, same]
  exact sane

variable (cfg)

lemma sendDataToNUCA_keeps (s : DirCntlr n D N) (a : IntPtr)
    (data : D) (count : Bool) : (s.sendDataToNUCA cfg a data count).directory = s.directory ∧
      (s.sendDataToNUCA cfg a data count).queues = s.queues := by
  unfold sendDataToNUCA
  split
  · exact ⟨rfl, rfl⟩
  · split
    split <;> exact ⟨rfl, rfl⟩

lemma sendDataToDram_keeps (s : DirCntlr n D N) (a : IntPtr) (requester : Fin n) (data : D) :
    (s.sendDataToDram cfg a requester data).directory = s.directory ∧
      (s.sendDataToDram cfg a requester data).queues = s.queues := by
  unfold sendDataToDram
  split
  · exact sendDataToNUCA_keeps cfg s a data true
  · exact ⟨rfl, rfl⟩

lemma readNuca_keeps (s : DirCntlr n D N) (a : IntPtr) :
    (s.readNuca cfg a).2.directory = s.directory ∧ (s.readNuca cfg a).2.queues = s.queues := by
  unfold readNuca
  split <;> exact ⟨rfl, rfl⟩

open DramDirectoryCache

lemma invalidateDirectoryEntry_spec (c : DramDirectoryCache n) (a : IntPtr) :
    Ensures (c.invalidateDirectoryEntry a) fun c' => c'.entries = c.entries ∧
      ∀ l p, c.Sane l p → c'.Sane l p := by
  unfold invalidateDirectoryEntry
  split
  · exact .error
  · refine .ok ⟨rfl, fun l p sane => ?_⟩
    obtain ⟨slots, rest⟩ := all_iff.mp sane.consistent
    refine ⟨sane.homed, all_iff.mpr ⟨slots, fun e he => ?_⟩⟩
    exact rest e (List.mem_of_mem_eraseIdx he)

lemma replaced_sane {c c' : DramDirectoryCache n} {l : DirLayout} {p : CoherencyProtocol}
    (sane : c.Sane l p) {j : Nat} {uninit : Int} (hj : j ∈ l.slots a)
    (entries : c'.entries = Function.update c.entries j
      { DirectoryEntry.new n uninit with address := a })
    (replaced : c'.replaced = c.replaced ++ [c.entries j]) : c'.Sane l p := by
  obtain ⟨slots, rest⟩ := all_iff.mp sane.consistent
  refine ⟨fun i used => ?_, all_iff.mpr ⟨fun i => ?_, fun e he => ?_⟩⟩
  · rw [entries] at used ⊢
    by_cases hi : i = j
    · subst hi
      simpa using hj
    · simpa [hi] using sane.homed i (by simpa [hi] using used)
  · rw [entries]
    by_cases hi : i = j
    · subst hi
      simpa using consistent_new uninit a
    · simpa [hi] using slots i
  · rw [replaced] at he
    rcases List.mem_append.mp he with he | he
    · exact rest e he
    · rw [List.mem_singleton.mp he]
      exact slots j

lemma new_sane (replacementPtrs : Nat → Nat) (nuca : Option N) :
    (DirCntlr.new cfg replacementPtrs nuca).Sane cfg := by
  refine ⟨fun i used => absurd rfl used, DramDirectoryCache.all_iff.mpr ⟨fun i => ?_, ?_⟩⟩
  · exact consistent_new (cfg.layout.uninit i) invalidAddress
  · simp [DirCntlr.new, DramDirectoryCache.new]

variable {cfg}

end DirCntlr

end Sniper
