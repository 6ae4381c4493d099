import Sniper.Hierarchy.Refinement
import Sniper.Hierarchy.Transfer

/-!
# Coherence of the direct-DRAM hierarchy

Runs of memory operations of the cores and of reconfigurations, one after the other, from empty
caches. No assertion of the controllers fires and dirty lines of an L1 are dirty in the L2
throughout. The L2 hands out its own state with a line, so a read of a dirty line can make a second
copy of it writable; and a reconfiguration drops clean lines that L1s still hold.
-/

namespace Sniper

open Runs

/-- A call of `processMemOpFromCore`. -/
structure Request (n : Nat) where
  core : Fin n
  op : MemOp
  addr : IntPtr
  count : Bool
  deriving DecidableEq

/-- What the cores and the reconfiguration do to the hierarchy. -/
inductive Event (n : Nat) where
  | request (r : Request n)
  | reconfigure

namespace Hier

variable {cfg : HierConfig} {h h' : Hier cfg}

variable (h)

def issue (r : Request cfg.numL1) : Hier cfg :=
  h.processMemOpFromCore r.core r.op r.addr r.count

def step : Event cfg.numL1 → Hier cfg
  | .request r => h.issue r
  | .reconfigure => h.reconfigure

/-- While one L1 holds a line in a writable state no other L1 holds it in a
readable one. -/
def SingleWriter : Prop := ∀ addr i j, j ≠ i →
  (h.getCacheState (.l1 i) addr).writable = true → (h.getCacheState (.l1 j) addr).readable = false

def Inclusive : Prop := ∀ addr i,
  h.getCacheState (.l1 i) addr ≠ .invalid → h.getCacheState .l2 addr ≠ .invalid

def DirtyBelow : Prop := ∀ addr i,
  h.getCacheState (.l1 i) addr = .modified → h.getCacheState .l2 addr = .modified

/-- The request reads a line its L1 cannot read, which is dirty in the L2 while
another L1 holds it. -/
def ReadsSharedDirty (r : Request cfg.numL1) : Prop :=
  r.op = .read ∧ (h.getCacheState (.l1 r.core) r.addr).readable = false ∧
    h.getCacheState .l2 r.addr = .modified ∧
    ∃ j, j ≠ r.core ∧ h.getCacheState (.l1 j) r.addr ≠ .invalid

/-- Some way that a reconfiguration would switch off holds, outside the leader
sets, a clean block of a line that an L1 holds. -/
def HoldsDoomed : Prop :=
  ∃ s v, s < cfg.l2.numSets ∧ ((h.cache .l2).sets s).isLeader = false ∧
    Falls ((h.cache .l2).isSubWayOn (s / 512)) ((h.cache .l2).l2Hits (s / 512)) v ∧
    (((h.cache .l2).sets s).blocks v).isValid = true ∧
    (((h.cache .l2).sets s).blocks v).cstate ≠ .modified ∧
    ∃ i, h.getCacheState (.l1 i)
      (cfg.l2.tagToAddress (((h.cache .l2).sets s).blocks v).tag) ≠ .invalid

variable {h}

/-! ## From lines to addresses -/

lemma line_of_held (tidy : h.Tidy) {x : Cntlr cfg.numL1} {t : IntPtr}
    (held : h.view x t ≠ .invalid) : cfg.line (cfg.address t) = t := by
  obtain ⟨w, -, block, valid⟩ := (tidy.live x).exists_block held
  have home := ((tidy.placed x _).home w valid).2
  rw [block] at home
  exact line_address home

lemma singleWriter_iff_view (tidy : h.Tidy) : h.SingleWriter ↔ h.view.SingleWriter := by
  constructor
  · intro single i j t hj writes
    have held : h.view (.l1 i) t ≠ .invalid := by
      intro gone
      rw [gone] at writes
      cases writes
    have apart := single (cfg.address t) i j hj
    rw [getCacheState_eq, getCacheState_eq, line_of_held tidy held] at apart
    exact apart writes
  · intro single addr i j hj
    rw [getCacheState_eq, getCacheState_eq]
    exact single i j _ hj

lemma inclusive_iff_view (tidy : h.Tidy) : h.Inclusive ↔ h.view.Inclusive := by
  constructor
  · intro inclusive i t held
    have below := inclusive (cfg.address t) i
    rw [getCacheState_eq, getCacheState_eq, line_of_held tidy held] at below
    exact below held
  · intro inclusive addr i
    rw [getCacheState_eq, getCacheState_eq]
    exact inclusive i _

lemma readsSharedDirty_iff (h : Hier cfg) (r : Request cfg.numL1) :
    h.ReadsSharedDirty r ↔ h.view.SharesDirty r.core r.op (cfg.line r.addr) := by
  simp only [ReadsSharedDirty, View.SharesDirty, getCacheState_eq]

lemma holdsDoomed_iff (tidy : h.Tidy) :
    h.HoldsDoomed ↔ ∃ t ∈ h.doomed, ∃ i, h.view (.l1 i) t ≠ .invalid := by
  have bridge : ∀ {s : Nat} {v : Fin (cfg.geom .l2).assoc} (i : Fin cfg.numL1),
      (((h.cache .l2).sets s).blocks v).isValid = true →
      h.getCacheState (.l1 i) (cfg.l2.tagToAddress (((h.cache .l2).sets s).blocks v).tag) =
        h.view (.l1 i) (((h.cache .l2).sets s).blocks v).tag := by
    intro s v i valid
    rw [getCacheState_eq]
    exact congrArg _ (line_address ((tidy.placed .l2 s).home v valid).2)
  constructor
  · rintro ⟨s, v, hs, follower, falls, valid, clean, i, held⟩
    exact ⟨_, ⟨s, v, hs, follower, falls, valid, clean, rfl⟩, i, bridge i valid ▸ held⟩
  · rintro ⟨t, ⟨s, v, hs, follower, falls, valid, clean, rfl⟩, i, held⟩
    exact ⟨s, v, hs, follower, falls, valid, clean, i, (bridge i valid).symm ▸ held⟩

/-! ## Steps -/

lemma new_view (cfg : HierConfig) (x : Cntlr cfg.numL1) (t : IntPtr) :
    (Hier.new cfg).view x t = .invalid :=
  Cache.new_lineState _ t

lemma new_sound (cfg : HierConfig) : (Hier.new cfg).Sound where
  tidy := ⟨fun _ => Cache.new_placed _, fun _ => Cache.new_live _⟩
  msi := fun x t => Or.inl (new_view cfg x t)
  dirty := fun i t ht => by rw [new_view] at ht; cases ht
  first := fun _ => rfl
  seen := fun s u _ => Or.inr (.inl rfl)
  idle := rfl

lemma Sound.issue (sound : h.Sound) (r : Request cfg.numL1) :
    (h.issue r).Sound ∧ (h.issue r).failed = h.failed := by
  obtain ⟨victim2, victim1, -, -, moves⟩ :=
    processMemOpFromCore_moves sound r.core r.op r.addr r.count
  exact ⟨sound.moves moves (View.Msi.memOp sound.msi _ _ _ _ _)
    (View.DirtyBelow.memOp sound.dirty _ _ _ _ _), moves.failed⟩

lemma Sound.transfers (sound : h.Sound) : Transfers h h.reconfigure h.doomed :=
  reconfigure_transfers sound.tidy sound.idle sound.first sound.seen

lemma Sound.reconfigure (sound : h.Sound) :
    h.reconfigure.Sound ∧ h.reconfigure.failed = h.failed := by
  have transfers := sound.transfers
  refine ⟨⟨transfers.tidy, transfers.swept.msi sound.msi, ?_, ?_, ?_, ?_⟩, transfers.failed⟩
  · exact transfers.swept.dirtyBelow (fun t ht => doomed_clean sound.tidy ht) sound.dirty
  · exact reconfigure_firstOn (sound.tidy.placed .l2) sound.first
  · exact reconfigure_seen (sound.tidy.placed .l2) sound.first sound.seen
  · exact transfers.evicting.trans sound.idle

lemma Sound.step (sound : h.Sound) (e : Event cfg.numL1) :
    (h.step e).Sound ∧ (h.step e).failed = h.failed := by
  cases e with
  | request r => exact sound.issue r
  | reconfigure => exact sound.reconfigure

lemma run_sound (cfg : HierConfig) (es : List (Event cfg.numL1)) :
    (run step (Hier.new cfg) es).Sound ∧ (run step (Hier.new cfg) es).failed = [] := by
  refine run_invariant (I := fun h : Hier cfg => h.Sound ∧ h.failed = []) ?_ ⟨new_sound cfg, rfl⟩ es
  rintro h e ⟨sound, ok⟩
  exact ⟨(sound.step e).1, (sound.step e).2.trans ok⟩

lemma Sound.issue_inclusive (sound : h.Sound) (inclusive : h.view.Inclusive)
    (r : Request cfg.numL1) : (h.issue r).view.Inclusive := by
  obtain ⟨victim2, victim1, hv2, -, moves⟩ :=
    processMemOpFromCore_moves sound r.core r.op r.addr r.count
  rw [Hier.issue, moves.view]
  exact inclusive.memOp r.core r.op hv2 victim1

/-! ## No assertion fires -/

/-- Over every interleaving of memory operations and reconfigurations, no
assertion fires and dirty lines of an L1 are dirty in the L2. -/
theorem run_no_assertion (cfg : HierConfig) (es : List (Event cfg.numL1)) :
    (run step (Hier.new cfg) es).failed = [] ∧
      (run step (Hier.new cfg) es).DirtyBelow := by
  obtain ⟨sound, ok⟩ := run_sound cfg es
  refine ⟨ok, fun addr i => ?_⟩
  rw [getCacheState_eq, getCacheState_eq]
  exact sound.dirty i _

/-! ## One writer -/

/-- Along a run of memory operations there is one writer at a time exactly when
no request reads a dirty line of the L2 that another L1 holds. -/
theorem singleWriter_throughout_iff (cfg : HierConfig) (rs : List (Request cfg.numL1)) :
    Throughout issue SingleWriter (Hier.new cfg) rs ↔
      Guarded issue (fun h r => ¬ h.ReadsSharedDirty r) (Hier.new cfg) rs := by
  refine throughout_iff_guarded
    (I := fun h : Hier cfg => h.Sound ∧ h.view.Inclusive ∧ h.view.SingleWriter) ?_ ?_ ?_ ?_ rs
  · rintro h r ⟨sound, inclusive, single⟩ apart
    obtain ⟨victim2, victim1, -, -, moves⟩ :=
      processMemOpFromCore_moves sound r.core r.op r.addr r.count
    refine ⟨(sound.issue r).1, sound.issue_inclusive inclusive r, ?_⟩
    · rw [issue, moves.view]
      exact single.memOp sound.msi sound.dirty inclusive
        (fun shares => apart ((h.readsSharedDirty_iff r).mpr shares)) victim2 victim1
  · rintro h ⟨sound, -, single⟩
    exact (singleWriter_iff_view sound.tidy).mpr single
  · rintro h r ⟨sound, -⟩ shares
    obtain ⟨victim2, victim1, -, hv1, moves⟩ :=
      processMemOpFromCore_moves sound r.core r.op r.addr r.count
    rw [singleWriter_iff_view (sound.issue r).1.tidy, issue, moves.view]
    exact ((h.readsSharedDirty_iff r).mp (not_not.mp shares)).breaks victim2 hv1
  · refine ⟨new_sound cfg, fun i t held => absurd (new_view cfg _ t) held, ?_⟩
    intro i j t _ writes
    rw [new_view] at writes
    cases writes

/-- Core 0 writes a line and core 1 reads it: core 0 keeps a readable copy and
core 1 gets a writable one. -/
theorem read_after_write_not_singleWriter : ¬ (run issue (Hier.new twoCores)
      [⟨core0, .write, 0x40, true⟩, ⟨core1, .read, 0x40, true⟩]).SingleWriter := by
  intro single
  have apart := single 0x40 core1 core0 (by decide) (by decide +kernel)
  revert apart
  decide +kernel

/-! ## Inclusion -/

lemma Sound.reconfigure_not_inclusive (sound : h.Sound) (doomed : h.HoldsDoomed) :
    ¬ h.reconfigure.Inclusive := by
  obtain ⟨t, ht, i, held⟩ := (holdsDoomed_iff sound.tidy).mp doomed
  rw [inclusive_iff_view sound.reconfigure.1.tidy]
  exact sound.transfers.swept.not_inclusive ht held

lemma Sound.reconfigure_inclusive_iff (sound : h.Sound) (inclusive : h.view.Inclusive) :
    h.reconfigure.view.Inclusive ↔ ¬ h.HoldsDoomed := by
  rw [sound.transfers.swept.inclusive_iff inclusive, holdsDoomed_iff sound.tidy]
  push Not
  rfl

/-- Along a run of memory operations and reconfigurations the L2 is inclusive
exactly when no reconfiguration finds a clean line of an L1 in a way it is about
to switch off. -/
theorem inclusive_throughout_iff (cfg : HierConfig) (es : List (Event cfg.numL1)) :
    Throughout step Inclusive (Hier.new cfg) es ↔
      Guarded step (fun h e => e = .reconfigure → ¬ h.HoldsDoomed) (Hier.new cfg) es := by
  refine throughout_iff_guarded (I := fun h : Hier cfg => h.Sound ∧ h.view.Inclusive) ?_ ?_ ?_ ?_ es
  · rintro h e ⟨sound, inclusive⟩ free
    refine ⟨(sound.step e).1, ?_⟩
    cases e with
    | request r => exact sound.issue_inclusive inclusive r
    | reconfigure => exact (sound.reconfigure_inclusive_iff inclusive).mpr (free rfl)
  · rintro h ⟨sound, inclusive⟩
    exact (inclusive_iff_view sound.tidy).mpr inclusive
  · rintro h e ⟨sound, inclusive⟩ bad after
    push Not at bad
    obtain ⟨rfl, doomed⟩ := bad
    exact sound.reconfigure_not_inclusive doomed after
  · exact ⟨new_sound cfg, fun i t held => absurd (new_view cfg _ t) held⟩

def threeReads : List (Request twoCores.numL1) :=
  [⟨core0, .read, 0x0, true⟩, ⟨core0, .read, 0x40000, true⟩, ⟨core0, .read, 0x80000, true⟩]

/-- The third line is in way 2, which the first reconfiguration switches off, and
core 0 goes on holding it. -/
theorem threeReads_reconfigure_not_inclusive : ¬ (run step (Hier.new twoCores)
      (threeReads.map .request ++ [.reconfigure])).Inclusive := by
  have sound := (run_sound twoCores (threeReads.map .request)).1
  have doomed : (run step (Hier.new twoCores) (threeReads.map .request)).HoldsDoomed := by
    refine ⟨0, 2, by decide, by decide +kernel, ?_, by decide +kernel, by decide +kernel, core0,
      by decide +kernel⟩
    refine ⟨?_, by decide, by decide +kernel, ?_⟩
    · unfold Hot
      decide +kernel
    · decide +kernel
  rw [run_append, run_cons, run_nil, step]
  exact sound.reconfigure_not_inclusive doomed

/-! ## Dirty lines under reconfiguration -/

def withHits (h : Hier cfg) (hits : Nat → Fin (cfg.geom .l2).assoc → Nat) : Hier cfg :=
  h.setCache .l2 { h.cache .l2 with l2Hits := hits }

def DirtyInSight (h : Hier cfg) (addr : IntPtr) : Prop :=
  ∃ w, (h.cache .l2).find addr = some w ∧ (h.blockAt .l2 addr w).cstate = .modified ∧
    (((h.cache .l2).setAt addr).isLeader = true ∨
      (h.cache .l2).mask ((cfg.geom .l2).setIndex ((cfg.geom .l2).tagOf addr)) w = true)

/-- DRAM accesses made since `h` include a write of the line of `addr`. -/
def WrittenSince (h h' : Hier cfg) (addr : IntPtr) : Prop :=
  ∃ log, h'.dram = h.dram ++ log ∧ .write (cfg.l2.tagToAddress (cfg.l2.tagOf addr)) ∈ log

lemma Sound.withHits (sound : h.Sound) (hits : Nat → Fin (cfg.geom .l2).assoc → Nat) :
    (h.withHits hits).Sound := by
  have moves : Moves h (h.withHits hits) h.view :=
    sound.tidy.moves_sameBlocks (fun _ => rfl) ⟨rfl, fun _ => rfl⟩
  exact sound.moves moves sound.msi sound.dirty

lemma Sound.dirtyInSight (sound : h.Sound) {addr : IntPtr}
    (dirty : h.view .l2 (cfg.line addr) = .modified) : h.DirtyInSight addr := by
  have held : h.view .l2 (cfg.line addr) ≠ .invalid := by simp [dirty]
  obtain ⟨w, found⟩ := sound.tidy.find_isSome held
  have valid : (((h.cache .l2).setAt addr).blocks w).isValid = true := by
    rw [CacheBlockInfo.isValid_iff, CacheSet.find_tag found]
    exact Geometry.tagOf_ne_noTag _ addr
  refine ⟨w, found, (blockAt_cstate found).trans dirty, ?_⟩
  rcases sound.seen _ w valid with h | h | h
  · exact .inl h
  · exact .inr h
  · exact h.elim

/-- From any reachable state and for any hit counts, a line that is dirty in the
L2 before a reconfiguration is dirty and in sight after it, or was written to
DRAM by it. -/
theorem reconfigure_keeps_dirty (cfg : HierConfig) (es : List (Event cfg.numL1))
    (hits : Nat → Fin (cfg.geom .l2).assoc → Nat) (addr : IntPtr)
    (dirty : ((run step (Hier.new cfg) es).withHits hits).getCacheState .l2 addr = .modified) :
    let h := (run step (Hier.new cfg) es).withHits hits
    h.reconfigure.DirtyInSight addr ∨ WrittenSince h h.reconfigure addr := by
  intro h
  have sound : h.Sound := (run_sound cfg es).1.withHits hits
  rw [getCacheState_eq] at dirty
  obtain ⟨log, hlog, keep⟩ := sound.transfers.dirty
  rcases keep _ dirty with after | written
  · exact .inl (sound.reconfigure.1.dirtyInSight after)
  · exact .inr ⟨log, hlog, written⟩

/-- Core 0 writes three lines of one set. With no hits at all the way of the third falls, and its
block has to be taken out. -/
def threeWrites : List (Event twoCores.numL1) :=
  [.request ⟨core0, .write, 0x0, true⟩, .request ⟨core0, .write, 0x40000, true⟩,
    .request ⟨core0, .write, 0x80000, true⟩]

theorem reconfigure_keeps_dirty_written :
    let h := (run step (Hier.new twoCores) threeWrites).withHits fun _ _ => 0
    h.reconfigure.DirtyInSight 0x80000 ∨ WrittenSince h h.reconfigure 0x80000 :=
  reconfigure_keeps_dirty twoCores threeWrites (fun _ _ => 0) 0x80000 (by decide +kernel)

/-! ## Whole runs -/

/-- What the protocol lets an event make of the lines, whichever lines are evicted and whichever
clean ones a reconfiguration drops. -/
def Admits (cfg : HierConfig) (v v' : View cfg.numL1 IntPtr) : Event cfg.numL1 → Prop
  | .request r => ∃ victim2 victim1, victim2 ≠ some (cfg.line r.addr) ∧
      victim1 ≠ some (cfg.line r.addr) ∧ v' = v.memOp r.core r.op (cfg.line r.addr) victim2 victim1
  | .reconfigure => ∃ dropped, (∀ t ∈ dropped, v .l2 t ≠ .modified) ∧ View.Sweeps dropped v v'

lemma Sound.admits (sound : h.Sound) (e : Event cfg.numL1) :
    Admits cfg h.view (h.step e).view e ∧ KeepsDirty h (h.step e) := by
  cases e with
  | request r =>
    obtain ⟨victim2, victim1, hv2, hv1, moves⟩ :=
      processMemOpFromCore_moves sound r.core r.op r.addr r.count
    exact ⟨⟨victim2, victim1, hv2, hv1, moves.view⟩, moves.dirty⟩
  | reconfigure =>
    have transfers := sound.transfers
    exact ⟨⟨h.doomed, fun t ht => doomed_clean sound.tidy ht, transfers.swept⟩, transfers.dirty⟩

/-- From empty caches, every step of the controllers is one of the protocol. -/
theorem run_refines_protocol (cfg : HierConfig) (es : List (Event cfg.numL1)) :
    (∀ x t, (Hier.new cfg).view x t = .invalid) ∧
      Guarded step (fun h e => Admits cfg h.view (h.step e).view e) (Hier.new cfg) es := by
  constructor
  · exact new_view cfg
  · have all : Guarded step (fun _ _ => True) (Hier.new cfg) es :=
      guarded_of_forall (fun _ _ _ => trivial) _
    exact all.imp (I := Sound) (fun h e sound _ => (sound.step e).1)
      (fun h e sound _ => (sound.admits e).1) (new_sound cfg)

/-- A line that is dirty in some cache in a state of a run is, in every later state, dirty and in
sight in the L2, or has been written to DRAM since. -/
theorem run_loses_no_write (cfg : HierConfig) (es later : List (Event cfg.numL1))
    (x : Cntlr cfg.numL1) (addr : IntPtr)
    (dirty : (run step (Hier.new cfg) es).getCacheState x addr = .modified) :
    let h := run step (Hier.new cfg) es
    (run step h later).DirtyInSight addr ∨ WrittenSince h (run step h later) addr := by
  intro h
  have sound : h.Sound := (run_sound cfg es).1
  have below : h.view .l2 (cfg.line addr) = .modified := by
    rw [getCacheState_eq] at dirty
    cases x with
    | l1 i => exact sound.dirty i _ dirty
    | l2 => exact dirty
  obtain ⟨sound', log, hlog, keep⟩ : (run step h later).Sound ∧ KeepsDirty h (run step h later) := by
    refine run_invariant (I := fun h' => h'.Sound ∧ KeepsDirty h h') ?_ ⟨sound, .refl h⟩ later
    rintro h' e ⟨sound, kept⟩
    exact ⟨(sound.step e).1, kept.trans (sound.admits e).2⟩
  rcases keep _ below with after | written
  · exact .inl (sound'.dirtyInSight after)
  · exact .inr ⟨log, hlog, written⟩

theorem run_loses_no_write_read :
    let h := run step (Hier.new twoCores) [.request ⟨core0, .write, 0x40, true⟩]
    let h' := run step h [.request ⟨core1, .read, 0x40, true⟩, .reconfigure]
    h'.DirtyInSight 0x40 ∨ WrittenSince h h' 0x40 :=
  run_loses_no_write twoCores _ _ (.l1 core0) 0x40 (by decide +kernel)

end Hier

end Sniper
