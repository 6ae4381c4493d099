import Sniper.Cache.DataCache
import Sniper.Directory.Controller
import Sniper.Lib.Runs

/-!
# The NUCA cache behind the directory

With a NUCA cache the directory controller writes dirty data there, and sends it to DRAM when the
cache evicts it in state MODIFIED. `NucaCache::write` sets this state when it finds the line, but
not when it inserts it. A dirty line that was not yet in the cache is therefore dropped when it is
evicted.

On a hit `write` leaves its out parameters as they are, and `sendDataToNUCA` passes variables that
have no value yet. What they hold is arbitrary, and so may be the request that is sent for it.
-/

namespace Sniper

open Function DirCntlr DataCache

/-- The NUCA cache. `garbage` is what the variables of the caller hold at the start of each call,
which is numbered. -/
structure NucaCache (g : HomedGeometry) (D : Type) where
  cache : DataCache g D
  garbage : Nat → Option (IntPtr × D)
  calls : Nat

namespace NucaCache

variable {g : HomedGeometry} {D : Type}

def new (g : HomedGeometry) (zero : D) (garbage : Nat → Option (IntPtr × D)) : NucaCache g D where
  cache := .new g zero
  garbage := garbage
  calls := 0

def read (nuca : NucaCache g D) (address : IntPtr) : Option D × NucaCache g D :=
  let loaded := nuca.cache.loadSingleLine address
  (loaded.2, { nuca with cache := loaded.1 })

/-- The line that the caller is to write to DRAM, if `eviction` is true at the end. -/
def write (nuca : NucaCache g D) (address : IntPtr) (data : D) :
    Option (IntPtr × D) × NucaCache g D :=
  match nuca.cache.peekSingleLine address with
  | some _ =>
    (nuca.garbage nuca.calls, { nuca with
      cache := (nuca.cache.setCState address .modified).storeSingleLine address data
      calls := nuca.calls + 1 })
  | none =>
    let inserted := nuca.cache.insertSingleLine address data
    ((inserted.2.filter fun evicted => evicted.cstate = .modified).map fun evicted =>
        (evicted.address, evicted.data),
      { nuca with cache := inserted.1, calls := nuca.calls + 1 })

/-- What the directory controller uses; the statistics do not matter. -/
def ops (g : HomedGeometry) (D : Type) : NucaOps (NucaCache g D) D where
  read := read
  write := fun nuca address data _ => nuca.write address data

end NucaCache

/-! ## Calls of the controller -/

variable {n : Nat} {g : HomedGeometry} {D : Type}

/-- The controller, and of every line whether its latest `sendDataToDram` was not yet followed by
a write request for it. -/
structure NucaSystem (n : Nat) (g : HomedGeometry) (D : Type) where
  cntlr : DirCntlr n D (NucaCache g D)
  pending : g.Line → Bool

inductive NucaCall (n : Nat) (g : HomedGeometry) (D : Type) where
  | sendDataToDram (line : g.Line) (requester : Fin n) (data : D)
  | sendDataToNUCA (line : g.Line) (data : D) (count : Bool)
  | read (line : g.Line)

namespace NucaSystem

variable (cfg : DirConfig n D (NucaCache g D))

def call (cntlr : DirCntlr n D (NucaCache g D)) : NucaCall n g D → DirCntlr n D (NucaCache g D)
  | .sendDataToDram line requester data =>
    cntlr.sendDataToDram { cfg with nuca := NucaCache.ops g D } line.address requester data
  | .sendDataToNUCA line data count =>
    cntlr.sendDataToNUCA { cfg with nuca := NucaCache.ops g D } line.address data count
  | .read line => (cntlr.readNuca { cfg with nuca := NucaCache.ops g D } line.address).2

def isWrite (line : g.Line) : DirSend n D → Bool
  | .dramWrite _ address _ => address == line.address
  | _ => false

def dirties (line : g.Line) : NucaCall n g D → Bool
  | .sendDataToDram dirty _ _ => dirty == line
  | _ => false

def step (s : NucaSystem n g D) (event : NucaCall n g D) : NucaSystem n g D where
  cntlr := call cfg s.cntlr event
  pending := fun line => (s.pending line || dirties line event) &&
    !((call cfg s.cntlr event).sent.drop s.cntlr.sent.length).any (isWrite line)

def new (ptrs : Nat → Nat) (zero : D) (garbage : Nat → Option (IntPtr × D)) : NucaSystem n g D where
  cntlr := DirCntlr.new cfg ptrs (some (NucaCache.new g zero garbage))
  pending := fun _ => false

/-- Every line whose dirty data was not written to DRAM is in the cache, in state MODIFIED. -/
def NoneLost (s : NucaSystem n g D) : Prop :=
  ∀ line, s.pending line = true → ∃ nuca data, s.cntlr.nuca = some nuca ∧
    nuca.cache.line line = some ⟨.modified, data⟩

def Resident (s : NucaSystem n g D) (event : NucaCall n g D) : Prop :=
  ∀ line requester data, event = .sendDataToDram line requester data →
    ∃ nuca cached, s.cntlr.nuca = some nuca ∧ nuca.cache.line line = some cached

/-! ## What a write does -/

section Writes

variable {nuca : NucaCache g D} {line : g.Line} {data : D}

lemma write_hit {cached : CachedLine D} (housed : nuca.cache.Housed)
    (held : nuca.cache.line line = some cached) (data : D) :
    (nuca.write line.address data).2.cache.Housed ∧ (nuca.write line.address data).2.cache.line =
        update nuca.cache.line line (some ⟨.modified, data⟩) := by
  obtain ⟨i, found, -⟩ := peek_of_line held
  obtain ⟨marked, lines⟩ := housed.setCState held .modified
  have there : (nuca.cache.setCState line.address .modified).line line =
      some ⟨.modified, cached.data⟩ := by
    rw [lines, update_self]
  obtain ⟨stored, final⟩ := marked.store there data
  rw [NucaCache.write, found]
  refine ⟨stored, ?_⟩
  rw [final, lines, update_idem]

lemma write_miss (housed : nuca.cache.Housed) (absent : nuca.cache.line line = none) (data : D) :
    (nuca.write line.address data).2.cache.Housed ∧
      (nuca.write line.address data).2.cache.line line = some ⟨.invalid, data⟩ ∧
      (∀ w, (nuca.write line.address data).1 = some w → w.1 ≠ line.address) ∧
      ∀ other cached, other ≠ line → nuca.cache.line other = some cached →
        (nuca.write line.address data).2.cache.line other = some cached ∨
          (cached.cstate = .modified →
            (nuca.write line.address data).1 = some (other.address, cached.data)) := by
  have result : nuca.write line.address data =
      (((nuca.cache.insertSingleLine line.address data).2.filter fun evicted =>
          evicted.cstate = .modified).map fun evicted => (evicted.address, evicted.data),
        { nuca with
          cache := (nuca.cache.insertSingleLine line.address data).1
          calls := nuca.calls + 1 }) := by
    rw [NucaCache.write, peek_of_absent absent]
  rw [result]
  obtain ⟨after, ⟨none, lines⟩ | ⟨victim, cached, different, held, evicted, lines⟩⟩ :=
    housed.insert absent data
  · rw [none]
    refine ⟨after, by rw [lines, update_self], by rintro _ ⟨⟩, ?_⟩
    intro other cached away held
    left
    rw [lines, update_of_ne away, held]
  · rw [evicted]
    refine ⟨after, by rw [lines, update_self], ?_, fun other found away there => ?_⟩
    · intro w sent same
      obtain ⟨evicted, kept, rfl⟩ := Option.map_eq_some_iff.mp sent
      obtain ⟨found, -⟩ := Option.filter_eq_some_iff.mp kept
      cases found
      exact different (Geometry.Line.address_injective same)
    · by_cases here : other = victim
      · subst here
        right
        intro modified
        rw [held] at there
        cases there
        simp [modified]
      · left
        rw [lines, update_of_ne away, update_of_ne here, there]

end Writes

/-! ## What a call does -/

structure Sound (s : NucaSystem n g D) (nuca : NucaCache g D) : Prop where
  present : s.cntlr.nuca = some nuca
  housed : nuca.cache.Housed
  dirty : ∀ line, s.pending line = true → ∃ data, nuca.cache.line line = some ⟨.modified, data⟩

section Calls

variable {s : NucaSystem n g D} {nuca : NucaCache g D} {event : NucaCall n g D}

variable {cfg} in
lemma sendDataToNUCA_eq {cntlr : DirCntlr n D (NucaCache g D)}
    (present : cntlr.nuca = some nuca) (address : IntPtr) (data : D) (count : Bool) :
    cntlr.sendDataToNUCA { cfg with nuca := NucaCache.ops g D } address data count = { cntlr with
        nuca := some (nuca.write address data).2
        sent := cntlr.sent ++ ((nuca.write address data).1.map fun w =>
          .dramWrite cfg.coreId w.1 w.2).toList } := by
  rw [sendDataToNUCA, present]
  simp only [NucaCache.ops]
  obtain ⟨evicted, after⟩ := nuca.write address data
  cases evicted with
  | none => simp
  | some w => rfl

lemma pending_step {sent : List (DirSend n D)}
    (appended : (call cfg s.cntlr event).sent = s.cntlr.sent ++ sent) (line : g.Line) :
    (step cfg s event).pending line =
      ((s.pending line || dirties line event) && !sent.any (isWrite line)) := by
  rw [step, appended, List.drop_left]

section

variable (sound : Sound s nuca)

include sound

lemma Sound.write {line : g.Line} {data : D} {count : Bool}
    (acts : call cfg s.cntlr event = s.cntlr.sendDataToNUCA
      { cfg with nuca := NucaCache.ops g D } line.address data count)
    (only : ∀ other, dirties other event = true → other = line)
    (resident : dirties line event = true → nuca.cache.line line ≠ none) :
    Sound (step cfg s event) (nuca.write line.address data).2 := by
  rw [sendDataToNUCA_eq sound.present] at acts
  have pending := pending_step cfg (congrArg sent acts)
  have present : (step cfg s event).cntlr.nuca = some (nuca.write line.address data).2 :=
    congrArg DirCntlr.nuca acts
  cases held : nuca.cache.line line with
  | some cached =>
    obtain ⟨housed, lines⟩ := write_hit sound.housed held data
    refine ⟨present, housed, fun other waits => ?_⟩
    rw [pending, Bool.and_eq_true, Bool.or_eq_true] at waits
    rw [lines]
    by_cases here : other = line
    · subst here
      exact ⟨data, update_self _ _ _⟩
    · rw [update_of_ne here]
      exact sound.dirty other (waits.1.resolve_right fun dirty => here (only other dirty))
  | none =>
    obtain ⟨housed, -, -, others⟩ := write_miss sound.housed held data
    refine ⟨present, housed, fun other waits => ?_⟩
    rw [pending, Bool.and_eq_true, Bool.or_eq_true] at waits
    have before : s.pending other = true := by
      refine waits.1.resolve_right fun dirty => ?_
      have same := only other dirty
      subst same
      exact resident dirty held
    obtain ⟨kept, there⟩ := sound.dirty other before
    have away : other ≠ line := by
      rintro rfl
      rw [held] at there
      cases there
    obtain same | evicted := others other _ away there
    · exact ⟨kept, same⟩
    · rw [evicted rfl] at waits
      exact absurd waits.2 (by simp [isWrite])

lemma Sound.read (line : g.Line) : ∃ after, Sound (step cfg s (.read line)) after := by
  obtain ⟨housed, lines, -⟩ := sound.housed.load line
  have acts : call cfg s.cntlr (.read line) =
      { s.cntlr with nuca := some (nuca.read line.address).2 } := by
    rw [call, readNuca, sound.present]
    rfl
  have appended : (call cfg s.cntlr (.read line)).sent = s.cntlr.sent ++ [] := by
    rw [acts, List.append_nil]
  refine ⟨(nuca.read line.address).2, congrArg DirCntlr.nuca acts, housed, fun other waits => ?_⟩
  rw [pending_step cfg appended] at waits
  obtain ⟨data, held⟩ := sound.dirty other (by simpa [dirties] using waits)
  exact ⟨data, (congrFun lines other).trans held⟩

lemma sendDataToDram_eq (line : g.Line) (requester : Fin n) (data : D) :
    call cfg s.cntlr (.sendDataToDram line requester data) = s.cntlr.sendDataToNUCA
      { cfg with nuca := NucaCache.ops g D } line.address data true := by
  rw [call, sendDataToDram, sound.present]

lemma Sound.step (resident : Resident s event) : ∃ after, Sound (step cfg s event) after := by
  cases event with
  | sendDataToDram line requester data =>
    refine ⟨_, sound.write cfg (sendDataToDram_eq cfg sound line requester data) ?_ fun _ => ?_⟩
    · exact fun other dirty => (beq_iff_eq.mp dirty).symm
    · obtain ⟨_, cached, present, held⟩ := resident line requester data rfl
      rw [sound.present] at present
      cases present
      simp [held]
  | sendDataToNUCA line data count =>
    have acts : call cfg s.cntlr (.sendDataToNUCA line data count) = s.cntlr.sendDataToNUCA
        { cfg with nuca := NucaCache.ops g D } line.address data count := rfl
    exact ⟨_, sound.write cfg acts (by rintro _ ⟨⟩) (by rintro ⟨⟩)⟩
  | read line => exact sound.read cfg line

lemma Sound.noneLost : NoneLost s := by
  intro line waits
  obtain ⟨data, held⟩ := sound.dirty line waits
  exact ⟨nuca, data, sound.present, held⟩

lemma Sound.step_miss (miss : ¬ Resident s event) : ¬ NoneLost (NucaSystem.step cfg s event) := by
  intro kept
  refine miss fun line requester data dirty => ?_
  subst dirty
  cases held : nuca.cache.line line with
  | some cached => exact ⟨nuca, cached, sound.present, held⟩
  | none =>
    obtain ⟨-, there, others, -⟩ := write_miss sound.housed held data
    have acts := sendDataToDram_eq cfg sound line requester data
    rw [sendDataToNUCA_eq sound.present] at acts
    have waits : (NucaSystem.step cfg s (.sendDataToDram line requester data)).pending line =
        true := by
      rw [pending_step cfg (congrArg DirCntlr.sent acts)]
      cases sent : (nuca.write line.address data).1 with
      | none => simp [dirties]
      | some w => simpa [dirties, isWrite] using others w sent
    obtain ⟨after, found, present, modified⟩ := kept line waits
    rw [NucaSystem.step, acts] at present
    cases present
    rw [there] at modified
    cases modified

end

end Calls

/-- No dirty data is lost, exactly as long as the cache holds the line of every
`sendDataToDram`. -/
theorem noneLost_iff_resident (cfg : DirConfig n D (NucaCache g D)) (ptrs : Nat → Nat) (zero : D)
    (garbage : Nat → Option (IntPtr × D)) (calls : List (NucaCall n g D)) :
    Runs.Throughout (step cfg) NoneLost (new cfg ptrs zero garbage) calls ↔
      Runs.Guarded (step cfg) Resident (new cfg ptrs zero garbage) calls := by
  refine Runs.throughout_iff_guarded (I := fun s => ∃ nuca, Sound s nuca) ?_ ?_ ?_ ?_ calls
  · rintro s event ⟨nuca, sound⟩ resident
    exact sound.step cfg resident
  · rintro s ⟨nuca, sound⟩
    exact sound.noneLost
  · rintro s event ⟨nuca, sound⟩ miss
    exact sound.step_miss cfg miss
  · exact ⟨_, rfl, new_housed g zero, by rintro _ ⟨⟩⟩

def smallNuca : DirConfig 1 (BitVec 256) (NucaCache oneLine (BitVec 256)) where
  coreId := 0
  protocol := .msi
  maxHwSharers := 1
  layout := ⟨1, 1, 6, fun _ => 0⟩
  nuca := NucaCache.ops oneLine (BitVec 256)
  random := fun _ => 0

def twoWritebacks : NucaSystem 1 oneLine (BitVec 256) :=
  Runs.run (step smallNuca) (new smallNuca (fun _ => 0) 0 fun _ => none)
    [.sendDataToDram firstLine 0 1, .sendDataToDram secondLine 0 2]

/-- The first line is gone, and nothing was sent to DRAM. -/
theorem twoWritebacks_lost : twoWritebacks.pending firstLine = true ∧
    twoWritebacks.cntlr.sent.length = 0 ∧
    (twoWritebacks.cntlr.nuca.map fun nuca => nuca.cache.peekSingleLine firstLine.address) =
      some none ∧ ¬ NoneLost twoWritebacks := by
  have absent : (twoWritebacks.cntlr.nuca.map fun nuca =>
      nuca.cache.peekSingleLine firstLine.address) = some none := by decide +kernel
  refine ⟨by decide +kernel, by decide +kernel, absent, fun kept => ?_⟩
  obtain ⟨nuca, data, present, held⟩ := kept firstLine (by decide +kernel)
  obtain ⟨i, found, -⟩ := peek_of_line held
  rw [present, Option.map_some, found] at absent
  cases absent

end NucaSystem

end Sniper
