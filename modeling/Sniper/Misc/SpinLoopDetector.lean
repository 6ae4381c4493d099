import Mathlib.Algebra.Order.Ring.Nat
import Sniper.Lib.Runs

/-!
# The spin loop detector

`SpinLoopDetector` has a table of the loops (SDT), each known by its backward control transfer, and
a buffer of the registers that changed (RUB), with the loops they changed for. The buffer has one
old value for a register, the one it had when it came into the buffer, and for the other loops this
need not be the value at the end of their last iteration.
-/

namespace Sniper.Misc

open List Function BitVec Runs

abbrev Eip := BitVec 64

abbrev Reg := BitVec 16

abbrev Value := BitVec 64

def sdtMaxSize : ℕ := 16

structure RubEntry where
  reg : Reg
  oldValue : Value
  bits : BitVec 16
  deriving DecidableEq, Repr

structure SdtEntry where
  eip : Eip
  id : ℕ
  icount : BitVec 64
  tcount : BitVec 64
  deriving DecidableEq, Repr

/-- The arguments of `updateSpinCount`. -/
structure SpinCount where
  instructions : BitVec 64
  elapsedTime : BitVec 64
  deriving DecidableEq, Repr

structure SpinLoopDetector where
  rub : List RubEntry
  sdt : List SdtEntry
  sdtBitmask : BitVec 16
  sdtNextid : ℕ
  deriving DecidableEq, Repr

namespace SpinLoopDetector

def new : SpinLoopDetector := ⟨[], [], 0, 0⟩

/-- `1 << id`. -/
def bit (id : ℕ) : BitVec 16 := 1#16 <<< id

def bitmask (sdt : List SdtEntry) : BitVec 16 :=
  sdt.foldl (fun mask entry => mask ||| bit entry.id) 0

def addLoop (eip : Eip) (icount tcount : BitVec 64) (s : SpinLoopDetector) : SpinLoopDetector :=
  let sdt := s.sdt ++ [⟨eip, s.sdtNextid, icount, tcount⟩]
  let sdt := if sdtMaxSize < sdt.length then sdt.tail else sdt
  { s with sdt, sdtNextid := (s.sdtNextid + 1) % sdtMaxSize, sdtBitmask := bitmask sdt }

def setCounts (eip : Eip) (icount tcount : BitVec 64) : List SdtEntry → List SdtEntry
  | [] => []
  | entry :: sdt =>
    if entry.eip = eip then { entry with icount, tcount } :: sdt
    else entry :: setCounts eip icount tcount sdt

/-- `commitBCT`, with the instruction count and the time of the core, and the call of
`updateSpinCount` for a loop that spins. -/
def commitBCT (eip : Eip) (icount tcount : BitVec 64) (s : SpinLoopDetector) :
    SpinLoopDetector × Option SpinCount :=
  match s.sdt.find? (·.eip = eip) with
  | none => (s.addLoop eip icount tcount, none)
  | some entry =>
    let spinning := s.rub.all fun changed => changed.bits &&& bit entry.id = 0
    let rub := s.rub.map fun changed => { changed with bits := changed.bits &&& ~~~bit entry.id }
    ({ s with rub, sdt := setCounts eip icount tcount s.sdt },
      if spinning then some ⟨icount - entry.icount, tcount - entry.tcount⟩ else none)

def commitNonSilentStore (s : SpinLoopDetector) : SpinLoopDetector :=
  { s with sdt := [], rub := [] }

def rubEntry (reg : Reg) (s : SpinLoopDetector) : Option RubEntry := s.rub.find? (·.reg = reg)

def commitRegisterWrite (reg : Reg) (oldValue value : Value) (s : SpinLoopDetector) :
    SpinLoopDetector :=
  match s.rubEntry reg with
  | none =>
    if value ≠ oldValue then { s with rub := ⟨reg, oldValue, s.sdtBitmask⟩ :: s.rub } else s
  | some entry =>
    if value = entry.oldValue then { s with rub := s.rub.filter (·.reg ≠ reg) }
    else if value ≠ oldValue then
      { s with rub := s.rub.map fun changed =>
          if changed.reg = reg then { changed with bits := changed.bits ||| s.sdtBitmask }
          else changed }
    else s

end SpinLoopDetector

/-! ## Runs -/

/-- What a `commitBCT` sees of the registers and of the stores so far. -/
structure Snapshot where
  registers : Reg → Value
  stores : ℕ

structure Spinner where
  detector : SpinLoopDetector
  registers : Reg → Value
  /-- The number of stores that were not silent. -/
  stores : ℕ
  /-- The last `commitBCT` of each loop. -/
  last : Eip → Option Snapshot

inductive Event where
  | bct (eip : Eip) (icount tcount : BitVec 64)
  | nonSilentStore
  | registerWrite (reg : Reg) (value : Value)

namespace Spinner

def start (registers : Reg → Value) : Spinner := ⟨.new, registers, 0, fun _ => none⟩

/-- The old value that the detector is told is the one that the register has. -/
def step (s : Spinner) : Event → Spinner
  | .bct eip icount tcount =>
    { s with
      detector := (s.detector.commitBCT eip icount tcount).1
      last := update s.last eip (some ⟨s.registers, s.stores⟩) }
  | .nonSilentStore =>
    { s with detector := s.detector.commitNonSilentStore, stores := s.stores + 1 }
  | .registerWrite reg value =>
    { s with
      detector := s.detector.commitRegisterWrite reg (s.registers reg) value
      registers := update s.registers reg value }

/-- A loop that is reported to spin has ended an iteration before, and since then there was no
store that is not silent and all registers are as they were. -/
def Right (s : Spinner) : Event → Prop
  | .bct eip icount tcount => (s.detector.commitBCT eip icount tcount).2.isSome →
    ∃ snapshot, s.last eip = some snapshot ∧ snapshot.stores = s.stores ∧
      snapshot.registers = s.registers
  | .nonSilentStore => True
  | .registerWrite _ _ => True

/-- A register that is written back to its old value in the buffer had this value at the end of the
last iteration of every loop in the table. -/
def Restores (s : Spinner) : Event → Prop
  | .bct _ _ _ => True
  | .nonSilentStore => True
  | .registerWrite reg value => (s.detector.rubEntry reg).map RubEntry.oldValue = some value →
    ∀ entry ∈ s.detector.sdt, (s.last entry.eip).map (·.registers reg) = some value

end Spinner

namespace SpinLoopDetector

lemma commitBCT_known {s : SpinLoopDetector} {eip : Eip} {entry : SdtEntry}
    (found : s.sdt.find? (·.eip = eip) = some entry) (icount tcount : BitVec 64) :
    s.commitBCT eip icount tcount = ({ s with
          rub := s.rub.map fun changed =>
            { changed with bits := changed.bits &&& ~~~bit entry.id }
          sdt := setCounts eip icount tcount s.sdt },
        if (s.rub.all fun changed => changed.bits &&& bit entry.id = 0) then
          some ⟨icount - entry.icount, tcount - entry.tcount⟩ else none) := by
  rw [commitBCT, found]

/-! ## The masks -/

lemma and_bit_eq_zero {mask : BitVec 16} {id : ℕ} (inside : id < sdtMaxSize) :
    mask &&& bit id = 0 ↔ mask.getLsbD id = false := by
  rw [bit, ← twoPow_eq, and_twoPow]
  cases mask.getLsbD id with
  | false => simp
  | true =>
    have nonzero : BitVec.twoPow 16 id ≠ 0#16 := by
      intro zero
      have first := congrArg (fun bits => bits.getLsbD id) zero
      simp [show id < 16 from inside] at first
    simpa using nonzero

lemma getLsbD_clear {mask : BitVec 16} {id other : ℕ} (different : other ≠ id) :
    (mask &&& ~~~bit id).getLsbD other = mask.getLsbD other := by
  rw [bit, ← twoPow_eq, getLsbD_and, getLsbD_not, getLsbD_twoPow]
  by_cases inside : other < 16
  · simp [inside, different.symm]
  · simp [getLsbD_of_ge mask other (Nat.le_of_not_lt inside)]

lemma getLsbD_bit {id : ℕ} (inside : id < sdtMaxSize) : (bit id).getLsbD id = true := by
  rw [bit, ← twoPow_eq, getLsbD_twoPow]
  simp [show id < 16 from inside]

lemma getLsbD_foldl_bit {sdt : List SdtEntry} {mask : BitVec 16} {id : ℕ}
    (inside : id < sdtMaxSize) (there : mask.getLsbD id = true ∨ ∃ entry ∈ sdt, entry.id = id) :
    (sdt.foldl (fun mask entry => mask ||| bit entry.id) mask).getLsbD id = true := by
  induction sdt generalizing mask with
  | nil =>
    rcases there with there | ⟨entry, ⟨⟩, -⟩
    exact there
  | cons first sdt ih =>
    refine ih ?_
    rw [getLsbD_or, Bool.or_eq_true]
    rcases there with there | ⟨entry, mem, rfl⟩
    · exact .inl (.inl there)
    · rcases mem_cons.mp mem with rfl | mem
      · exact .inl (.inr (getLsbD_bit inside))
      · exact .inr ⟨entry, mem, rfl⟩

lemma getLsbD_bitmask {sdt : List SdtEntry} {entry : SdtEntry} (mem : entry ∈ sdt)
    (inside : entry.id < sdtMaxSize) : (bitmask sdt).getLsbD entry.id = true :=
  getLsbD_foldl_bit inside (.inr ⟨entry, mem, rfl⟩)

/-! ## The buffer -/

def Tracks (rub : List RubEntry) (registers before : Reg → Value) (id : ℕ) : Prop :=
  ∀ reg, registers reg ≠ before reg →
    ∃ changed ∈ rub, changed.reg = reg ∧ changed.bits.getLsbD id = true

variable {s : SpinLoopDetector} {registers before : Reg → Value} {id : ℕ} {rub : List RubEntry}

lemma Tracks.refl : Tracks rub registers registers id := fun _ differs => absurd rfl differs

lemma Tracks.clear (tracks : Tracks rub registers before id) {other : ℕ} (different : id ≠ other) :
    Tracks (rub.map fun changed => { changed with bits := changed.bits &&& ~~~bit other })
      registers before id := by
  intro reg differs
  obtain ⟨changed, mem, same, marked⟩ := tracks reg differs
  refine ⟨_, mem_map_of_mem mem, same, ?_⟩
  rw [getLsbD_clear different]
  exact marked

lemma Tracks.registers_eq (tracks : Tracks rub registers before id) (inside : id < sdtMaxSize)
    (spinning : (rub.all fun changed => changed.bits &&& bit id = 0) = true) :
    before = registers := by
  funext reg
  by_contra differs
  obtain ⟨changed, mem, -, marked⟩ := tracks reg (Ne.symm differs)
  have unmarked := of_decide_eq_true (all_eq_true.mp spinning changed mem)
  rw [and_bit_eq_zero inside, marked] at unmarked
  cases unmarked

section Writes

variable {reg : Reg} {oldValue value : Value} {mask : BitVec 16}

section

variable (tracks : Tracks rub registers before id)

include tracks

lemma Tracks.add (masked : mask.getLsbD id = true) :
    Tracks (⟨reg, oldValue, mask⟩ :: rub) (update registers reg value) before id := by
  intro other differs
  by_cases same : other = reg
  · exact ⟨_, mem_cons_self, same.symm, masked⟩
  · rw [update_of_ne same] at differs
    obtain ⟨changed, mem, rest⟩ := tracks other differs
    exact ⟨changed, mem_cons_of_mem _ mem, rest⟩

lemma Tracks.mark (masked : mask.getLsbD id = true)
    {entry : RubEntry} (there : entry ∈ rub) (own : entry.reg = reg) :
    Tracks (rub.map fun changed =>
        if changed.reg = reg then { changed with bits := changed.bits ||| mask } else changed)
      (update registers reg value) before id := by
  intro other differs
  by_cases same : other = reg
  · refine ⟨_, mem_map_of_mem there, ?_, ?_⟩
    · rw [if_pos own]
      exact own.trans same.symm
    · rw [if_pos own, getLsbD_or, masked, Bool.or_true]
  · rw [update_of_ne same] at differs
    obtain ⟨changed, mem, owns, marked⟩ := tracks other differs
    have away : ¬ changed.reg = reg := fun here => same (owns.symm.trans here)
    refine ⟨_, mem_map_of_mem mem, ?_, ?_⟩
    · rw [if_neg away]
      exact owns
    · rw [if_neg away]
      exact marked

lemma Tracks.erase (restored : before reg = value) :
    Tracks (rub.filter (·.reg ≠ reg)) (update registers reg value) before id := by
  intro other differs
  by_cases same : other = reg
  · subst same
    rw [update_self] at differs
    exact absurd restored.symm differs
  · rw [update_of_ne same] at differs
    obtain ⟨changed, mem, owns, marked⟩ := tracks other differs
    refine ⟨changed, mem_filter.mpr ⟨mem, decide_eq_true ?_⟩, owns, marked⟩
    rw [owns]
    exact same

end

lemma Tracks.commitRegisterWrite (tracks : Tracks s.rub registers before id)
    (masked : s.sdtBitmask.getLsbD id = true)
    (restores : (s.rubEntry reg).map RubEntry.oldValue = some value → before reg = value) :
    Tracks (s.commitRegisterWrite reg (registers reg) value).rub
      (update registers reg value) before id := by
  have silent : value = registers reg → update registers reg value = registers := by
    rintro rfl
    exact update_eq_self reg registers
  rw [SpinLoopDetector.commitRegisterWrite]
  cases found : s.rubEntry reg with
  | none =>
    dsimp only
    split
    · exact tracks.add masked
    · rename_i same
      rw [silent (not_not.mp same)]
      exact tracks
  | some entry =>
    dsimp only
    split
    · rename_i old
      exact tracks.erase (restores (by rw [found, Option.map_some, old]))
    · split
      · have own : entry.reg = reg := by simpa using find?_some found
        exact tracks.mark masked (mem_of_find?_eq_some found) own
      · rename_i same
        rw [silent (not_not.mp same)]
        exact tracks

end Writes

/-! ## The table -/

abbrev Loop := Eip × ℕ

def loops (sdt : List SdtEntry) : List Loop := sdt.map fun entry => (entry.eip, entry.id)

lemma loops_setCounts (eip : Eip) (icount tcount : BitVec 64) (sdt : List SdtEntry) :
    loops (setCounts eip icount tcount sdt) = loops sdt := by
  induction sdt with
  | nil => rfl
  | cons entry sdt ih =>
    rw [setCounts]
    split
    · rfl
    · exact congrArg (_ :: ·) ih

structure Numbered (next : ℕ) (loops : List Loop) : Prop where
  next_lt : next < sdtMaxSize
  room : loops.length ≤ sdtMaxSize
  number : ∀ k loop, loops[k]? = some loop →
    loop.2 = (next + sdtMaxSize - loops.length + k) % sdtMaxSize

lemma Numbered.lt {next : ℕ} {loops : List Loop} (numbered : Numbered next loops) {loop : Loop}
    (mem : loop ∈ loops) : loop.2 < sdtMaxSize := by
  obtain ⟨k, there⟩ := mem_iff_getElem?.mp mem
  rw [numbered.number k loop there]
  exact Nat.mod_lt _ (by decide)

lemma Numbered.inj {next : ℕ} {loops : List Loop} (numbered : Numbered next loops)
    {loop loop' : Loop} (mem : loop ∈ loops) (mem' : loop' ∈ loops) (same : loop.2 = loop'.2) :
    loop = loop' := by
  obtain ⟨k, there⟩ := mem_iff_getElem?.mp mem
  obtain ⟨k', there'⟩ := mem_iff_getElem?.mp mem'
  have low := (List.getElem?_eq_some_iff.mp there).1
  have low' := (List.getElem?_eq_some_iff.mp there').1
  have room := numbered.room
  rw [numbered.number k loop there, numbered.number k' loop' there'] at same
  have index : k = k' := by
    rw [sdtMaxSize] at same room
    omega
  subst index
  exact Option.some.inj (there.symm.trans there')

lemma Numbered.append {next : ℕ} {loops : List Loop} (numbered : Numbered next loops) (eip : Eip)
    {k : ℕ} {loop : Loop} (there : (loops ++ [(eip, next)])[k]? = some loop) :
    loop.2 = ((next + 1) % sdtMaxSize + 2 * sdtMaxSize - (loops.length + 1) + k) % sdtMaxSize := by
  have next_lt := numbered.next_lt
  have room := numbered.room
  rw [sdtMaxSize] at next_lt room ⊢
  rw [getElem?_append] at there
  split at there
  · rw [numbered.number k loop there, sdtMaxSize]
    omega
  · rename_i outside
    have last : k = loops.length := by
      have inside := (List.getElem?_eq_some_iff.mp there).1
      rw [length_singleton] at inside
      omega
    rw [last, Nat.sub_self] at there
    have this : (eip, next) = loop := Option.some.inj there
    rw [← this]
    omega

lemma Numbered.push {next : ℕ} {loops : List Loop} (numbered : Numbered next loops) (eip : Eip) :
    Numbered ((next + 1) % sdtMaxSize)
      (if sdtMaxSize < (loops ++ [(eip, next)]).length then (loops ++ [(eip, next)]).tail
        else loops ++ [(eip, next)]) := by
  have next_lt : (next + 1) % sdtMaxSize < sdtMaxSize := Nat.mod_lt _ (by decide)
  have room := numbered.room
  have length : (loops ++ [(eip, next)]).length = loops.length + 1 := by simp
  split
  · rename_i full
    have length' : (loops ++ [(eip, next)]).tail.length = loops.length := by simp
    refine ⟨next_lt, by omega, fun k loop there => ?_⟩
    rw [getElem?_tail] at there
    rw [numbered.append eip there, length']
    rw [sdtMaxSize] at *
    omega
  · refine ⟨next_lt, by omega, fun k loop there => ?_⟩
    rw [numbered.append eip there, length]
    rw [sdtMaxSize] at *
    omega

lemma loops_addLoop (eip : Eip) (icount tcount : BitVec 64) (s : SpinLoopDetector) :
    loops (s.addLoop eip icount tcount).sdt =
      if sdtMaxSize < (loops s.sdt ++ [(eip, s.sdtNextid)]).length then
        (loops s.sdt ++ [(eip, s.sdtNextid)]).tail else loops s.sdt ++ [(eip, s.sdtNextid)] := by
  have mapped : loops (s.sdt ++ [⟨eip, s.sdtNextid, icount, tcount⟩]) =
      loops s.sdt ++ [(eip, s.sdtNextid)] := map_append
  have length := congrArg List.length mapped
  rw [loops, length_map] at length
  rw [← length, ← mapped, addLoop]
  split
  · exact map_tail ..
  · rfl

lemma mem_loops_addLoop {eip : Eip} {icount tcount : BitVec 64} {loop : Loop}
    (mem : loop ∈ loops (s.addLoop eip icount tcount).sdt) :
    loop ∈ loops s.sdt ∨ loop = (eip, s.sdtNextid) := by
  rw [loops_addLoop] at mem
  have mem' : loop ∈ loops s.sdt ++ [(eip, s.sdtNextid)] := by
    split at mem
    · exact mem_of_mem_tail mem
    · exact mem
  rcases mem_append.mp mem' with old | new
  · exact .inl old
  · exact .inr (mem_singleton.mp new)

end SpinLoopDetector

/-! ## What every event keeps -/

namespace Spinner

open SpinLoopDetector

/-- The table and the buffer, against the history of the thread. -/
structure Sound (s : Spinner) : Prop where
  numbered : Numbered s.detector.sdtNextid (loops s.detector.sdt)
  masked : ∀ loop ∈ loops s.detector.sdt, s.detector.sdtBitmask.getLsbD loop.2 = true
  tracked : ∀ loop ∈ loops s.detector.sdt, ∃ snapshot, s.last loop.1 = some snapshot ∧
    snapshot.stores = s.stores ∧
      Tracks s.detector.rub s.registers snapshot.registers loop.2

lemma Sound.start (registers : Reg → Value) : Sound (start registers) where
  numbered := ⟨Nat.zero_lt_succ 15, Nat.zero_le _, by rintro k loop ⟨⟩⟩
  masked := by rintro loop ⟨⟩
  tracked := by rintro loop ⟨⟩

variable {s : Spinner}

lemma Sound.nonSilentStore (sound : Sound s) : Sound (s.step .nonSilentStore) where
  numbered := ⟨sound.numbered.next_lt, Nat.zero_le _, by rintro k loop ⟨⟩⟩
  masked := by rintro loop ⟨⟩
  tracked := by rintro loop ⟨⟩

lemma commitRegisterWrite_same (s : SpinLoopDetector) (reg : Reg) (oldValue value : Value) :
    (s.commitRegisterWrite reg oldValue value).sdt = s.sdt ∧
      (s.commitRegisterWrite reg oldValue value).sdtBitmask = s.sdtBitmask ∧
      (s.commitRegisterWrite reg oldValue value).sdtNextid = s.sdtNextid := by
  rw [SpinLoopDetector.commitRegisterWrite]
  split
  · split
    · exact ⟨rfl, rfl, rfl⟩
    · exact ⟨rfl, rfl, rfl⟩
  · split
    · exact ⟨rfl, rfl, rfl⟩
    · split
      · exact ⟨rfl, rfl, rfl⟩
      · exact ⟨rfl, rfl, rfl⟩

lemma Sound.registerWrite (sound : Sound s) {reg : Reg} {value : Value}
    (restores : Restores s (.registerWrite reg value)) :
    Sound (s.step (.registerWrite reg value)) := by
  obtain ⟨sdt, mask, next⟩ := commitRegisterWrite_same s.detector reg (s.registers reg) value
  refine ⟨?_, ?_, ?_⟩
  · rw [step, sdt, next]
    exact sound.numbered
  · rw [step, sdt, mask]
    exact sound.masked
  · rw [step, sdt]
    intro loop mem
    obtain ⟨snapshot, last, stores, tracks⟩ := sound.tracked loop mem
    refine ⟨snapshot, last, stores, tracks.commitRegisterWrite (sound.masked loop mem) ?_⟩
    intro old
    obtain ⟨entry, there, rfl⟩ := mem_map.mp mem
    have same := restores old entry there
    rw [last] at same
    exact Option.some.inj same

variable {eip : Eip} {icount tcount : BitVec 64}

lemma not_mem_of_find?_eq_none {sdt : List SdtEntry} (unknown : sdt.find? (·.eip = eip) = none)
    {loop : Loop} (mem : loop ∈ loops sdt) : loop.1 ≠ eip := by
  obtain ⟨entry, there, rfl⟩ := mem_map.mp mem
  simpa using find?_eq_none.mp unknown entry there

lemma Sound.addLoop (sound : Sound s) (unknown : s.detector.sdt.find? (·.eip = eip) = none) :
    Sound (s.step (.bct eip icount tcount)) := by
  have after : (s.step (.bct eip icount tcount)).detector =
      s.detector.addLoop eip icount tcount := by
    rw [step, commitBCT, unknown]
  have numbered : Numbered (s.detector.addLoop eip icount tcount).sdtNextid
      (loops (s.detector.addLoop eip icount tcount).sdt) := by
    rw [loops_addLoop]
    exact sound.numbered.push eip
  refine ⟨after ▸ numbered, ?_, ?_⟩
  · rw [after]
    intro loop mem
    have inside := numbered.lt mem
    obtain ⟨entry, there, rfl⟩ := mem_map.mp mem
    exact getLsbD_bitmask there inside
  · rw [after]
    intro loop mem
    rcases mem_loops_addLoop mem with old | rfl
    · obtain ⟨snapshot, last, stores, tracks⟩ := sound.tracked loop old
      have other : loop.1 ≠ eip := not_mem_of_find?_eq_none unknown old
      exact ⟨snapshot, (update_of_ne other _ _).trans last, stores, tracks⟩
    · exact ⟨⟨s.registers, s.stores⟩, update_self .., rfl, Tracks.refl⟩

lemma Sound.endIteration (sound : Sound s) {entry : SdtEntry}
    (found : s.detector.sdt.find? (·.eip = eip) = some entry) :
    Sound (s.step (.bct eip icount tcount)) := by
  have own : entry.eip = eip := by simpa using find?_some found
  have there : (entry.eip, entry.id) ∈ loops s.detector.sdt :=
    mem_map_of_mem (mem_of_find?_eq_some found)
  have after : (s.step (.bct eip icount tcount)).detector = { s.detector with
        rub := s.detector.rub.map fun changed =>
          { changed with bits := changed.bits &&& ~~~bit entry.id }
        sdt := setCounts eip icount tcount s.detector.sdt } := by
    rw [step, commitBCT_known found]
  refine ⟨?_, ?_, ?_⟩
  · rw [after, loops_setCounts]
    exact sound.numbered
  · rw [after, loops_setCounts]
    exact sound.masked
  · rw [after, loops_setCounts]
    intro loop mem
    by_cases same : loop.1 = eip
    · rw [same]
      exact ⟨⟨s.registers, s.stores⟩, update_self .., rfl, Tracks.refl⟩
    · -- the mark that is taken away is not this loop's
      have different : loop.2 ≠ entry.id := by
        intro number
        have equal : loop = (entry.eip, entry.id) := sound.numbered.inj mem there number
        exact same ((congrArg Prod.fst equal).trans own)
      obtain ⟨snapshot, last, stores, tracks⟩ := sound.tracked loop mem
      exact ⟨snapshot, (update_of_ne same _ _).trans last, stores, tracks.clear different⟩

lemma Sound.step (sound : Sound s) {event : Event} (restores : Restores s event) :
    Sound (s.step event) := by
  cases event with
  | bct eip icount tcount =>
    cases found : s.detector.sdt.find? (·.eip = eip) with
    | none => exact sound.addLoop found
    | some entry => exact sound.endIteration found
  | nonSilentStore => exact sound.nonSilentStore
  | registerWrite reg value => exact sound.registerWrite restores

lemma Sound.right (sound : Sound s) (event : Event) : Right s event := by
  cases event with
  | bct eip icount tcount =>
    intro reported
    cases found : s.detector.sdt.find? (·.eip = eip) with
    | none =>
      rw [commitBCT, found] at reported
      cases reported
    | some entry =>
      rw [commitBCT_known found] at reported
      have own : entry.eip = eip := by simpa using find?_some found
      have there : (entry.eip, entry.id) ∈ loops s.detector.sdt :=
        mem_map_of_mem (mem_of_find?_eq_some found)
      obtain ⟨snapshot, last, stores, tracks⟩ := sound.tracked _ there
      refine ⟨snapshot, own ▸ last, stores, ?_⟩
      refine tracks.registers_eq (sound.numbered.lt there) ?_
      by_contra not
      rw [if_neg not] at reported
      cases reported
  | nonSilentStore => trivial
  | registerWrite reg value => trivial

/-- In every run where a register that is written back to its old value in the buffer is restored
for all loops in the table, every loop that is reported to spin does. -/
theorem reports_right (registers : Reg → Value) (events : List Event)
    (restores : Guarded step Restores (start registers) events) :
    Guarded step Right (start registers) events :=
  Guarded.imp (I := Sound) (fun _ _ sound restores => sound.step restores)
    (fun _ event sound _ => sound.right event) restores (Sound.start registers)

def spins : List Event :=
  [.bct 64 0 0, .registerWrite 1 5, .registerWrite 1 0, .bct 64 3 30]

theorem reports_right_spins : Guarded step Right (start fun _ => 0) spins ∧
    ((run step (start fun _ => 0) (spins.take 3)).detector.commitBCT 64 3 30).2 =
      some ⟨3, 30⟩ := by
  refine ⟨reports_right (fun _ => 0) spins ⟨trivial, ?_, fun _ => ?_, trivial, trivial⟩, by decide⟩
  · rintro ⟨⟩
  · decide

def alternates : List Event :=
  [.bct 64 0 0, .registerWrite 1 5, .bct 64 2 20, .registerWrite 1 0]

/-- The next iteration is reported to spin, and the register is not as it was. -/
theorem alternates_reported :
    ((run step (start fun _ => 0) alternates).detector.commitBCT 64 4 40).2.isSome ∧
      (run step (start fun _ => 0) alternates).registers 1 = 0 ∧
      ((run step (start fun _ => 0) alternates).last 64).map (·.registers 1) = some 5 := by
  decide

end Spinner

end Sniper.Misc
