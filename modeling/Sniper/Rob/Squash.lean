import Sniper.Lib.Fallible
import Sniper.Lib.Selection
import Sniper.Rob.MicroOp

/-!
# Squashing the uops of an instruction

A gather or a scatter has a uop for each of its addresses. `handleInstruction` squashes those that
touch a cache line a second time, and `doSquashing` then corrects what the others say about their
places: how far they are into the uops of their type, and on how many uops before those they depend.

Modelled is the part of `handleInstruction` that makes the uops, without what a branch adds to its
execute uop.
-/

namespace Sniper.Rob.Squashing

open Fallible Survivors

inductive Direction where
  | read
  | write
  deriving DecidableEq, Repr

/-- A memory operand with its `MemoryInfo`; the latency is in cycles. -/
structure MemoryInfo where
  direction : Direction
  address : ℕ
  latency : ℕ
  /-- `hit_where` is not `HitWhere::UNKNOWN`. -/
  known : Bool
  deriving DecidableEq, Repr

def MemoryInfo.cacheLine (info : MemoryInfo) : ℕ := info.address / 64 * 64

structure CoreModel where
  instructionLatency : MicroOp → ℕ
  bypassLatency : MicroOp → ℕ

structure Fetch where
  iCacheMiss : Bool
  iCacheLatency : ℕ

inductive Fault where
  /-- "Read operand count mismatch", or the same for a write. -/
  | operandMismatch
  /-- There are fewer uops, or this one has another type. -/
  | unexpectedUop
  /-- "intraInstructionDependancies should be <=". -/
  | dependencies
  /-- A uop had no operand. -/
  | uncovered
  deriving DecidableEq, Repr

/-- An element of `m_current_uops`, with what only squashing looks at. -/
structure CurrentUop where
  uop : DynamicMicroOp
  squashedCount : ℕ
  first : Bool
  last : Bool
  deriving DecidableEq, Repr

namespace CurrentUop

variable (current : CurrentUop)

def type : UopType := current.uop.microOp.type

def alive : Bool := !current.uop.squashed

/-- `createDynamicMicroOp`. The decoder marks the first and the last uop. -/
def create (core : CoreModel) (fetch : Fetch) (numUops index : ℕ) (uop : MicroOp) : CurrentUop where
  uop := { DynamicMicroOp.ofMicroOp uop 0 (core.instructionLatency uop) with
    dCacheKnown := false
    iCacheMiss := index = 0 && fetch.iCacheMiss
    iCacheLatency := if index = 0 then fetch.iCacheLatency else 0 }
  squashedCount := 0
  first := index = 0
  last := index + 1 = numUops

def setSquashed : CurrentUop :=
  { current with uop := { current.uop with squashed := true } }

def setFirst : CurrentUop := { current with first := true }

def setLast : CurrentUop := { current with last := true }

def setAccess (core : CoreModel) (info : MemoryInfo) (current : CurrentUop) : CurrentUop :=
  { current with uop := { current.uop with
    execLatency := info.latency + core.bypassLatency current.uop.microOp
    address := info.address
    dCacheKnown := info.known } }

lemma alive_setFirst : current.setFirst.alive = current.alive := rfl

lemma alive_setLast : current.setLast.alive = current.alive := rfl

lemma alive_setSquashed : current.setSquashed.alive = false := rfl

lemma alive_setAccess (core : CoreModel) (info : MemoryInfo) (current : CurrentUop) :
    (current.setAccess core info).alive = current.alive := rfl

lemma first_setLast : current.setLast.first = current.first := rfl

lemma last_setFirst : current.setFirst.last = current.last := rfl

end CurrentUop

/-- `DynamicMicroOp::squash`: the marks go to the first and the last uop that is left. -/
def squash (index : ℕ) (uops : List CurrentUop) : List CurrentUop :=
  mapLast CurrentUop.alive CurrentUop.setLast
    (mapFirst CurrentUop.alive CurrentUop.setFirst (uops.modify index CurrentUop.setSquashed))

/-! ## `doSquashing` -/

def countSquashed : Option UopType → ℕ → ℕ → List CurrentUop → List CurrentUop
  | _, _, _, [] => []
  | type, squashedCount, offset, current :: uops =>
    if current.uop.squashed then
      { current with squashedCount := squashedCount + 1 } ::
        countSquashed type (squashedCount + 1) offset uops
    else
      let offset := if type = some current.type then offset else 0
      { current with
        uop := { current.uop with microOpTypeOffset := offset }
        squashedCount := squashedCount } ::
        countSquashed (some current.type) squashedCount (offset + 1) uops

variable (uops : List CurrentUop)

def squashedCountAt (index : ℕ) : ℕ :=
  (uops[index]?).elim 0 CurrentUop.squashedCount

def recount (index : ℕ) (current : CurrentUop) : Except Fault CurrentUop :=
  let intraDeps := current.uop.intraInstructionDependencies
  if current.uop.squashed ∨ intraDeps = 0 then .ok current
  else if index < current.uop.microOp.microOpTypeOffset + intraDeps then .error .dependencies
  else
    let iBase := index - current.uop.microOp.microOpTypeOffset
    .ok { current with uop := { current.uop with
      intraInstructionDependencies :=
        intraDeps - (squashedCountAt uops iBase - squashedCountAt uops (iBase - intraDeps)) } }

def recountFrom (uops : List CurrentUop) : ℕ → List CurrentUop → Except Fault (List CurrentUop)
  | _, [] => .ok []
  | index, current :: rest =>
    (recount uops index current).bind fun current =>
      (recountFrom uops (index + 1) rest).map (current :: ·)

def doSquashing : Except Fault (List CurrentUop) :=
  let uops := countSquashed none 0 0 uops
  recountFrom uops 0 uops

/-! ## The operands -/

structure Progress where
  uops : List CurrentUop
  cacheLinesRead : List ℕ
  cacheLinesWritten : List ℕ
  numReadsDone : ℕ
  numWritesDone : ℕ
  doSquashing : Bool

/-- The uop of an operand, by the type of the uop, the first uop of the type, and how many operands
of this direction came before. It is squashed if its line is among these. -/
def touch (core : CoreModel) (type : UopType) (base : Option ℕ) (done : ℕ) (lines : List ℕ)
    (info : MemoryInfo) (uops : List CurrentUop) : Except Fault (List CurrentUop) :=
  match base with
  | none => .error .operandMismatch
  | some base =>
    if (uops[base + done]?).map CurrentUop.type = some type then
      let uops := if info.cacheLine ∈ lines then squash (base + done) uops else uops
      .ok (uops.modify (base + done) (CurrentUop.setAccess core info))
    else .error .unexpectedUop

def operand (core : CoreModel) (loadBase storeBase : Option ℕ) (progress : Progress)
    (info : MemoryInfo) : Except Fault Progress :=
  match info.direction with
  | .read =>
    (touch core .load loadBase progress.numReadsDone progress.cacheLinesRead info
      progress.uops).map fun uops =>
        { progress with
          uops := uops
          cacheLinesRead := progress.cacheLinesRead ++ [info.cacheLine]
          numReadsDone := progress.numReadsDone + 1
          doSquashing := progress.doSquashing || info.cacheLine ∈ progress.cacheLinesRead }
  | .write =>
    (touch core .store storeBase progress.numWritesDone progress.cacheLinesWritten info
      progress.uops).map fun uops =>
        { progress with
          uops := uops
          cacheLinesWritten := progress.cacheLinesWritten ++ [info.cacheLine]
          numWritesDone := progress.numWritesDone + 1
          doSquashing := progress.doSquashing || info.cacheLine ∈ progress.cacheLinesWritten }

def operands (core : CoreModel) (loadBase storeBase : Option ℕ) :
    List MemoryInfo → Progress → Except Fault Progress
  | [], progress => .ok progress
  | info :: infos, progress =>
    (operand core loadBase storeBase progress info).bind (operands core loadBase storeBase infos)

/-- The uops that `handleInstruction` passes to the timer. -/
def handleInstruction (core : CoreModel) (fetch : Fetch) (uops : List MicroOp)
    (infos : List MemoryInfo) : Except Fault (List CurrentUop) :=
  let created := uops.mapIdx (CurrentUop.create core fetch uops.length)
  (operands core (uops.findIdx? MicroOp.isLoad) (uops.findIdx? MicroOp.isStore) infos
    ⟨created, [], [], 0, 0, false⟩).bind fun progress =>
      (if progress.doSquashing then doSquashing progress.uops else .ok progress.uops).bind
        fun current =>
          if progress.numReadsDone = uops.countP MicroOp.isLoad ∧
              progress.numWritesDone = uops.countP MicroOp.isStore then .ok current
          else .error .uncovered

/-- The uops that are left get the next numbers, one after the other. -/
def number : ℕ → List CurrentUop → Option (List DynamicMicroOp)
  | _, [] => some []
  | sequenceNumber, current :: rest =>
    (current.uop.numbered sequenceNumber).bind fun uop =>
      (number (sequenceNumber + 1) rest).map (uop :: ·)

end Sniper.Rob.Squashing
