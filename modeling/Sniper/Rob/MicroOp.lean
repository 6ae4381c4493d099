import Mathlib.Data.List.Sort

/-!
# Micro-operations

An instruction is decoded into load, execute and store uops. A dynamic uop is one
execution of a uop: its address, its latencies, and the uops of the window it still
waits for, which two trackers find, one for registers and one for memory. The timer
reads no other part of a uop.
-/

namespace Sniper.Rob

/-- `xed_reg_enum_t`; `XED_REG_INVALID` is 0. -/
abbrev Reg := ℕ

/-- `MicroOp::uop_type_t`; no uop that was made keeps `UOP_INVALID`. -/
inductive UopType where
  | load
  | execute
  | store
  deriving DecidableEq, Repr

structure MicroOp where
  type : UopType
  microOpTypeOffset : ℕ
  intraInstructionDependencies : ℕ
  sourceRegisters : List Reg
  addressRegisters : List Reg
  destinationRegisters : List Reg
  branch : Bool
  memBarrier : Bool
  serializing : Bool
  deriving DecidableEq, Repr

namespace MicroOp

def isLoad (uop : MicroOp) : Bool := uop.type = .load

def isStore (uop : MicroOp) : Bool := uop.type = .store

def blank (type : UopType) (offset dependencies : ℕ) (branch : Bool) : MicroOp where
  type := type
  microOpTypeOffset := offset
  intraInstructionDependencies := dependencies
  sourceRegisters := []
  addressRegisters := []
  destinationRegisters := []
  branch := branch
  memBarrier := false
  serializing := false

def makeLoad (offset : ℕ) : MicroOp := blank .load offset 0 false

def makeExecute (offset numLoads : ℕ) (isBranch : Bool) : MicroOp :=
  blank .execute offset numLoads isBranch

def makeStore (offset numExecute : ℕ) : MicroOp := blank .store offset numExecute false

end MicroOp

/-! ## Decoding -/

inductive IClass where
  | mfence | lfence | sfence
  | push | pop
  | movlps | movlpd | movhps | movhpd | movsdXmm | movss
  | shufps | shufpd | blendps | blendpd | extractps | insertps
  | roundss | roundps | roundsd | roundpd
  | jmpFar | callFar | retFar | iret | cpuid | lgdt | lidt | lldt | ltr | lmsw
  | wbinvd | invd | invlpg | rsm | wrmsr | sysenter | sysret
  | other
  deriving DecidableEq, Repr

inductive Category where
  | dataxfer
  | cmov
  | condBr
  | other
  deriving DecidableEq, Repr

structure MemOperand where
  base : Reg
  index : Reg
  read : Bool
  written : Bool

inductive Operand where
  | agen
  | register (reg : Reg) (read written : Bool)
  | other

structure XedInst where
  iclass : IClass
  category : Category
  nop : Bool
  atomic : Bool
  memory : List MemOperand
  operands : List Operand

structure Xed where
  largestEnclosingRegister : Reg → Reg
  eip : Reg
  rip : Reg

/-- Insertion into a `std::set<xed_reg_enum_t>`. -/
def insertReg (reg : Reg) (regs : List Reg) : List Reg :=
  if reg ∈ regs then regs else regs.orderedInsert (· ≤ ·) reg

/-- The registers `addSrcs`, `addAddrs` and `addDsts` add for a set. -/
def Xed.enclosing (xed : Xed) (regs : List Reg) : List Reg :=
  ((regs.filter (· ≠ 0)).map xed.largestEnclosingRegister).filter
    fun reg => reg ≠ xed.eip ∧ reg ≠ xed.rip

namespace XedInst

variable (ins : XedInst)

def memOperands : List MemOperand := if ins.nop then [] else ins.memory

def regsOf (operand : MemOperand) : List Reg := insertReg operand.index (insertReg operand.base [])

def regsLoads : List (List Reg) := (ins.memOperands.filter (·.read)).map regsOf

def regsStores : List (List Reg) :=
  (ins.memOperands.filter (·.written)).map regsOf

def regsMem : List Reg :=
  ins.memOperands.foldl (fun regs operand => (regsOf operand).foldr insertReg regs) []

def regsSrc : List Reg :=
  ins.operands.foldl (fun regs operand => match operand with
    | .agen => ins.regsMem.foldr insertReg regs
    | .register reg read _ => if read ∧ reg ∉ ins.regsMem then insertReg reg regs else regs
    | .other => regs) []

def regsDst : List Reg :=
  ins.operands.foldl (fun regs operand => match operand with
    | .register reg _ true => insertReg reg regs
    | _ => regs) []

def getNumExecs (numLoads numStores : ℕ) : ℕ :=
  if ins.category = .dataxfer ∨ ins.category = .cmov ∨ ins.iclass = .push ∨ ins.iclass = .pop then
    (if ins.iclass ∈ [.movlps, .movlpd, .movhps, .movhpd, .shufps, .shufpd, .blendps, .blendpd,
        .extractps, .roundss, .roundps, .roundsd, .roundpd] then 1
      else if ins.iclass = .insertps then 2
      else 0) +
    (if numLoads + numStores = 0 then 1 else 0)
  else 1

def isFence : Bool := ins.iclass ∈ [.mfence, .lfence, .sfence]

def isSerializing : Bool :=
  ins.iclass ∈ [.jmpFar, .callFar, .retFar, .iret, .cpuid, .lgdt, .lidt, .lldt, .ltr, .lmsw,
    .wbinvd, .invd, .invlpg, .rsm, .wrmsr, .sysenter, .sysret]

def mergesDst : Bool :=
  ins.iclass ∈ [.movhpd, .movhps, .movlpd, .movlps, .movsdXmm, .movss]

variable (xed : Xed) (ins : XedInst)

def decodeLoad (numExecs numStores loadIndex : ℕ) (regs : List Reg) : MicroOp :=
  { MicroOp.makeLoad loadIndex with
    sourceRegisters := xed.enclosing regs ++
      (if numExecs = 0 then xed.enclosing ins.regsSrc else [])
    addressRegisters := xed.enclosing regs
    destinationRegisters :=
      if numExecs = 0 ∧ numStores = 0 then xed.enclosing ins.regsDst else [] }

def decodeExec (numLoads execIndex : ℕ) : MicroOp :=
  { MicroOp.makeExecute execIndex numLoads (ins.category = .condBr) with
    sourceRegisters := xed.enclosing ins.regsSrc ++
      (if ins.mergesDst then xed.enclosing ins.regsDst else [])
    destinationRegisters := xed.enclosing ins.regsDst
    memBarrier := ins.isFence }

def decodeStore (numLoads numExecs storeIndex : ℕ) (regs : List Reg) : MicroOp :=
  { MicroOp.makeStore storeIndex numExecs with
    sourceRegisters := xed.enclosing regs ++
      (if numExecs = 0 ∧ numLoads = 0 then xed.enclosing ins.regsSrc else [])
    addressRegisters := xed.enclosing regs
    destinationRegisters := if numExecs = 0 then xed.enclosing ins.regsDst else []
    memBarrier := ins.atomic }

/-- `InstructionDecoder::decode`. More than one execute uop fails an assertion. -/
def decode : Option (List MicroOp) :=
  let numLoads := ins.regsLoads.length
  let numStores := ins.regsStores.length
  let numExecs := ins.getNumExecs numLoads numStores
  if 1 < numExecs then none
  else
    let uops := ins.regsLoads.mapIdx (decodeLoad xed ins numExecs numStores) ++
      (List.range numExecs).map (decodeExec xed ins numLoads) ++
      ins.regsStores.mapIdx (decodeStore xed ins numLoads numExecs)
    some (uops.mapIdx fun index uop =>
      if index + 1 = uops.length then { uop with serializing := ins.isSerializing }
      else uop)

end XedInst

/-! ## Dynamic uops -/

structure DynamicMicroOp where
  microOp : MicroOp
  sequenceNumber : ℕ
  address : ℕ
  squashed : Bool
  microOpTypeOffset : ℕ
  intraInstructionDependencies : ℕ
  /-- The intra-instruction dependencies that are left, as sequence numbers. -/
  intra : List ℕ
  dependencies : List ℕ
  execLatency : ℕ
  branchMispredicted : Bool
  /-- `dCacheHitWhere` is not `HitWhere::UNKNOWN`: the access was made before the uop came. -/
  dCacheKnown : Bool
  /-- `iCacheHitWhere` is not `HitWhere::L1I`. -/
  iCacheMiss : Bool
  iCacheLatency : ℕ
  deriving DecidableEq, Repr

namespace DynamicMicroOp

def ofMicroOp (uop : MicroOp) (address execLatency : ℕ) : DynamicMicroOp where
  microOp := uop
  sequenceNumber := 0
  address := address
  squashed := false
  microOpTypeOffset := uop.microOpTypeOffset
  intraInstructionDependencies := uop.intraInstructionDependencies
  intra := []
  dependencies := []
  execLatency := execLatency
  branchMispredicted := false
  dCacheKnown := true
  iCacheMiss := false
  iCacheLatency := 0

variable (uop : DynamicMicroOp)

def isLoad : Bool := uop.microOp.isLoad

def isStore : Bool := uop.microOp.isStore

def isMemBarrier : Bool := uop.microOp.memBarrier

def isSerializing : Bool := uop.microOp.serializing

def isMispredictedBranch : Bool :=
  uop.microOp.branch && uop.branchMispredicted

/-- All that `getDependency` enumerates. -/
def getDependencies : List ℕ := uop.intra ++ uop.dependencies

def addDependency (sequenceNumber : ℕ) : DynamicMicroOp :=
  if sequenceNumber ∈ uop.dependencies then uop
  else { uop with dependencies := uop.dependencies ++ [sequenceNumber] }

def removeDependency (sequenceNumber : ℕ) : DynamicMicroOp :=
  if sequenceNumber ∈ uop.intra then { uop with intra := uop.intra.erase sequenceNumber }
  else { uop with dependencies := uop.dependencies.erase sequenceNumber }

/-- The uop under the number the timer gives it. A number before the first uop would wrap
and be found nowhere in the window. -/
def numbered (sequenceNumber : ℕ) : Option DynamicMicroOp :=
  if uop.intraInstructionDependencies ≠ 0 ∧
      sequenceNumber < uop.microOpTypeOffset + uop.intraInstructionDependencies then none
  else some { uop with
    sequenceNumber := sequenceNumber
    intra := (List.range uop.intraInstructionDependencies).map
      (sequenceNumber - uop.microOpTypeOffset - uop.intraInstructionDependencies + ·)
    dependencies := [] }

end DynamicMicroOp

/-! ## The trackers -/

/-- `RegisterDependencies`: the last uop of the window that writes each register. -/
structure RegisterDependencies where
  producers : Reg → Option ℕ

namespace RegisterDependencies

def clear : RegisterDependencies := ⟨fun _ => none⟩

def setSource (lowestValidSequenceNumber : ℕ) (state : RegisterDependencies × DynamicMicroOp)
    (reg : Reg) : RegisterDependencies × DynamicMicroOp :=
  match state.1.producers reg with
  | none => state
  | some producer =>
    if lowestValidSequenceNumber ≤ producer then (state.1, state.2.addDependency producer)
    else (⟨Function.update state.1.producers reg none⟩, state.2)

def setDependencies (regs : RegisterDependencies) (uop : DynamicMicroOp)
    (lowestValidSequenceNumber : ℕ) : RegisterDependencies × DynamicMicroOp :=
  let (regs, uop) :=
    uop.microOp.sourceRegisters.foldl (setSource lowestValidSequenceNumber) (regs, uop)
  (uop.microOp.destinationRegisters.foldl
    (fun regs reg => ⟨Function.update regs.producers reg (some uop.sequenceNumber)⟩) regs, uop)

def peekProducer (regs : RegisterDependencies) (reg : Reg) (lowestValidSequenceNumber : ℕ) :
    Option ℕ :=
  if reg = 0 then none
  else (regs.producers reg).filter (lowestValidSequenceNumber ≤ ·)

end RegisterDependencies

structure Producer where
  seqnr : ℕ
  address : ℕ
  deriving DecidableEq, Repr

/-- `MemoryDependencies`: the stores of the window, oldest first, and the last barrier that
is neither a load nor a store. -/
structure MemoryDependencies where
  producers : List Producer
  membar : Option ℕ
  deriving DecidableEq, Repr

namespace MemoryDependencies

def clear : MemoryDependencies := ⟨[], none⟩

variable (mem : MemoryDependencies)

def add (sequenceNumber address : ℕ) : MemoryDependencies :=
  { mem with producers := mem.producers ++ [⟨sequenceNumber, address⟩] }

def find (address : ℕ) : Option ℕ :=
  (mem.producers.reverse.find? (·.address = address)).map (·.seqnr)

def clean (lowestValidSequenceNumber : ℕ) : MemoryDependencies :=
  { mem with producers := mem.producers.dropWhile (·.seqnr < lowestValidSequenceNumber) }

def addMembar (uop : DynamicMicroOp) (lowestValidSequenceNumber : ℕ) : DynamicMicroOp :=
  match mem.membar with
  | some membar =>
    if lowestValidSequenceNumber < membar then uop.addDependency membar else uop
  | none => uop

/-- A barrier that is a load or a store takes the branch of loads or stores: it does not
become `membar`. -/
def setDependencies (uop : DynamicMicroOp)
    (lowestValidSequenceNumber : ℕ) : MemoryDependencies × DynamicMicroOp :=
  let mem := mem.clean lowestValidSequenceNumber
  if uop.isLoad then
    let uop := match mem.find uop.address with
      | some producer => uop.addDependency producer
      | none => uop
    (mem, mem.addMembar uop lowestValidSequenceNumber)
  else if uop.isStore then
    (mem.add uop.sequenceNumber uop.address, mem.addMembar uop lowestValidSequenceNumber)
  else if uop.isMemBarrier then
    ({ mem with membar := some uop.sequenceNumber }, mem.addMembar uop lowestValidSequenceNumber)
  else (mem, uop)

end MemoryDependencies

end Sniper.Rob
