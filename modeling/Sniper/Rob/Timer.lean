import Sniper.PerformanceModel.ContentionModel
import Sniper.Rob.MicroOp

/-!
# The reorder buffer timer

`RobTimer` takes the uops of a thread in program order and gives each the times at which
it is dispatched, issued and committed. The clock period is constant, so times are counted
in periods; the clock does not wrap. The latency of a memory access is whatever the memory
system answers. `execute` runs the three stages and then jumps to the next event;
`executeCycle` runs them and goes on to the next period.

Left out are the statistics, and the capacities of the queues, which are asserted.
-/

namespace Sniper.Rob

/-- `SubsecondTime` in clock periods; `⊤` is `SubsecondTime::MaxTime()`. -/
abbrev Time := WithTop ℕ

/-- Of the two casts into `WithTop ℕ`, times use the one of the order. -/
instance (periods : ℕ) : CoeT ℕ periods Time := ⟨WithTop.some periods⟩

/-! ## Contention -/

/-- A `RobContention`, over its own state. -/
structure RobContention (σ : Type) where
  initCycle : ℕ → σ → σ
  tryIssue : DynamicMicroOp → σ → Bool × σ
  noMore : σ → Bool
  doIssue : DynamicMicroOp → σ → σ

/-! ## The timer -/

structure Config where
  dispatchWidth : ℕ
  commitWidth : ℕ
  windowSize : ℕ
  rsEntries : ℕ
  mispredictionPenalty : ℕ
  outstandingLoads : ℕ
  outstandingStores : ℕ
  storeToLoadForwarding : Bool
  noAddressDisambiguation : Bool
  inorder : Bool

/-- A configured core: `accessMemory` answers with the latency of an access, in periods,
and may remember it. -/
structure Core (μ σ : Type) extends Config where
  accessMemory : ℕ → DynamicMicroOp → μ → ℕ × μ
  contention : Option (RobContention σ)

structure RobEntry where
  uop : DynamicMicroOp
  dispatched : Option ℕ
  ready : Time
  readyMax : Time
  addressReady : Time
  addressReadyMax : Time
  issued : Time
  done : Time
  addressProducers : List ℕ
  dependants : List ℕ

/-- `RobEntry::init`. -/
def RobEntry.init (uop : DynamicMicroOp) : RobEntry where
  uop := uop
  dispatched := none
  ready := ⊤
  readyMax := ↑(0 : ℕ)
  addressReady := ⊤
  addressReadyMax := ↑(0 : ℕ)
  issued := ⊤
  done := ⊤
  addressProducers := []
  dependants := []

def RobEntry.number (entry : RobEntry) : ℕ := entry.uop.sequenceNumber

structure RobTimer (μ σ : Type) where
  rob : List RobEntry
  numInRob : ℕ
  rsEntriesUsed : ℕ
  now : ℕ
  frontendStalledUntil : Time
  inIcacheMiss : Bool
  lastStoreDone : ℕ
  loadQueue : ContentionModel
  storeQueue : ContentionModel
  nextSequenceNumber : ℕ
  registerDependencies : RegisterDependencies
  memoryDependencies : MemoryDependencies
  contention : σ
  memory : μ
  /-- What `traceInstruction` is called with: the entries in commit order, and the time. -/
  traced : List (RobEntry × ℕ)

variable {μ σ : Type} (core : Core μ σ)

def RobTimer.create (memory : μ) (contention : σ) : RobTimer μ σ where
  rob := []
  numInRob := 0
  rsEntriesUsed := 0
  now := 0
  frontendStalledUntil := ↑(0 : ℕ)
  inIcacheMiss := false
  lastStoreDone := 0
  loadQueue := .new core.outstandingLoads
  storeQueue := .new core.outstandingStores
  nextSequenceNumber := 0
  registerDependencies := .clear
  memoryDependencies := .clear
  contention := contention
  memory := memory
  traced := []

/-- `findEntryBySequenceNumber`; a number outside of the buffer fails an assertion. -/
def findEntryBySequenceNumber (rob : List RobEntry) (sequenceNumber : ℕ) : Option RobEntry :=
  rob.head?.bind fun first =>
    if first.number ≤ sequenceNumber then rob[sequenceNumber - first.number]? else none

def modifyEntry (sequenceNumber : ℕ) (f : RobEntry → RobEntry) (rob : List RobEntry) :
    List RobEntry :=
  match rob.head? with
  | none => rob
  | some first => rob.modify (sequenceNumber - first.number) f

/-! ## Taking uops -/

def addAddressProducer (rob : List RobEntry) (entry : RobEntry) (producer : ℕ) : Option RobEntry :=
  (findEntryBySequenceNumber rob producer).map fun prodEntry =>
    if prodEntry.done ≠ ⊤ then
      { entry with addressReadyMax := max entry.addressReadyMax prodEntry.done }
    else { entry with addressProducers := entry.addressProducers ++ [producer] }

def setAddressProducers (rob : List RobEntry) (regs : RegisterDependencies)
    (lowestValidSequenceNumber : ℕ) (entry : RobEntry) : Option RobEntry :=
  if entry.uop.isStore then
    let producers := entry.uop.microOp.addressRegisters.filterMap
      (regs.peekProducer · lowestValidSequenceNumber)
    (producers.foldlM (addAddressProducer rob) entry).map fun entry =>
      { entry with addressReady :=
          if entry.addressProducers = [] then entry.addressReadyMax else entry.addressReady }
  else some entry

def forward (rob : List RobEntry) (uop : DynamicMicroOp) : List ℕ → Option DynamicMicroOp
  | [] => some uop
  | dependency :: rest =>
    (findEntryBySequenceNumber rob dependency).bind fun prodEntry =>
      if prodEntry.uop.isStore then
        some (prodEntry.uop.getDependencies.foldl .addDependency (uop.removeDependency dependency))
      else forward rob uop rest

def forwarded (rob : List RobEntry) (uop : DynamicMicroOp) : Option DynamicMicroOp :=
  if core.storeToLoadForwarding ∧ uop.isLoad then forward rob uop uop.getDependencies
  else some uop

def RobEntry.addDependant (number : ℕ) (entry : RobEntry) : RobEntry :=
  { entry with dependants := entry.dependants ++ [number] }

def linkDependency (number : ℕ) (state : List RobEntry × RobEntry) (dependency : ℕ) :
    Option (List RobEntry × RobEntry) :=
  (findEntryBySequenceNumber state.1 dependency).map fun prodEntry =>
    if prodEntry.done ≠ ⊤ then
      (state.1, { state.2 with
        uop := state.2.uop.removeDependency dependency
        readyMax := max state.2.readyMax prodEntry.done })
    else
      (modifyEntry dependency (RobEntry.addDependant number) state.1, state.2)

def RobEntry.settle (entry : RobEntry) : RobEntry :=
  { entry with ready := if entry.uop.getDependencies = [] then entry.readyMax else entry.ready }

structure Linked where
  rob : List RobEntry
  entry : RobEntry
  regs : RegisterDependencies
  mem : MemoryDependencies

def link (s : RobTimer μ σ) (uop : DynamicMicroOp) : Option Linked :=
  let number := s.nextSequenceNumber
  let lowestValidSequenceNumber := s.rob.head?.elim number RobEntry.number
  (uop.numbered number).bind fun uop =>
  (setAddressProducers s.rob s.registerDependencies lowestValidSequenceNumber
    (RobEntry.init uop)).bind fun entry =>
  let regs := s.registerDependencies.setDependencies uop lowestValidSequenceNumber
  let mem := s.memoryDependencies.setDependencies regs.2 lowestValidSequenceNumber
  (forwarded core s.rob mem.2).bind fun uop =>
  (uop.getDependencies.foldlM (linkDependency number) (s.rob, { entry with uop := uop })).map
    fun linked => ⟨linked.1, linked.2.settle, regs.1, mem.1⟩

/-- What `simulate` does with one uop. -/
def enqueue (s : RobTimer μ σ) (uop : DynamicMicroOp) : Option (RobTimer μ σ) :=
  if uop.squashed then some s
  else (link core s uop).map fun linked =>
    { s with
      rob := linked.rob ++ [linked.entry]
      nextSequenceNumber := s.nextSequenceNumber + 1
      registerDependencies := linked.regs
      memoryDependencies := linked.mem }

/-! ## Dispatch -/

def dispatchEntry (s : RobTimer μ σ) (entry : RobEntry) : RobTimer μ σ :=
  { s with
    rob := s.rob.set s.numInRob
      { entry with dispatched := some s.now, ready := max entry.ready ↑(s.now + 1) }
    numInRob := s.numInRob + 1
    rsEntriesUsed := s.rsEntriesUsed + 1 }

/-- The loop of `doDispatch`, with the number of uops dispatched and the next event. -/
def dispatchLoop (core : Core μ σ) : ℕ → ℕ → Time → RobTimer μ σ → RobTimer μ σ × Time
  | 0, _, nextEvent, s => (s, nextEvent)
  | fuel + 1, uopsDispatched, nextEvent, s =>
    match s.rob[s.numInRob]? with
    | none => (s, nextEvent)
    | some entry =>
      if uopsDispatched = core.dispatchWidth then (s, nextEvent)
      else if entry.uop.iCacheMiss ∧ ¬ s.inIcacheMiss then
        ({ s with
          frontendStalledUntil := ↑(s.now + entry.uop.iCacheLatency)
          inIcacheMiss := true }, nextEvent)
      else
        -- the latency of this uop's miss has been taken
        let s := { s with inIcacheMiss := s.inIcacheMiss && !entry.uop.iCacheMiss }
        if s.rsEntriesUsed = core.rsEntries then (s, nextEvent)
        else
          let nextEvent := min nextEvent (max entry.ready ↑(s.now + 1))
          let s := dispatchEntry s entry
          if entry.uop.isMispredictedBranch then
            ({ s with frontendStalledUntil := ⊤ }, nextEvent)
          else dispatchLoop core fuel (uopsDispatched + 1) nextEvent s

def doDispatch (s : RobTimer μ σ) : RobTimer μ σ × Time :=
  let (s, nextEvent) :=
    if s.frontendStalledUntil ≤ s.now then
      dispatchLoop core (core.windowSize - s.numInRob) 0 ⊤ s
    else (s, ⊤)
  (s, if s.numInRob = core.windowSize then nextEvent else min s.frontendStalledUntil nextEvent)

/-! ## Issue -/

/-- The address part of `wake`: `doneOf` looks up a producer that is still in the buffer. -/
def RobEntry.wakeAddress (doneOf : ℕ → Option Time) (producer : ℕ) (cycleDepend : Time)
    (entry : RobEntry) : RobEntry :=
  let unresolved := entry.uop.isStore ∧ entry.addressReady = ⊤
  let addressReadyMax := if unresolved ∧ producer ∈ entry.addressProducers then
    max entry.addressReadyMax cycleDepend else entry.addressReadyMax
  { entry with
    addressReadyMax := addressReadyMax
    addressReady :=
      if unresolved ∧ ¬ entry.addressProducers.any fun number => doneOf number = some ⊤ then
        addressReadyMax
      else entry.addressReady }

def RobEntry.wake (doneOf : ℕ → Option Time) (producer : ℕ) (cycleDepend : Time)
    (entry : RobEntry) : RobEntry :=
  RobEntry.wakeAddress doneOf producer cycleDepend
    (RobEntry.settle { entry with
      readyMax := max entry.readyMax cycleDepend
      uop := entry.uop.removeDependency producer })

def wakeAll (producer : ℕ) (cycleDepend : Time) (dependants : List ℕ) (rob : List RobEntry) :
    List RobEntry :=
  let doneOf := fun number => (findEntryBySequenceNumber rob number).map (·.done)
  dependants.foldl
    (fun rob dependant => modifyEntry dependant (RobEntry.wake doneOf producer cycleDepend) rob) rob

/-- The uop once its access was made, and the memory after it. -/
def access (now : ℕ) (uop : DynamicMicroOp) (memory : μ) : DynamicMicroOp × μ :=
  if (uop.isLoad ∨ uop.isStore) ∧ ¬ uop.dCacheKnown then
    let answer := core.accessMemory now uop memory
    ({ uop with execLatency := uop.execLatency + answer.1, dCacheKnown := true }, answer.2)
  else (uop, memory)

def issueInstruction (idx : ℕ) (entry : RobEntry) (s : RobTimer μ σ) : RobTimer μ σ :=
  let (uop, memory) := access core s.now entry.uop s.memory
  let cycleDepend := if uop.isStore then s.now + 1 else s.now + uop.execLatency
  let cycleDone := if uop.isStore then s.now + 1 else s.now + uop.execLatency + 1
  { s with
    rob := wakeAll uop.sequenceNumber ↑cycleDepend entry.dependants
      (s.rob.set idx { entry with uop := uop, issued := ↑s.now, done := ↑cycleDone })
    rsEntriesUsed := s.rsEntriesUsed - 1
    memory := memory
    loadQueue := if uop.isLoad then
      (s.loadQueue.getCompletionTime ⟨s.now, uop.execLatency, uop.address⟩).2 else s.loadQueue
    storeQueue := if uop.isStore then
      (s.storeQueue.getCompletionTime ⟨s.now, uop.execLatency, uop.address⟩).2 else s.storeQueue
    lastStoreDone := if uop.isStore then
      max s.lastStoreDone (s.now + uop.execLatency + 1) else s.lastStoreDone
    contention := core.contention.elim s.contention fun model => model.doIssue uop s.contention
    frontendStalledUntil := if uop.isMispredictedBranch then
      ↑(s.now + core.mispredictionPenalty - 2) else s.frontendStalledUntil }

/-- The local variables of `doIssue`. -/
structure Scan where
  numIssued : ℕ
  nextEvent : Time
  headOfQueue : Bool
  noMoreLoad : Bool
  noMoreStore : Bool
  haveUnresolvedStore : Bool

def Scan.start : Scan where
  numIssued := 0
  nextEvent := ⊤
  headOfQueue := true
  noMoreLoad := false
  noMoreStore := false
  haveUnresolvedStore := false

def Scan.seen (scan : Scan) (entry : RobEntry) : Scan :=
  { scan with nextEvent := min scan.nextEvent entry.ready }

def Scan.fenced (scan : Scan) : Scan := { scan with noMoreLoad := true, noMoreStore := true }

/-- What the conditions of `doIssue` decide about a uop that is not done. -/
inductive Verdict where
  /-- `canIssue` is true. -/
  | issue
  /-- `canIssue` is false. -/
  | hold
  /-- `canIssue` is false, and neither loads nor stores follow. -/
  | fence
  /-- The scan ends. -/
  | stop
  deriving DecidableEq, Repr

def verdict (s : RobTimer μ σ) (scan : Scan) (entry : RobEntry) : Verdict :=
  let uop := entry.uop
  if ↑s.now < entry.ready then .hold
  else if (scan.noMoreLoad ∧ uop.isLoad) ∨ (scan.noMoreStore ∧ uop.isStore) then .hold
  else if uop.isSerializing then
    if scan.headOfQueue ∧ s.lastStoreDone ≤ s.now then .issue else .stop
  else if uop.isMemBarrier then
    if scan.headOfQueue ∧ s.lastStoreDone ≤ s.now then .issue else .fence
  else if core.contention.isNone ∧ scan.numIssued = core.dispatchWidth then .hold
  else if uop.isLoad ∧ ¬ s.loadQueue.hasFreeSlot s.now then .hold
  else if uop.isLoad ∧ core.noAddressDisambiguation ∧ scan.haveUnresolvedStore then .hold
  else if uop.isStore ∧ (¬ scan.headOfQueue ∨ ¬ s.storeQueue.hasFreeSlot s.now) then .hold
  else .issue

def tryIssue (uop : DynamicMicroOp) (s : RobTimer μ σ) : Bool × RobTimer μ σ :=
  match core.contention with
  | none => (true, s)
  | some model =>
    let answer := model.tryIssue uop s.contention
    (answer.1, { s with contention := answer.2 })

def exhausted (scan : Scan) (s : RobTimer μ σ) : Bool :=
  match core.contention with
  | none => scan.numIssued = core.dispatchWidth
  | some model => model.noMore s.contention

def issued (i : ℕ) (entry : RobEntry) (scan : Scan) (s : RobTimer μ σ) :
    Bool × Scan × RobTimer μ σ :=
  let s := issueInstruction core i entry s
  let scan := { scan with
    numIssued := scan.numIssued + 1
    nextEvent := min scan.nextEvent ((s.rob[i]?).elim ⊤ (·.done)) }
  (!exhausted core scan s, scan, s)

def held (entry : RobEntry) (scan : Scan) (s : RobTimer μ σ) : Bool × Scan × RobTimer μ σ :=
  let scan := { scan with
    headOfQueue := false
    haveUnresolvedStore :=
      scan.haveUnresolvedStore || (entry.uop.isStore && decide (↑s.now < entry.addressReady)) }
  (!core.inorder && !exhausted core scan s, scan, s)

/-- One turn of the loop of `doIssue`: whether the scan goes on, and the state. -/
def visit (i : ℕ) (entry : RobEntry) (scan : Scan) (s : RobTimer μ σ) :
    Bool × Scan × RobTimer μ σ :=
  if entry.done ≠ ⊤ then (true, { scan with nextEvent := min scan.nextEvent entry.done }, s)
  else
    match verdict core s (scan.seen entry) entry with
    | .stop => (false, scan.seen entry, s)
    | .fence => held core entry (scan.seen entry).fenced s
    | .hold => held core entry (scan.seen entry) s
    | .issue =>
      let (granted, s) := tryIssue core entry.uop s
      if granted then issued core i entry (scan.seen entry) s
      else held core entry (scan.seen entry) s

/-- The loop of `doIssue` over the entries from the `i`-th on. -/
def issueLoop (core : Core μ σ) : ℕ → ℕ → Scan → RobTimer μ σ → RobTimer μ σ × Time
  | 0, _, scan, s => (s, scan.nextEvent)
  | fuel + 1, i, scan, s =>
    match s.rob[i]? with
    | none => (s, scan.nextEvent)
    | some entry =>
      let (goOn, scan, s) := visit core i entry scan s
      if goOn then issueLoop core fuel (i + 1) scan s else (s, scan.nextEvent)

def doIssue (s : RobTimer μ σ) : RobTimer μ σ × Time :=
  issueLoop core s.numInRob 0 .start
    { s with contention :=
        core.contention.elim s.contention fun model => model.initCycle s.now s.contention }

/-! ## Commit -/

def commitEntry (s : RobTimer μ σ) (entry : RobEntry) : RobTimer μ σ :=
  { s with
    rob := s.rob.tail
    numInRob := s.numInRob - 1
    traced := s.traced ++ [(entry, s.now)] }

/-- The loop of `doCommit`, with the number of uops committed. -/
def commitLoop (core : Core μ σ) : ℕ → ℕ → RobTimer μ σ → RobTimer μ σ
  | 0, _, s => s
  | fuel + 1, numCommitted, s =>
    match s.rob.head? with
    | none => s
    | some entry =>
      if entry.done ≤ s.now then
        if numCommitted + 1 = core.commitWidth then commitEntry s entry
        else commitLoop core fuel (numCommitted + 1) (commitEntry s entry)
      else s

def doCommit (s : RobTimer μ σ) : RobTimer μ σ × Time :=
  let s := commitLoop core s.rob.length 0 s
  (s, s.rob.head?.elim ⊤ (·.done))

/-! ## Execution -/

/-- The front end could dispatch, but the buffer before it runs low: `execute` returns at
once, with a latency of zero. -/
def needsUops (s : RobTimer μ σ) : Bool :=
  s.frontendStalledUntil ≤ s.now ∧ s.rob.length < s.numInRob + 2 * core.dispatchWidth

def stages (s : RobTimer μ σ) : RobTimer μ σ × Time :=
  let (s, nextDispatch) := doDispatch core s
  let (s, nextIssue) := doIssue core s
  let (s, nextCommit) := doCommit core s
  (s, min nextDispatch (min nextIssue nextCommit))

/-- Where the clock goes from `now`. -/
def skipTo (now : ℕ) (nextEvent : Time) : ℕ :=
  if nextEvent ≠ ⊤ ∧ ↑(now + 1) < nextEvent then nextEvent.untopD 0 else now + 1

/-- The part of `execute` after the check for uops. -/
def execute (s : RobTimer μ σ) : RobTimer μ σ :=
  let (s, nextEvent) := stages core s
  { s with now := skipTo s.now nextEvent }

def executeCycle (s : RobTimer μ σ) : RobTimer μ σ :=
  let s := (stages core s).1
  { s with now := s.now + 1 }

/-- A thread: the timer, and what is still to be passed to `simulate`, one list a call.
`failed` says that an assertion of `simulate` has ended it. -/
structure Thread (μ σ : Type) where
  timer : RobTimer μ σ
  pending : List (List DynamicMicroOp)
  failed : Bool

/-- The next call of `simulate` takes its uops. -/
def Thread.simulate (thread : Thread μ σ) : Thread μ σ :=
  match thread.pending with
  | [] => thread
  | insts :: pending =>
    match insts.foldlM (enqueue core) thread.timer with
    | some timer => { thread with timer := timer, pending := pending }
    | none => { thread with failed := true }

/-- A turn of the loop in `simulate`, where `cycle` is `execute` or `executeCycle`: when
there are too few uops the call returns and the next one takes its uops. -/
def Thread.step (cycle : RobTimer μ σ → RobTimer μ σ) (thread : Thread μ σ) : Thread μ σ :=
  if thread.failed then thread
  else if needsUops core thread.timer then thread.simulate core
  else { thread with timer := cycle thread.timer }

/-- A thread whose first call of `simulate` has taken its uops. -/
def Thread.start (memory : μ) (contention : σ) (calls : List (List DynamicMicroOp)) : Thread μ σ :=
  Thread.simulate core ⟨.create core memory contention, calls, false⟩

/-- A core of the given width that has no contention and gets an answer from memory at once. -/
def plainCore (width window outstanding : ℕ) : Core Unit Unit where
  dispatchWidth := width
  commitWidth := width
  windowSize := window
  rsEntries := window
  mispredictionPenalty := 8
  outstandingLoads := outstanding
  outstandingStores := outstanding
  storeToLoadForwarding := true
  noAddressDisambiguation := false
  inorder := false
  accessMemory := fun _ _ memory => (0, memory)
  contention := none

end Sniper.Rob
