import Sniper.Directory.DirectoryCache

/-!
# The directory controller

`DramDirectoryCntlr`: requests of the caches for a line wait in a queue of that
line, the first one is being served, and its replies, the replies of DRAM and the
requests that become first make the controller go on. The NUCA cache is any
component that can be read and written. Time and statistics are not modelled.
-/

namespace Sniper

open Fallible

inductive ReqType where
  | exReq
  | shReq
  | upgradeReq
  | nullifyReq
  deriving DecidableEq, Repr

/-- `ShmemReq`, with the payload of its message. -/
structure ShmemReq (n : Nat) (D : Type) where
  type : ReqType
  requester : Fin n
  data : Option D
  waitForData : Bool
  forwardingFrom : Int

def ShmemReq.new {n : Nat} {D : Type} (type : ReqType) (requester : Fin n) : ShmemReq n D :=
  ⟨type, requester, none, false, invalidCoreId⟩

def ShmemReq.isForwarding {n : Nat} {D : Type} (r : ShmemReq n D) : Prop :=
  r.forwardingFrom ≠ invalidCoreId

instance {n : Nat} {D : Type} (r : ShmemReq n D) : Decidable r.isForwarding :=
  inferInstanceAs (Decidable (_ ≠ _))

inductive CacheMsg where
  | invReq
  | flushReq
  | wbReq
  | exRep
  | shRep
  | upgradeRep
  deriving DecidableEq, Repr

inductive DirSend (n : Nat) (D : Type) where
  | toCache (type : CacheMsg) (requester : Fin n) (receiver : Int) (address : IntPtr)
      (data : Option D)
  | dramRead (requester : Fin n) (address : IntPtr)
  | dramWrite (requester : Int) (address : IntPtr) (data : D)

structure NucaOps (N D : Type) where
  read : N → IntPtr → Option D × N
  write : N → IntPtr → D → Bool → Option (IntPtr × D) × N

/-- `random` is the choice of `getOneSharer`, which may depend on the history. -/
structure DirConfig (n : Nat) (D N : Type) where
  coreId : Int
  protocol : CoherencyProtocol
  maxHwSharers : Nat
  layout : DirLayout
  nuca : NucaOps N D
  random : List (DirSend n D) → Nat

structure DirCntlr (n : Nat) (D N : Type) where
  directory : DramDirectoryCache n
  queues : IntPtr → List (ShmemReq n D)
  nuca : Option N
  sent : List (DirSend n D)

/-- The address of a message is that of a line, so it is not `INVALID_ADDRESS`. -/
abbrev LineAddress := { a : IntPtr // a ≠ invalidAddress }

/-- Messages to the directory. Flush and write-back replies carry the line. -/
inductive DirMsg (n : Nat) (D : Type) where
  | request (type : { t : ReqType // t ≠ .nullifyReq }) (requester : Fin n) (address : LineAddress)
  | invRep (sender : Fin n) (address : LineAddress)
  | flushRep (sender requester : Fin n) (address : LineAddress) (data : D)
  | wbRep (sender : Fin n) (address : LineAddress) (data : D)
  | dramReadRep (address : LineAddress) (data : D)

namespace DirCntlr

variable {n : Nat} {D N : Type} (cfg : DirConfig n D N)

def new (replacementPtrs : Nat → Nat) (nuca : Option N) : DirCntlr n D N where
  directory := .new cfg.layout n replacementPtrs
  queues := fun _ => []
  nuca := nuca
  sent := []

variable (s : DirCntlr n D N)

def send (m : DirSend n D) : DirCntlr n D N :=
  { s with sent := s.sent ++ [m] }

def sendAll (ms : List (DirSend n D)) : DirCntlr n D N :=
  { s with sent := s.sent ++ ms }

def setQueue (a : IntPtr) (q : List (ShmemReq n D)) : DirCntlr n D N :=
  { s with queues := Function.update s.queues a q }

def enqueue (a : IntPtr) (r : ShmemReq n D) : DirCntlr n D N :=
  s.setQueue a (s.queues a ++ [r])

def setFront (a : IntPtr) (r : ShmemReq n D) : DirCntlr n D N :=
  s.setQueue a (r :: (s.queues a).tail)

def setEntry (r : EntryRef) (e : DirectoryEntry n) : DirCntlr n D N :=
  { s with directory := s.directory.set r e }

/-- `getDirectoryEntry`, with the entry it finds. -/
def lookup (a : IntPtr) : DirCntlr n D N × Option (EntryRef × DirectoryEntry n) :=
  let (directory, ref) := s.directory.getDirectoryEntry cfg.layout a
  ({ s with directory }, ref.bind fun r => (directory.get? r).map (r, ·))

def getEntry (a : IntPtr) : Except DirFault (DirCntlr n D N × EntryRef × DirectoryEntry n) :=
  match s.lookup cfg a with
  | (s, some found) => .ok (s, found)
  | (_, none) => .error .noEntry

/-! ## Data -/

def sendDataToNUCA (a : IntPtr) (data : D) (count : Bool) : DirCntlr n D N :=
  match s.nuca with
  | none => s
  | some nuca =>
    let (evicted, nuca) := cfg.nuca.write nuca a data count
    let s := { s with nuca := some nuca }
    match evicted with
    | some (address, data) => s.send (.dramWrite cfg.coreId address data)
    | none => s

def sendDataToDram (a : IntPtr) (requester : Fin n) (data : D) : DirCntlr n D N :=
  match s.nuca with
  | some _ => sendDataToNUCA cfg s a data true
  | none => s.send (.dramWrite requester.val a data)

def readNuca (a : IntPtr) : Option D × DirCntlr n D N :=
  match s.nuca with
  | none => (none, s)
  | some nuca =>
    let (data, nuca) := cfg.nuca.read nuca a
    (data, { s with nuca := some nuca })

def fetchData (reply : CacheMsg) (receiver : Fin n) (a : IntPtr)
    (e : DirectoryEntry n) : Except DirFault (DirCntlr n D N × Bool) :=
  match s.readNuca cfg a with
  | (some d, s) => .ok (s.send (.toCache reply receiver receiver.val a (some d)), true)
  | (none, s) =>
    match s.queues a with
    | [] => .error .queueEmpty
    | req :: _ =>
      if cfg.protocol = .mesif ∧ req.forwardingFrom = invalidCoreId ∧ e.dstate = .shared ∧
          e.forwarder ≠ invalidCoreId then
        .ok ((s.setFront a { req with forwardingFrom := e.forwarder }).send
          (.toCache .wbReq receiver e.forwarder a none), false)
      else
        .ok ((s.setFront a { req with waitForData := true }).send (.dramRead receiver a), false)

/-- `retrieveDataAndSendToL2Cache`. The flag says that the request is complete, and
that the caller goes on with `processNextReqFromL2Cache`. -/
def retrieveDataAndSendToL2Cache (reply : CacheMsg) (receiver : Fin n)
    (a : IntPtr) (data : Option D) : Except DirFault (DirCntlr n D N × Bool) := do
  let (s, ref, e) ← s.getEntry cfg a
  match data with
  | some d =>
    let s := s.setEntry ref { e with forwarder := receiver.val }
    .ok (s.send (.toCache reply receiver receiver.val a (some d)), true)
  | none => s.fetchData cfg reply receiver a e

/-! ## Requests -/

def invalidations (requester : Fin n) (a : IntPtr) (e : DirectoryEntry n) : List (DirSend n D) :=
  e.getSharersList.map fun c => .toCache .invReq requester c.val a none

/-- `processNullifyReq`, with the same flag. -/
def processNullifyReq (requester : Fin n) (a : IntPtr) :
    Except DirFault (DirCntlr n D N × Bool) := do
  let (s, _, e) ← s.getEntry cfg a
  match e.dstate with
  | .exclusive | .modified =>
    .ok (s.send (.toCache .flushReq requester e.ownerId a none), false)
  | .shared => .ok (s.sendAll (invalidations requester a e), false)
  | .uncached => do
    let directory ← s.directory.invalidateDirectoryEntry a
    .ok ({ s with directory }, true)
  | .owned => .error .unsupportedState

def preferReplacement (best : Option Nat) (i : Nat) : Option Nat :=
  if (∀ b ∈ best, (s.directory.entries b).getNumSharers > (s.directory.entries i).getNumSharers) ∧
      (s.queues (s.directory.entries i).address).length = 0 then some i
  else best

def chooseReplacement (candidates : List Nat) : Option Nat :=
  candidates.foldl s.preferReplacement none

/-- `processDirectoryEntryAllocationReq`. The queue of the replaced address holds the
new request only, so that completing it takes it off again and does nothing else. -/
def processDirectoryEntryAllocationReq (requester : Fin n) (a : IntPtr) :
    Except DirFault (DirCntlr n D N × EntryRef × DirectoryEntry n) := do
  let (directory, candidates) := s.directory.getReplacementCandidates cfg.layout a
  let s := { s with directory }
  match s.chooseReplacement candidates with
  | none => .error .noCandidate
  | some i => do
    let old := (s.directory.entries i).address
    let (directory, ref) ← s.directory.replaceDirectoryEntry cfg.layout old a
    let s := { s with directory }.enqueue old (.new .nullifyReq requester)
    require ((s.queues old).length = 1) .queueNotEmpty
    let (s, completed) ← s.processNullifyReq cfg requester old
    let s := if completed then s.setQueue old [] else s
    match s.directory.get? ref with
    | some e => .ok (s, ref, e)
    | none => .error .noEntry

def findOrAllocate (requester : Fin n) (a : IntPtr) :
    Except DirFault (DirCntlr n D N × EntryRef × DirectoryEntry n) :=
  match s.lookup cfg a with
  | (s, some found) => .ok (s, found)
  | (s, none) => s.processDirectoryEntryAllocationReq cfg requester a

def processExReqFromL2Cache (req : ShmemReq n D) (a : IntPtr)
    (data : Option D) : Except DirFault (DirCntlr n D N × Bool) := do
  let (s, ref, e) ← s.findOrAllocate cfg req.requester a
  match e.dstate with
  | .exclusive | .modified => do
    require (data.isNone = true) .unexpectedData
    .ok (s.send (.toCache .flushReq req.requester e.ownerId a none), false)
  | .shared => do
    require (data.isNone = true) .unexpectedData
    .ok (s.sendAll (invalidations req.requester a e), false)
  | .uncached => do
    let e ← e.occupy req.requester cfg.maxHwSharers .modified
    (s.setEntry ref e).retrieveDataAndSendToL2Cache cfg .exRep req.requester a data
  | .owned => .error .unsupportedState

def processShReqFromL2Cache (req : ShmemReq n D) (a : IntPtr)
    (data : Option D) : Except DirFault (DirCntlr n D N × Bool) := do
  let (s, ref, e) ← s.findOrAllocate cfg req.requester a
  match e.dstate with
  | .exclusive => do
    require (e.owner ≠ some req.requester) .requesterIsOwner
    require (data.isNone = true) .unexpectedData
    .ok (s.send (.toCache .wbReq req.requester e.ownerId a none), false)
  | .modified => do
    require (data.isNone = true) .unexpectedData
    .ok (s.send (.toCache .wbReq req.requester e.ownerId a none), false)
  | .shared =>
    if req.requester ∈ e.sharers then
      s.retrieveDataAndSendToL2Cache cfg .shRep req.requester a data
    else do
      let (e, added) ← e.addSharer req.requester cfg.maxHwSharers
      if added then
        (s.setEntry ref e).retrieveDataAndSendToL2Cache cfg .shRep req.requester a data
      else
        match e.getSharersList[cfg.random s.sent % e.getSharersList.length]? with
        | some c => .ok (s.send (.toCache .invReq req.requester c.val a none), false)
        | none => .error .notSharer
  | .uncached => do
    if cfg.protocol = .msi then
      let e ← e.occupy req.requester cfg.maxHwSharers .shared
      (s.setEntry ref e).retrieveDataAndSendToL2Cache cfg .shRep req.requester a data
    else
      let e ← e.occupy req.requester cfg.maxHwSharers .exclusive
      (s.setEntry ref e).retrieveDataAndSendToL2Cache cfg .exRep req.requester a data
  | .owned => .error .unsupportedState

def upgradeInvalidations (requester : Fin n) (a : IntPtr) (e : DirectoryEntry n) :
    List (DirSend n D) :=
  e.getSharersList.zipIdx.filterMap fun (c, i) =>
    if c = requester then none
    else if requester ∉ e.sharers ∧ i = 0 then some (.toCache .flushReq requester c.val a none)
    else some (.toCache .invReq requester c.val a none)

def processUpgradeReqFromL2Cache (req : ShmemReq n D) (a : IntPtr)
    (data : Option D) : Except DirFault (DirCntlr n D N × Bool) := do
  let (s, ref, e) ← s.findOrAllocate cfg req.requester a
  let reply := DirSend.toCache .upgradeRep req.requester req.requester.val a none
  match e.dstate with
  | .exclusive | .modified =>
    if e.getSharersList.head? = some req.requester then do
      require (e.owner = some req.requester) .upgraderNotOwner
      .ok ((s.send reply).setEntry ref { e with dstate := .modified }, true)
    else .ok (s.send (.toCache .flushReq req.requester e.ownerId a none), false)
  | .shared =>
    if e.getSharersList = [req.requester] then do
      let e ← e.setOwner req.requester
      .ok ((s.setEntry ref { e with dstate := .modified }).send reply, true)
    else .ok (s.sendAll (upgradeInvalidations req.requester a e), false)
  | .uncached => do
    require (e.getSharersList.length = 0) .sharersLeft
    let e ← e.occupy req.requester cfg.maxHwSharers .modified
    (s.setEntry ref e).retrieveDataAndSendToL2Cache cfg .exRep req.requester a (data.or req.data)
  | .owned => .error .unsupportedState

def processReq (req : ShmemReq n D) (a : IntPtr) : Except DirFault (DirCntlr n D N × Bool) :=
  match req.type with
  | .exReq => s.processExReqFromL2Cache cfg req a none
  | .shReq => s.processShReqFromL2Cache cfg req a none
  | .upgradeReq => s.processUpgradeReqFromL2Cache cfg req a none
  | .nullifyReq => .error .unrecognizedRequest

/-- `processNextReqFromL2Cache`. Every round takes one request off the queue, so the
length of the queue bounds the rounds. -/
def processNext : Nat → DirCntlr n D N → IntPtr → Except DirFault (DirCntlr n D N)
  | 0, _, _ => .error .queueEmpty
  | rounds + 1, s, a =>
    match s.queues a with
    | [] => .error .queueEmpty
    | _ :: rest =>
      let s := s.setQueue a rest
      match rest with
      | [] => .ok s
      | req :: _ => do
        let (s, completed) ← s.processReq cfg req a
        if completed then processNext rounds s a else .ok s

def processNextReqFromL2Cache (a : IntPtr) : Except DirFault (DirCntlr n D N) :=
  processNext cfg (s.queues a).length s a

def goOn (a : IntPtr) (m : Except DirFault (DirCntlr n D N × Bool)) :
    Except DirFault (DirCntlr n D N) := do
  let (s, completed) ← m
  if completed then s.processNextReqFromL2Cache cfg a else .ok s

/-! ## Replies -/

def dramReplyType (type : ReqType) (st : DState) : Except DirFault CacheMsg :=
  match type with
  | .shReq => do
    require (st = .shared ∨ st = .exclusive) .badReplyState
    .ok (if st = .exclusive then .exRep else .shRep)
  | .exReq => do
    require (st = .modified) .badReplyState
    .ok .exRep
  | .upgradeReq => .ok .exRep
  | .nullifyReq => .error .unrecognizedRequest

def processDRAMReply (a : IntPtr) (data : D) : Except DirFault (DirCntlr n D N) :=
  match s.queues a with
  | [] => .error .queueEmpty
  | req :: _ => do
    let (s, _, e) ← s.getEntry cfg a
    let reply ← dramReplyType req.type e.dstate
    let s := s.send (.toCache reply req.requester req.requester.val a (some data))
    (sendDataToNUCA cfg s a data false).processNextReqFromL2Cache cfg a

def processInvRepFromL2Cache (sender : Fin n) (a : IntPtr) : Except DirFault (DirCntlr n D N) := do
  let (s, ref, e) ← s.getEntry cfg a
  let e ← e.invalidated sender
  let s := s.setEntry ref e
  match s.queues a with
  | [] => .ok s
  | req :: _ =>
    match req.type with
    | .exReq =>
      if e.dstate = .uncached then goOn cfg a (s.processExReqFromL2Cache cfg req a none)
      else .ok s
    | .upgradeReq =>
      if e.getNumSharers = 1 then
        if req.requester ∈ e.sharers then
          goOn cfg a (s.processUpgradeReqFromL2Cache cfg req a none)
        else .ok s
      else if e.getNumSharers = 0 then
        goOn cfg a ((s.setEntry ref { e with dstate := .uncached }).processUpgradeReqFromL2Cache
          cfg req a none)
      else .ok s
    | .shReq =>
      if req.waitForData then .ok s
      else if req.isForwarding ∧ (sender.val : Int) ≠ req.forwardingFrom then .ok s
      else goOn cfg a (s.processShReqFromL2Cache cfg req a none)
    | .nullifyReq =>
      if e.dstate = .uncached then goOn cfg a (s.processNullifyReq cfg req.requester a)
      else .ok s

def processFlushRepFromL2Cache (sender requester : Fin n) (a : IntPtr)
    (data : D) : Except DirFault (DirCntlr n D N) := do
  let (s, ref, e) ← s.getEntry cfg a
  let e ← e.flushed sender
  let s := s.setEntry ref e
  match s.queues a with
  | [] => .ok (sendDataToDram cfg s a requester data)
  | req :: _ =>
    match req.type with
    | .exReq => goOn cfg a (s.processExReqFromL2Cache cfg req a (some data))
    | .shReq =>
      goOn cfg a ((sendDataToDram cfg s a requester data).processShReqFromL2Cache cfg req a
        (some data))
    | .upgradeReq =>
      if e.getNumSharers = 0 then
        goOn cfg a ((s.setEntry ref { e with dstate := .uncached }).processUpgradeReqFromL2Cache
          cfg req a (some data))
      else .ok (s.setFront a { req with data := some data })
    | .nullifyReq =>
      goOn cfg a ((sendDataToDram cfg s a requester data).processNullifyReq cfg req.requester a)

def processWbRepFromL2Cache (sender : Fin n) (a : IntPtr) (data : D) :
    Except DirFault (DirCntlr n D N) := do
  let (s, ref, e) ← s.getEntry cfg a
  let e ← e.writtenBack sender
  let s := s.setEntry ref e
  match s.queues a with
  | [] => .error .writebackWithoutRead
  | req :: _ => do
    require (req.type = .shReq) .writebackWithoutRead
    goOn cfg a (s.processShReqFromL2Cache cfg req a (some data))

/-! ## Messages -/

/-- `handleMsgFromL2Cache` and `handleMsgFromDRAM`. Messages of caches look the line
up first, which may take a free entry. -/
def handleMsg (m : DirMsg n D) : Except DirFault (DirCntlr n D N) :=
  let touch (a : IntPtr) : DirCntlr n D N := (s.lookup cfg a).1
  match m with
  | .request type requester a =>
    let req := ShmemReq.new type.val requester
    let s := (touch a).enqueue a req
    if (s.queues a).length = 1 then goOn cfg a (s.processReq cfg req a) else .ok s
  | .invRep sender a => (touch a).processInvRepFromL2Cache cfg sender a
  | .flushRep sender requester a data =>
    (touch a).processFlushRepFromL2Cache cfg sender requester a data
  | .wbRep sender a data => (touch a).processWbRepFromL2Cache cfg sender a data
  | .dramReadRep a data => s.processDRAMReply cfg a data

end DirCntlr

end Sniper
