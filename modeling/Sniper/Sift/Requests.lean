import Sniper.Lib.Duplex
import Sniper.Sift.Reader
import Sniper.Sift.Writer

/-!
# Requests

The calls of the writer that wait for a response: `Syscall`, `Sync`, `Magic` and
`Emulate`. While the reader serves one it may ask the writer for the contents of its
memory, over the same two streams. Each side blocks until the bytes it reads have
arrived; all files are open, and a callback for memory accesses is registered. Between
two flushes the bytes of a record go out in one step.
-/

namespace Sniper.Sift

open ByteStream Duplex

/-- `MemoryLockType`. -/
inductive MemoryLockType where
  | memInvalidLock
  | memNoLock
  | memLock
  | memUnlock
  deriving DecidableEq, Repr

def MemoryLockType.code : MemoryLockType → BitVec 32
  | memInvalidLock => 0
  | memNoLock => 1
  | memLock => 2
  | memUnlock => 3

/-- `MemoryOpType`. -/
inductive MemoryOpType where
  | memInvalidOp
  | memRead
  | memWrite
  deriving DecidableEq, Repr

def MemoryOpType.code : MemoryOpType → BitVec 32
  | memInvalidOp => 0
  | memRead => 1
  | memWrite => 2

/-- `EmuType`. -/
inductive EmuType where
  | rdtsc
  | getProcInfo
  | getTime
  | cpuid
  | setThreadInfo
  deriving DecidableEq, Repr

def EmuType.code : EmuType → BitVec 16
  | rdtsc => 0
  | getProcInfo => 1
  | getTime => 2
  | cpuid => 3
  | setThreadInfo => 4

/-! ## Memory accesses -/

/-- The arguments of a call of `AccessMemory`, with a size greater than zero. -/
inductive Access where
  | read (lock : MemoryLockType) (addr : IntPtr) (size : { n : Nat // 0 < n ∧ n < 2 ^ 32 })
  | write (lock : MemoryLockType) (addr : IntPtr)
      (data : { bs : List Byte // 0 < bs.length ∧ bs.length < 2 ^ 32 })
  deriving DecidableEq

def memoryFields (addr : IntPtr) (size : Nat) (lock : MemoryLockType) (op : MemoryOpType) :
    List Byte :=
  word64 addr ++ (bytesOf 4 size ++ (bytesOf 4 lock.code.toNat ++ bytesOf 4 op.code.toNat))

namespace Access

def addr : Access → IntPtr
  | .read _ addr _ => addr
  | .write _ addr _ => addr

/-- What `AccessMemory` writes to the response stream. -/
def request : Access → List Byte
  | .read lock addr size =>
    otherHeader .memoryRequest (8 + 4 + 4 + 4) ++ memoryFields addr size.val lock .memRead
  | .write lock addr data =>
    otherHeader .memoryRequest (8 + 4 + 4 + 4 + data.val.length) ++
      (memoryFields addr data.val.length lock .memWrite ++ data.val)

def readReply (a : Access) : Parse (IntPtr × List Byte) := do
  let _ ← u8
  let code ← u8
  let size ← takeNat .truncated 4
  check (code = RecOtherType.memoryResponse.code) .unexpectedType
  let addr ← u64
  let _ ← u32
  check (addr = a.addr) .wrongAddress
  let payloadSize := (size + 2 ^ 32 - 8 - 4) % 2 ^ 32
  match a with
  | .read _ _ dataSize => do
    check (dataSize.val = payloadSize) .sizeMismatch
    let data ← take .truncated dataSize.val
    pure (addr, data)
  | .write _ _ _ => do
    check (payloadSize = 0) .sizeMismatch
    pure (addr, [])

end Access

/-- `handleAccessMemoryFunc`, the callback of the writer, with the memory it acts on. A
read fills a buffer of the size it is given. -/
structure Memory (M : Type) where
  read : M → BitVec 32 → IntPtr → Nat → M × (Nat → Byte)
  write : M → BitVec 32 → IntPtr → List Byte → M

inductive MemoryRequest where
  | read (lock : BitVec 32) (addr : IntPtr) (size : Nat)
  | write (lock : BitVec 32) (addr : IntPtr) (payload : List Byte)
  deriving DecidableEq

def readMemoryPayload (addr : IntPtr) (size payloadSize : Nat) (lock op : BitVec 32) :
    Parse MemoryRequest :=
  if op = MemoryOpType.memRead.code then do
    check (payloadSize = 0) .sizeMismatch
    check (size > 0) .sizeMismatch
    pure (.read lock addr size)
  else if op = MemoryOpType.memWrite.code then do
    check (payloadSize > 0) .sizeMismatch
    check (payloadSize = size) .sizeMismatch
    let payload ← take .truncated payloadSize
    pure (.write lock addr payload)
  else do
    check False .badOperation
    pure (.read lock addr size)

/-- The first half of `handleMemoryRequest`. -/
def readMemoryRequest (recSize : Nat) : Parse MemoryRequest := do
  check (recSize ≥ 8 + 4 + 4 + 4) (.badSize RecOtherType.memoryRequest.code)
  let addr ← u64
  let size ← takeNat .truncated 4
  let lock ← u32
  let op ← u32
  readMemoryPayload addr size (recSize - (8 + 4 + 4 + 4)) lock op

def MemoryRequest.handle {M : Type} (mem : Memory M) (m : M) : MemoryRequest → M × List Byte
  | .read lock addr size =>
    let (m, buffer) := mem.read m lock addr size
    (m, otherHeader .memoryResponse (8 + 4 + size) ++
      (word64 addr ++ (bytesOf 4 MemoryOpType.memRead.code.toNat ++ (List.range size).map buffer)))
  | .write lock addr payload =>
    (mem.write m lock addr payload, otherHeader .memoryResponse (8 + 4) ++
      (word64 addr ++ bytesOf 4 MemoryOpType.memWrite.code.toNat))

/-! ## Handlers -/

/-- A handler of the reader: it makes finitely many memory accesses, each of which may
depend on what the ones before it returned, and then answers. -/
inductive Handler (α : Type) where
  | answer (a : α)
  | access (a : Access) (resume : List Byte → Handler α)

def Handler.map {α β : Type} (f : α → β) : Handler α → Handler β
  | .answer a => .answer (f a)
  | .access a resume => .access a fun data => (resume data).map f

structure Servers where
  instructionCount : BitVec 32 → Handler (BitVec 32)
  syscall : BitVec 16 → List Byte → Handler IntPtr
  newThread : Handler (BitVec 32)
  join : BitVec 32 → Handler (BitVec 32)
  fork : Handler (BitVec 32)
  magic : IntPtr → IntPtr → IntPtr → Handler IntPtr
  emu : BitVec 16 → List Byte → Handler (Bool × BitVec 192)

/-- The payload of `sendEmuResponse`. -/
def emuPayload (handled : Bool) (reply : BitVec 192) : List Byte :=
  BitVec.ofNat 8 handled.toNat :: bytesOf 24 reply.toNat

def Servers.serve (h : Servers) : Request → Handler (RecOtherType × List Byte)
  | .instructionCount icount =>
    (h.instructionCount icount).map fun mode => (.syncResponse, bytesOf 4 mode.toNat)
  | .syscall number args =>
    (h.syscall number args).map fun ret => (.syscallResponse, word64 ret)
  | .newThread => h.newThread.map fun ret => (.newThreadResponse, bytesOf 4 ret.toNat)
  | .join thread => (h.join thread).map fun ret => (.joinResponse, bytesOf 4 ret.toNat)
  | .sync => (h.instructionCount 0).map fun mode => (.syncResponse, bytesOf 4 mode.toNat)
  | .fork => h.fork.map fun ret => (.forkResponse, bytesOf 4 ret.toNat)
  | .magic a b c =>
    (h.magic a b c).map fun result => (.magicInstructionResponse, word64 result)
  | .emu type req =>
    (h.emu type req).map fun result => (.emuResponse, emuPayload result.1 result.2)

/-- A call that waits for a response. `res` is what the buffer for the reply of an
emulation held before. -/
inductive Question where
  | syscall (number : BitVec 16) (args : Buffer)
  | sync
  | magic (a b c : IntPtr)
  | emulate (type : EmuType) (req : BitVec 64) (res : BitVec 192)

namespace Question

def Value : Question → Type
  | .syscall _ _ => IntPtr
  | .sync => BitVec 32
  | .magic _ _ _ => IntPtr
  | .emulate _ _ _ => Bool × BitVec 192

def request : Question → Request
  | .syscall number args => .syscall number args.val
  | .sync => .sync
  | .magic a b c => .magic a b c
  | .emulate type req _ => .emu type.code (bytesOf 8 req.toNat)

def record : Question → List Byte
  | .syscall number args =>
    otherHeader .syscallRequest (2 + args.val.length) ++ (bytesOf 2 number.toNat ++ args.val)
  | .sync => otherHeader .sync 0
  | .magic a b c =>
    otherHeader .magicInstruction (3 * 8) ++ (word64 a ++ (word64 b ++ word64 c))
  | .emulate type req _ =>
    otherHeader .emu (2 + 8) ++ (bytesOf 2 type.code.toNat ++ bytesOf 8 req.toNat)

def responseType : Question → RecOtherType
  | .syscall _ _ => .syscallResponse
  | .sync => .syncResponse
  | .magic _ _ _ => .magicInstructionResponse
  | .emulate _ _ _ => .emuResponse

def readValue : (q : Question) → Nat → Parse q.Value
  | .syscall _ _, size => do
    check (size = 8) (.badSize RecOtherType.syscallResponse.code)
    u64
  | .sync, size => do
    check (size = 4) (.badSize RecOtherType.syncResponse.code)
    u32
  | .magic _ _ _, size => do
    check (size = 8) (.badSize RecOtherType.magicInstructionResponse.code)
    u64
  | .emulate _ _ res, size => do
    check (size ≤ 1 + 24) (.badSize RecOtherType.emuResponse.code)
    let result ← u8
    let reply ← take .truncated ((size + 2 ^ 64 - 1) % 2 ^ 64)
    let buffer := reply ++ (bytesOf 24 res.toNat).drop reply.length
    pure (result ≠ 0, BitVec.ofNat 192 (ofBytes buffer))

/-- `Syscall` has no case for other records, the other calls fail on them. -/
def ignoresOthers : Question → Bool
  | .syscall _ _ => true
  | _ => false

end Question

inductive Incoming (α : Type) where
  | value (v : α)
  | memory (r : MemoryRequest)
  | other

def readIncomingPayload (q : Question) (code : Byte) (size : Nat) : Parse (Incoming q.Value) :=
  if code = q.responseType.code then Incoming.value <$> q.readValue size
  else if code = RecOtherType.memoryRequest.code then Incoming.memory <$> readMemoryRequest size
  else do
    check (q.ignoresOthers = true) .unexpectedType
    pure .other

def readIncoming (q : Question) : Parse (Incoming q.Value) := do
  let zero ← u8
  let code ← u8
  let size ← takeNat .truncated 4
  check (zero = 0) .nonzeroRecord
  readIncomingPayload q code size

/-! ## Physical pages -/

/-- The page table of the traced program, where it can be read, and whether the writer
sends it. -/
structure PageTable where
  send : Bool
  pagemap : IntPtr → Option IntPtr

/-- `va2pa_lookup`. -/
def PageTable.va2paLookup (pages : PageTable) (vp : IntPtr) : IntPtr :=
  if vp ≥ 0xffffffffff600 ∧ vp < 0xfffffffffffff then vp
  else (pages.pagemap vp).getD vp

/-- `send_va2pa`: the page that is sent and its frame. -/
def PageTable.sendVa2pa (pages : PageTable) (sent : IntPtr → Bool) (va : IntPtr) :
    Option (IntPtr × IntPtr) :=
  let vp := va / 4096
  if pages.send ∧ sent vp = false then
    let pp := pages.va2paLookup vp
    if pp = 0 then none else some (vp, pp)
  else none

def mappingRecord (mapping : IntPtr × IntPtr) : List Byte :=
  otherHeader .logical2Physical (2 * 8) ++ (word64 mapping.1 ++ word64 mapping.2)

/-- The `i`-th argument of a system call. -/
def argument (args : List Byte) (i : Nat) : IntPtr :=
  BitVec.ofNat 64 (ofBytes ((args.drop (8 * i)).take 8))

/-- The mapping that goes ahead of a request: `SYS_futex` and `SYS_write` have the
address of their data among their arguments. -/
def Question.mapping (pages : PageTable) (sent : IntPtr → Bool) :
    Question → Option (IntPtr × IntPtr)
  | .syscall number args =>
    if number = 202 then pages.sendVa2pa sent (argument args.val 0)
    else if number = 1 then pages.sendVa2pa sent (argument args.val 1)
    else none
  | _ => none

def Question.sentPages (pages : PageTable) (sent : IntPtr → Bool) (q : Question) : IntPtr → Bool :=
  (q.mapping pages sent).elim sent fun mapping => Function.update sent mapping.1 true

/-! ## The two parties -/

inductive Calling (α : Type) where
  | writing (pending : List (List Byte))
  | returned (v : α)

structure Caller (M : Type) (q : Question) where
  memory : M
  sentPages : IntPtr → Bool
  phase : Calling q.Value

namespace Caller

variable {M : Type} {q : Question}

def start (q : Question) (pages : PageTable) (m : M) (sent : IntPtr → Bool) : Caller M q where
  memory := m
  sentPages := q.sentPages pages sent
  phase := .writing ((q.mapping pages sent).toList.map mappingRecord ++ [q.record])

def take (mem : Memory M) (c : Caller M q) : Incoming q.Value → Caller M q
  | .value v => { c with phase := .returned v }
  | .memory r =>
    let (m, reply) := r.handle mem c.memory
    { c with memory := m, phase := .writing [reply] }
  | .other => c

def act (mem : Memory M) (c : Caller M q) : Act SiftFault (Caller M q) :=
  match c.phase with
  | .writing (bytes :: pending) => .send bytes { c with phase := .writing pending }
  | .writing [] => .receive (c.take mem <$> readIncoming q)
  | .returned _ => .halt

end Caller

structure Receipt where
  access : Access
  addr : IntPtr
  data : List Byte
  deriving DecidableEq

/-- Where the reader is in a call of `Read`. -/
inductive Serving where
  | reading
  | serving (h : Handler (RecOtherType × List Byte))
  | accessing (a : Access) (resume : List Byte → Handler (RecOtherType × List Byte))
  | returned (o : Reader.Outcome)

/-- The reader; its streams are the channels. The accesses that have been answered and
the callbacks that have been invoked are kept as a history. -/
structure Server where
  reader : Reader
  receipts : List Receipt
  callbacks : List Callback
  phase : Serving

namespace Server

def process (env : ReaderEnv) (s : Server) (record : Record) : Except SiftFault Server := do
  let (next, r) ← s.reader.process env record
  match next with
  | .inl outcome => .ok { s with reader := r, phase := .returned outcome }
  | .inr callbacks => .ok { s with reader := r, callbacks := s.callbacks ++ callbacks }

def dispatch (env : ReaderEnv) (servers : Servers) (s : Server) : Record → Except SiftFault Server
  | .request q => .ok { s with phase := .serving (servers.serve q) }
  | record => s.process env record

def act (env : ReaderEnv) (servers : Servers) (s : Server) : Act SiftFault Server :=
  match s.phase with
  | .reading =>
    if s.reader.seenEnd then .send [] { s with phase := .returned .afterEnd }
    else .receive (readRecord >>= fun record => lift (s.dispatch env servers record))
  | .serving (.answer (type, payload)) =>
    .send (otherHeader type payload.length ++ payload) { s with phase := .reading }
  | .serving (.access a resume) => .send a.request { s with phase := .accessing a resume }
  | .accessing a resume =>
    .receive ((fun reply : IntPtr × List Byte =>
      { s with
        receipts := s.receipts ++ [⟨a, reply.1, reply.2⟩]
        phase := .serving (resume reply.2) }) <$> a.readReply)
  | .returned _ => .halt

end Server

def exchange {M : Type} (mem : Memory M) (env : ReaderEnv) (servers : Servers) (q : Question) :
    System SiftFault (Caller M q) Server where
  short := .truncated
  left := Caller.act mem
  right := Server.act env servers

end Sniper.Sift
