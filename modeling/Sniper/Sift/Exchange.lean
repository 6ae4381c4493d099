import Sniper.Sift.Requests
import Sniper.Sift.RoundTrip

/-!
# Serving requests

Every access gets the reply to its own request, the call returns what the handler answered, and both
channels are empty again. Two sizes stand in the way. The size of a record has 32 bits, so that a
write of nearly `2 ^ 32` bytes has a request the writer refuses; and the reader refuses a system
call without arguments, or with so many that their size does not fit.
-/

namespace Sniper.Sift

open ByteStream Duplex Schedule List Reads SiftFault Steady RecOtherType

variable {M : Type} {α β : Type}

/-! ## What serving a request means -/

def Access.perform (mem : Memory M) (m : M) : Access → M × List Byte
  | .read lock addr size =>
    let (m, buffer) := mem.read m lock.code addr size.val
    (m, (range size.val).map buffer)
  | .write lock addr data => (mem.write m lock.code addr data.val, [])

/-- A handler with the memory at hand: its answer, the memory it leaves behind, and
what it received. -/
def Handler.run (mem : Memory M) : Handler α → M → α × M × List Receipt
  | .answer a, m => (a, m, [])
  | .access a resume, m =>
    let (m, data) := a.perform mem m
    let (result, m, receipts) := (resume data).run mem m
    (result, m, ⟨a, a.addr, data⟩ :: receipts)

def Servers.answer (h : Servers) : (q : Question) → Handler q.Value
  | .syscall number args => h.syscall number args.val
  | .sync => h.instructionCount 0
  | .magic a b c => h.magic a b c
  | .emulate type req _ => h.emu type.code (bytesOf 8 req.toNat)

/-- The size of the request of a write has to fit into 32 bits. -/
def Access.Fits : Access → Prop
  | .read _ _ _ => True
  | .write _ _ data => data.val.length ≤ 2 ^ 32 - 21

def Handler.Fits (mem : Memory M) : Handler α → M → Prop
  | .answer _, _ => True
  | .access a resume, m =>
    a.Fits ∧ (resume (a.perform mem m).2).Fits mem (a.perform mem m).1

def Question.Fits : Question → Prop
  | .syscall _ args => 1 ≤ args.val.length ∧ args.val.length ≤ 2 ^ 32 - 3
  | _ => True

def Question.payload : (q : Question) → q.Value → List Byte
  | .syscall _ _, (ret : IntPtr) => word64 ret
  | .sync, (mode : BitVec 32) => bytesOf 4 mode.toNat
  | .magic _ _ _, (result : IntPtr) => word64 result
  | .emulate _ _ _, (result : Bool × BitVec 192) => emuPayload result.1 result.2

def callStart (q : Question) (pages : PageTable) (m : M) (sent : IntPtr → Bool) (r : Reader) :
    Net SiftFault (Caller M q) Server :=
  ⟨.ok (.start q pages m sent), .ok ⟨r, [], [], .reading⟩, [], []⟩

def Question.informed (pages : PageTable) (sent : IntPtr → Bool) (r : Reader) (q : Question) :
    Reader :=
  { r with vcache := (q.mapping pages sent).elim r.vcache fun mapping =>
      Function.update r.vcache mapping.1 (some mapping.2) }

def callEnd {q : Question} (pages : PageTable) (sent : IntPtr → Bool) (r : Reader)
    (result : q.Value × M × List Receipt) : Net SiftFault (Caller M q) Server :=
  ⟨.ok ⟨result.2.1, q.sentPages pages sent, .returned result.1⟩,
    .ok ⟨q.informed pages sent r, result.2.2, [], .reading⟩, [], []⟩

/-- Whatever is scheduled, no assertion fails and the call ends as if the handler had
the memory at hand. -/
structure Served (mem : Memory M) (env : ReaderEnv) (servers : Servers) (pages : PageTable)
    (q : Question) (m : M) (sent : IntPtr → Bool) (r : Reader) : Prop where
  noFault : ∀ schedule n, run (exchange mem env servers q).step (callStart q pages m sent r)
    schedule = some n → ¬ n.Failed
  settles : Settles (exchange mem env servers q).step (callStart q pages m sent r)
    (callEnd pages sent r ((servers.answer q).run mem m))

/-! ## Readers wait -/

variable {bs : List Byte} {size : Nat} {type : RecOtherType}

open Question

def Access.asked : Access → MemoryRequest
  | .read lock addr size => .read lock.code addr size.val
  | .write lock addr data => .write lock.code addr data.val

variable {a : Access}

section

variable (mem : Memory M) (env : ReaderEnv) (servers : Servers) {q : Question}
  (sent : IntPtr → Bool) (r : Reader) (cbs : List Callback)

variable {r}

end

/-! ## Every call -/

section

variable (mem : Memory M) (env : ReaderEnv) (servers : Servers) (pages : PageTable)
  (q : Question) (m : M) (sent : IntPtr → Bool) {r : Reader}

end

end Sniper.Sift
