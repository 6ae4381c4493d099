import Sniper.Sift.Format

/-!
# Reading a trace

`Sift::Reader`: a record is taken from the stream and then processed. Every call of
`Read` goes on to the next instruction, and invokes the callbacks of the records on
its way. All handlers are registered, and every instruction can be decoded. A stream
that ends within a record stops the reader.
-/

namespace Sniper.Sift

open ByteStream Fallible Function

/-! ## Records -/

abbrev Parse := StreamReader SiftFault

def u8 : Parse Byte := takeWord .truncated 8 1

def u16 : Parse (BitVec 16) := takeWord .truncated 16 2

def u32 : Parse (BitVec 32) := takeWord .truncated 32 4

def u64 : Parse IntPtr := takeWord .truncated 64 8

def takeString : Parse (List Byte) := do
  let length ← takeNat .truncated 2
  let buffer ← take .truncated length
  pure (cString buffer)

/-- `rec.Instruction`. -/
def readInstruction : Parse Record := do
  let b ← takeNat .truncated 1
  let addresses ← takeWords .truncated 64 8 (b / 16 % 4)
  pure (.instruction (b % 16) (b / 64 % 2 = 1) (b / 128 % 2 = 1) addresses)

/-- `rec.InstructionExt`. -/
def readInstructionExt : Parse Record := do
  let b ← takeNat .truncated 1
  let flags ← takeNat .truncated 1
  let addr ← u64
  let addresses ← takeWords .truncated 64 8 (flags % 4)
  pure (.instructionExt addr (b / 16 % 16) (flags / 4 % 2 = 1) (flags / 8 % 2 = 1)
    (flags / 16 % 2 = 1) (flags / 32 % 2 = 1) addresses)

/-- The payload of `rec.Other`. Sizes are subtracted as 64-bit numbers. -/
def readPayload (type : RecOtherType) (size : Nat) : Parse Record :=
  let expect (holds : Prop) [Decidable holds] : Parse Unit := check holds (.badSize type.code)
  match type with
  | .endTrace => do
    expect (size = 0)
    pure .endTrace
  | .icache => do
    expect (size = 8 + icacheSize)
    let address ← u64
    let bytes ← take .truncated icacheSize
    pure (.icache address bytes)
  | .icacheVariable => do
    let address ← u64
    let bytes ← take .truncated ((size + 2 ^ 64 - 8) % 2 ^ 64)
    pure (.icacheVariable address bytes)
  | .logical2Physical => do
    expect (size = 2 * 8)
    let vp ← u64
    let pp ← u64
    pure (.logical2Physical vp pp)
  | .instructionCount => do
    expect (size = 4)
    let icount ← u32
    pure (.request (.instructionCount icount))
  | .cacheOnly => do
    expect (size = 1 + 1 + 8 + 8)
    let icount ← u8
    let type ← u8
    let eip ← u64
    let address ← u64
    pure (.callback (.cacheOnly icount type eip address))
  | .output => do
    expect (size > 1)
    let fd ← u8
    let data ← take .truncated (size - 1)
    pure (.callback (.output fd data))
  | .syscallRequest => do
    expect (size > 2)
    let number ← u16
    let args ← take .truncated (size - 2)
    pure (.request (.syscall number args))
  | .newThread => do
    expect (size = 0)
    pure (.request .newThread)
  | .join => do
    expect (size = 4)
    let thread ← u32
    pure (.request (.join thread))
  | .sync => do
    expect (size = 0)
    pure (.request .sync)
  | .fork => do
    expect (size = 0)
    pure (.request .fork)
  | .magicInstruction => do
    expect (size = 3 * 8)
    let a ← u64
    let b ← u64
    let c ← u64
    pure (.request (.magic a b c))
  | .emu => do
    -- the largest request has two 32-bit registers
    expect (size ≤ 2 + 8)
    let type ← u16
    let req ← take .truncated ((size + 2 ^ 64 - 2) % 2 ^ 64)
    pure (.request (.emu type req))
  | .routineChange => do
    expect (size = 1 + 3 * 8)
    let event ← u8
    let eip ← u64
    let esp ← u64
    let callEip ← u64
    pure (.callback (.routineChange event eip esp callEip))
  | .routineAnnounce => do
    let eip ← u64
    let name ← takeString
    let imgname ← takeString
    let offset ← u64
    let line ← u32
    let column ← u32
    let filename ← takeString
    pure (.callback (.routineAnnounce eip name imgname offset line column filename))
  | _ => do
    let _ ← take .truncated size
    pure .skipped

def readOther : Parse Record := do
  let _ ← u8
  let code ← u8
  let size ← takeNat .truncated 4
  match RecOtherType.ofCode? code with
  | some type => readPayload type size
  | none => do
    let _ ← take .truncated size
    pure .skipped

def readRecord : Parse Record := do
  let byte ← peek .truncated
  if byte = 0 then readOther
  else if byte &&& 0xf ≠ 0 then readInstruction
  else readInstructionExt

def readHeader : Parse Nat := do
  let magic ← takeNat .truncated 4
  let size ← takeNat .truncated 4
  let options ← takeNat .truncated 8
  check (magic = 0x54464953) .badMagic
  check (size = 0) .badHeaderSize
  check (options / 16 = 0) .unknownOptions
  pure options

/-! ## State -/

/-- `next` is the instruction that came after this one the first time. -/
structure StaticInstruction where
  addr : IntPtr
  size : Nat
  data : List Byte
  next : Option Nat
  deriving DecidableEq

/-- What `Read` returns, with the fields of its static instruction. -/
structure Instruction where
  addr : IntPtr
  size : Nat
  data : List Byte
  addresses : List IntPtr
  isBranch : Bool
  taken : Bool
  isPredicate : Bool
  executed : Bool
  deriving DecidableEq

structure Handlers where
  instructionCount : BitVec 32 → BitVec 32
  syscall : BitVec 16 → List Byte → IntPtr
  newThread : BitVec 32
  join : BitVec 32 → BitVec 32
  fork : BitVec 32
  magic : IntPtr → IntPtr → IntPtr → IntPtr
  emu : BitVec 16 → List Byte → Bool × BitVec 192

def Handlers.respond (h : Handlers) : Request → RecOtherType × List Byte
  | .instructionCount icount => (.syncResponse, bytesOf 4 (h.instructionCount icount).toNat)
  | .syscall number args => (.syscallResponse, word64 (h.syscall number args))
  | .newThread => (.newThreadResponse, bytesOf 4 h.newThread.toNat)
  | .join thread => (.joinResponse, bytesOf 4 (h.join thread).toNat)
  | .sync => (.syncResponse, bytesOf 4 (h.instructionCount 0).toNat)
  | .fork => (.forkResponse, bytesOf 4 h.fork.toNat)
  | .magic a b c => (.magicInstructionResponse, word64 (h.magic a b c))
  | .emu type req =>
    let (handled, reply) := h.emu type req
    (.emuResponse, BitVec.ofNat 8 handled.toNat :: bytesOf 24 reply.toNat)

abbrev Page := Nat → Byte

/-- What surrounds a reader: its handlers, and what fresh memory holds. -/
structure ReaderEnv where
  handlers : Handlers
  freshPage : IntPtr → Page

/-- Static instructions are never freed; pointers to them are indices. -/
structure Reader where
  input : List Byte
  opened : Bool
  lastAddress : IntPtr
  icache : IntPtr → Option Page
  sinsts : List StaticInstruction
  scache : IntPtr → Option Nat
  lastSinst : Option Nat
  vcache : IntPtr → Option IntPtr
  traceHasPa : Bool
  seenEnd : Bool
  response : List Byte

def storeCode (fresh : IntPtr → Page) :
    Nat → (IntPtr → Option Page) → IntPtr → List Byte → IntPtr → Option Page
  | 0, icache, _, _ => icache
  | rounds + 1, icache, address, bytes =>
    if bytes.length > 0 then
      let base := pageOf address
      let offset := offsetOf address
      let amount := min bytes.length (icacheSize - offset)
      let page : Page := (icache base).getD (fresh base)
      let filled : Page := fun i =>
        if offset ≤ i ∧ i < offset + amount then bytes.getD (i - offset) 0 else page i
      storeCode fresh rounds (update icache base (some filled))
        (base + BitVec.ofNat 64 icacheSize) (bytes.drop amount)
    else icache

/-- The loop of `decodeInstruction`. -/
def copyCode (icache : IntPtr → Option Page) :
    Nat → IntPtr → Nat → Nat → Except SiftFault (List Byte)
  | 0, _, _, _ => .ok []
  | rounds + 1, base, offset, size =>
    if size > 0 then
      let amount := min size (icacheSize - offset)
      match icache base with
      | none => .error .missingCode
      | some page => do
        let rest ← copyCode icache rounds (base + BitVec.ofNat 64 icacheSize) 0 (size - amount)
        .ok ((List.range amount).map (fun i => page (offset + i)) ++ rest)
    else .ok []

namespace Reader

def new (bytes : List Byte) : Reader where
  input := bytes
  opened := false
  lastAddress := 0
  icache := fun _ => none
  sinsts := []
  scache := fun _ => none
  lastSinst := none
  vcache := fun _ => none
  traceHasPa := false
  seenEnd := false
  response := []

variable (r : Reader)

def initStream : Except SiftFault Reader := do
  let (options, rest) ← readHeader.run r.input
  .ok { r with input := rest, opened := true, traceHasPa := options / 8 % 2 = 1 }

def decodeInstruction (addr : IntPtr) (size : Nat) : Except SiftFault StaticInstruction := do
  let data ← copyCode r.icache size (pageOf addr) (offsetOf addr) size
  .ok ⟨addr, size, data, none⟩

/-- The successor of the last instruction, if it is at `addr`. -/
def predicted (addr : IntPtr) : Option Nat :=
  r.lastSinst.bind fun last => (r.sinsts[last]?).bind fun s => s.next.bind fun p =>
    (r.sinsts[p]?).bind fun t => if t.addr = addr then some p else none

def follow (p : Nat) : Reader :=
  let sinsts :=
    match r.lastSinst with
    | none => r.sinsts
    | some last =>
      r.sinsts.modify last fun s => if s.next = none then { s with next := some p } else s
  { r with sinsts, lastSinst := some p }

def getStaticInstruction (addr : IntPtr) (size : Nat) : Except SiftFault (Nat × Reader) :=
  match r.predicted addr with
  | some p => .ok (p, r.follow p)
  | none =>
    match r.scache addr with
    | some p => do
      require (∀ s ∈ r.sinsts[p]?, s.size = size) .sizeMismatch
      .ok (p, r.follow p)
    | none => do
      let s ← r.decodeInstruction addr size
      let p := r.sinsts.length
      .ok (p, { r with
        sinsts := r.sinsts ++ [s]
        scache := update r.scache addr (some p) }.follow p)

def deliver (addr : IntPtr) (size : Nat) (isBranch taken isPredicate executed : Bool)
    (addresses : List IntPtr) : Except SiftFault (Instruction × Reader) := do
  let r := { r with lastAddress := addr + BitVec.ofNat 64 size }
  let (p, r) ← r.getStaticInstruction addr size
  match r.sinsts[p]? with
  | some s =>
    .ok (⟨s.addr, s.size, s.data, addresses, isBranch, taken, isPredicate, executed⟩, r)
  | none => .error .missingCode

def answer (env : ReaderEnv) (r : Reader) (q : Request) : Reader :=
  let (type, payload) := env.handlers.respond q
  { r with response := r.response ++ otherHeader type payload.length ++ payload }

inductive Outcome where
  | instruction (i : Instruction)
  | finished
  | afterEnd
  deriving DecidableEq

/-- What a record makes `Read` do: return, or go on after some callbacks. -/
def process (env : ReaderEnv) (r : Reader) :
    Record → Except SiftFault ((Outcome ⊕ List Callback) × Reader)
  | .endTrace => .ok (.inl .finished, { r with seenEnd := true })
  | .icache address bytes =>
    let page : Page := fun i => bytes.getD i 0
    .ok (.inr [], { r with icache := update r.icache address (some page) })
  | .icacheVariable address bytes =>
    .ok (.inr [], { r with icache := storeCode env.freshPage bytes.length r.icache address bytes })
  | .logical2Physical vp pp =>
    .ok (.inr [], { r with vcache := update r.vcache vp (some pp) })
  | .callback c => .ok (.inr [c], r)
  | .request q => .ok (.inr [], r.answer env q)
  | .skipped => .ok (.inr [], r)
  | .instruction size isBranch taken addresses => do
    let (i, r) ← r.deliver r.lastAddress size isBranch taken false true addresses
    .ok (.inl (.instruction i), r)
  | .instructionExt addr size isBranch taken isPredicate executed addresses => do
    let (i, r) ← r.deliver addr size isBranch taken isPredicate executed addresses
    .ok (.inl (.instruction i), r)

/-- The loop of `Read`, with the callbacks invoked so far. Every record has at least
one byte, so the length of the stream bounds the rounds. -/
def readLoop (env : ReaderEnv) :
    Nat → List Callback → Reader → Except SiftFault ((List Callback × Outcome) × Reader)
  | 0, _, _ => .error .outOfRounds
  | rounds + 1, invoked, r =>
    if r.seenEnd then .ok ((invoked, .afterEnd), r)
    else do
      let (record, rest) ← readRecord.run r.input
      let (next, r) ← { r with input := rest }.process env record
      match next with
      | .inl outcome => .ok ((invoked, outcome), r)
      | .inr callbacks => readLoop env rounds (invoked ++ callbacks) r

/-- `Read`, with the callbacks it invokes. -/
def read (env : ReaderEnv) (r : Reader) : Except SiftFault ((List Callback × Outcome) × Reader) :=
  do
    let r ← if r.opened then .ok r else r.initStream
    r.readLoop env (r.input.length + 1) []

/-- Successive calls of `Read`. -/
def readMany (env : ReaderEnv) : Nat → Reader → Except SiftFault (List (List Callback × Outcome))
  | 0, _ => .ok []
  | calls + 1, r => do
    let (result, r) ← r.read env
    let results ← readMany env calls r
    .ok (result :: results)

end Reader

end Sniper.Sift
