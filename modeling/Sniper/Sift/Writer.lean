import Sniper.Sift.Format

/-!
# Writing a trace

`Sift::Writer`, without the calls that wait for a response and without physical
addresses. The reader needs the bytes of every instruction: the writer sends them
before the first record that uses them, in whole pages or instruction by
instruction. A compressed trace is modelled by the bytes that were compressed.
-/

namespace Sniper.Sift

open ByteStream Fallible

/-- The arguments of the constructor. `getCodeFunc` copies bytes of the program. -/
structure WriterConfig where
  getCode : IntPtr → Byte
  useCompression : Bool
  arch32 : Bool
  requiresIcachePerInsn : Bool

/-- The arguments of `Writer::Instruction`. -/
structure InsnCall where
  addr : IntPtr
  size : Nat
  addresses : List IntPtr
  isBranch : Bool
  taken : Bool
  isPredicate : Bool
  executed : Bool

abbrev Buffer := { data : List Byte // data.length < 2 ^ 32 }

inductive Call where
  | instruction (i : InsnCall)
  | output (fd : Byte) (data : Buffer)
  | cacheOnly (icount : Byte) (type : CacheOnlyType) (eip address : IntPtr)
  | routineChange (event : RoutineOpType) (eip esp callEip : IntPtr)
  | routineAnnounce (eip : IntPtr) (name imgname : CString) (offset : IntPtr)
      (line column : BitVec 32) (filename : CString)

structure Writer where
  output : List Byte
  lastAddress : IntPtr
  icache : IntPtr → Bool

/-- The byte of `rec.Instruction`. -/
def packInstruction (size numAddresses : Nat) (isBranch taken : Bool) : Byte :=
  BitVec.ofNat 8 (size % 16 + numAddresses % 4 * 16 + isBranch.toNat * 64 + taken.toNat * 128)

/-- The second byte of `rec.InstructionExt`. -/
def packFlags (numAddresses : Nat) (isBranch taken isPredicate executed : Bool) : Byte :=
  BitVec.ofNat 8 (numAddresses % 4 + isBranch.toNat * 4 + taken.toNat * 8 +
    isPredicate.toNat * 16 + executed.toNat * 32)

namespace WriterConfig

variable (cfg : WriterConfig)

/-- `CompressionZlib`, `ArchIA32` and `IcacheVariable`. -/
def options : Nat :=
  cfg.useCompression.toNat + cfg.arch32.toNat * 2 + cfg.requiresIcachePerInsn.toNat * 4

def header : List Byte := bytesOf 4 0x54464953 ++ bytesOf 4 0 ++ bytesOf 8 cfg.options

end WriterConfig

namespace Writer

variable (cfg : WriterConfig)

def new : Writer where
  output := cfg.header
  lastAddress := 0
  icache := fun _ => false

def write (w : Writer) (bytes : List Byte) : Writer := { w with output := w.output ++ bytes }

def markSent (w : Writer) (a : IntPtr) : Writer :=
  { w with icache := Function.update w.icache a true }

def sendInsnCode (w : Writer) (addr : IntPtr) (size : Nat) : Writer :=
  if w.icache addr then w
  else
    (w.write (otherHeader .icacheVariable (8 + size) ++ word64 addr ++
      codeBytes cfg.getCode addr size)).markSent addr

def sendPage (w : Writer) (base : IntPtr) : Writer :=
  if w.icache base then w
  else
    (w.write (otherHeader .icache (8 + icacheSize) ++ word64 base ++
      codeBytes cfg.getCode base icacheSize)).markSent base

def sendPages : Nat → Writer → IntPtr → IntPtr → Except SiftFault Writer
  | 0, _, _, _ => .error .endless
  | rounds + 1, w, base, last =>
    if base ≤ last then
      sendPages rounds (sendPage cfg w base) (base + BitVec.ofNat 64 icacheSize) last
    else .ok w

/-- There are `2 ^ 52` pages: a loop that has visited more has come back to where it
started, and goes on for ever. -/
def sendCode (w : Writer) (addr : IntPtr) (size : Nat) : Except SiftFault Writer :=
  if cfg.requiresIcachePerInsn then .ok (sendInsnCode cfg w addr size)
  else sendPages cfg (2 ^ 52 + 1) w (pageOf addr) (pageOf (addr + BitVec.ofNat 64 size - 1))

def sendRecord (w : Writer) (i : InsnCall) : Writer :=
  let w :=
    if i.addr = w.lastAddress ∧ ¬ i.isPredicate then
      w.write [packInstruction i.size i.addresses.length i.isBranch i.taken]
    else
      { w.write (BitVec.ofNat 8 (i.size % 16 * 16) ::
          packFlags i.addresses.length i.isBranch i.taken i.isPredicate i.executed ::
          word64 i.addr) with lastAddress := i.addr }
  let w := w.write (i.addresses.flatMap word64)
  { w with lastAddress := w.lastAddress + BitVec.ofNat 64 i.size }

variable {i : InsnCall} {w : Writer}

lemma sendRecord_simple (simple : i.addr = w.lastAddress ∧ ¬ i.isPredicate) :
    w.sendRecord i = ⟨w.output ++ (packInstruction i.size i.addresses.length i.isBranch i.taken ::
      i.addresses.flatMap word64), i.addr + BitVec.ofNat 64 i.size, w.icache⟩ := by
  rw [sendRecord, if_pos simple]
  simp [write, simple.1]

lemma sendRecord_ext (extended : ¬ (i.addr = w.lastAddress ∧ ¬ i.isPredicate)) :
    w.sendRecord i = ⟨w.output ++ (BitVec.ofNat 8 (i.size % 16 * 16) ::
      packFlags i.addresses.length i.isBranch i.taken i.isPredicate i.executed ::
      (word64 i.addr ++ i.addresses.flatMap word64)), i.addr + BitVec.ofNat 64 i.size,
      w.icache⟩ := by
  rw [sendRecord, if_neg extended]
  simp [write]

def instruction (w : Writer) (i : InsnCall) : Except SiftFault Writer := do
  require (i.size < 16) .sizeTooLarge
  require (i.addresses.length ≤ 2) .tooManyAddresses
  let w ← sendCode cfg w i.addr i.size
  .ok (w.sendRecord i)

def sizedString (s : CString) : List Byte :=
  let length := (s.val.length + 1) % 2 ^ 16
  bytesOf 2 length ++ s.stored.take length

def routineAnnounce (w : Writer) (eip : IntPtr) (name imgname : CString) (offset : IntPtr)
    (line column : BitVec 32) (filename : CString) : Writer :=
  let payload := word64 eip ++ (sizedString name ++ (sizedString imgname ++ (word64 offset ++
    (bytesOf 4 line.toNat ++ (bytesOf 4 column.toNat ++ sizedString filename)))))
  w.write (otherHeader .routineAnnounce payload.length ++ payload)

def call (w : Writer) : Call → Except SiftFault Writer
  | .instruction i => instruction cfg w i
  | .output fd data =>
    .ok (w.write (otherHeader .output (1 + data.val.length) ++ fd :: data.val))
  | .cacheOnly icount type eip address =>
    .ok (w.write (otherHeader .cacheOnly (1 + 1 + 8 + 8) ++
      icount :: type.code :: (word64 eip ++ word64 address)))
  | .routineChange event eip esp callEip =>
    .ok (w.write (otherHeader .routineChange (1 + 3 * 8) ++
      event.code :: (word64 eip ++ (word64 esp ++ word64 callEip))))
  | .routineAnnounce eip name imgname offset line column filename =>
    .ok (w.routineAnnounce eip name imgname offset line column filename)

/-- `Writer::End`. -/
def finish (w : Writer) : Writer := w.write (otherHeader .endTrace 0)

end Writer

end Sniper.Sift
