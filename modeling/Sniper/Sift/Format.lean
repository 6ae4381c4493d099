import Sniper.Cache.Block
import Sniper.Lib.ByteStream
import Sniper.Lib.Fallible

/-!
# The trace format

The records of a SIFT trace as bytes. An instruction is one byte when it follows
the previous one, and a longer record otherwise; the low half of the first byte
tells the two apart. Everything else starts with a zero byte, a type and a size.
-/

namespace Sniper.Sift

open ByteStream BitVec

inductive SiftFault where
  | sizeTooLarge
  | tooManyAddresses
  | endless
  | badMagic
  | badHeaderSize
  | unknownOptions
  | truncated
  | badSize (type : Byte)
  | missingCode
  | sizeMismatch
  | outOfRounds
  | nonzeroRecord
  | unexpectedType
  | badOperation
  | wrongAddress
  deriving DecidableEq, Repr

/-- `RecOtherType`. -/
inductive RecOtherType where
  | icache
  | output
  | syscallRequest
  | syscallResponse
  | newThread
  | newThreadResponse
  | memoryRequest
  | memoryResponse
  | join
  | joinResponse
  | endResponse
  | icacheVariable
  | sync
  | syncResponse
  | logical2Physical
  | magicInstruction
  | magicInstructionResponse
  | routineChange
  | routineAnnounce
  | emu
  | emuResponse
  | fork
  | forkResponse
  | instructionCount
  | cacheOnly
  | endTrace
  deriving DecidableEq, Repr

namespace RecOtherType

def code : RecOtherType → Byte
  | icache => 0
  | output => 1
  | syscallRequest => 2
  | syscallResponse => 3
  | newThread => 4
  | newThreadResponse => 5
  | memoryRequest => 6
  | memoryResponse => 7
  | join => 8
  | joinResponse => 9
  | endResponse => 10
  | icacheVariable => 11
  | sync => 12
  | syncResponse => 13
  | logical2Physical => 14
  | magicInstruction => 15
  | magicInstructionResponse => 16
  | routineChange => 17
  | routineAnnounce => 18
  | emu => 19
  | emuResponse => 20
  | fork => 21
  | forkResponse => 22
  | instructionCount => 23
  | cacheOnly => 24
  | endTrace => 0xff

def all : List RecOtherType :=
  [icache, output, syscallRequest, syscallResponse, newThread, newThreadResponse, memoryRequest,
    memoryResponse, join, joinResponse, endResponse, icacheVariable, sync, syncResponse,
    logical2Physical, magicInstruction, magicInstructionResponse, routineChange, routineAnnounce,
    emu, emuResponse, fork, forkResponse, instructionCount, cacheOnly, endTrace]

def ofCode? (b : Byte) : Option RecOtherType := all.find? fun t => t.code = b

lemma ofCode?_code (t : RecOtherType) : ofCode? t.code = some t := by
  cases t <;> decide

end RecOtherType

/-- `CacheOnlyType`. -/
inductive CacheOnlyType where
  | branchTaken
  | branchNotTaken
  | memRead
  | memWrite
  | memIcache
  deriving DecidableEq, Repr

def CacheOnlyType.code : CacheOnlyType → Byte
  | branchTaken => 0
  | branchNotTaken => 1
  | memRead => 2
  | memWrite => 3
  | memIcache => 4

/-- `RoutineOpType`. -/
inductive RoutineOpType where
  | enter
  | exit
  | assert
  deriving DecidableEq, Repr

def RoutineOpType.code : RoutineOpType → Byte
  | enter => 0
  | exit => 1
  | assert => 2

abbrev CString := { s : List Byte // (0 : Byte) ∉ s }

def CString.stored (s : CString) : List Byte := s.val ++ [0]

def cString (buffer : List Byte) : List Byte := buffer.takeWhile fun b => b != 0

lemma cString_stored (s : CString) : cString s.stored = s.val := by
  have nonzero : ∀ b ∈ s.val, (b != 0) = true := by
    intro b hb
    simp only [bne_iff_ne]
    rintro rfl
    exact s.2 hb
  rw [cString, CString.stored, List.takeWhile_append_of_pos nonzero]
  simp

inductive Callback where
  | output (fd : Byte) (data : List Byte)
  | cacheOnly (icount type : Byte) (eip address : IntPtr)
  | routineChange (event : Byte) (eip esp callEip : IntPtr)
  | routineAnnounce (eip : IntPtr) (name imgname : List Byte) (offset : IntPtr)
      (line column : BitVec 32) (filename : List Byte)
  deriving DecidableEq

/-- Records that the reader answers through its response stream. -/
inductive Request where
  | instructionCount (icount : BitVec 32)
  | syscall (number : BitVec 16) (args : List Byte)
  | newThread
  | join (thread : BitVec 32)
  | sync
  | fork
  | magic (a b c : IntPtr)
  | emu (type : BitVec 16) (req : List Byte)
  deriving DecidableEq

inductive Record where
  | instruction (size : Nat) (isBranch taken : Bool) (addresses : List IntPtr)
  | instructionExt (addr : IntPtr) (size : Nat) (isBranch taken isPredicate executed : Bool)
      (addresses : List IntPtr)
  | icache (address : IntPtr) (bytes : List Byte)
  | icacheVariable (address : IntPtr) (bytes : List Byte)
  | logical2Physical (vp pp : IntPtr)
  | callback (c : Callback)
  | request (q : Request)
  | skipped
  | endTrace
  deriving DecidableEq

def word64 (x : IntPtr) : List Byte := bytesOf 8 x.toNat

/-- `rec.Other`. The size is a 32-bit field. -/
def otherHeader (type : RecOtherType) (size : Nat) : List Byte :=
  0 :: type.code :: bytesOf 4 size

/-! ## Pages of code -/

def icacheSize : Nat := 0x1000

def offsetMask : IntPtr := 0xfff

/-- The page of an address, `addr & ICACHE_PAGE_MASK`. -/
def pageOf (addr : IntPtr) : IntPtr := addr &&& ~~~offsetMask

/-- `addr & ICACHE_OFFSET_MASK`. -/
def offsetOf (addr : IntPtr) : Nat := (addr &&& offsetMask).toNat

/-- The bytes that a program has at `addr`. -/
def codeBytes (code : IntPtr → Byte) (addr : IntPtr) (size : Nat) : List Byte :=
  (List.range size).map fun i => code (addr + BitVec.ofNat 64 i)

lemma offsetOf_eq (addr : IntPtr) : offsetOf addr = addr.toNat % 4096 := by
  rw [offsetOf, toNat_and]
  exact Nat.and_two_pow_sub_one_eq_mod addr.toNat 12

lemma pageOf_toNat (addr : IntPtr) : (pageOf addr).toNat = addr.toNat / 4096 * 4096 := by
  have shifts : pageOf addr = (addr >>> 12) <<< 12 := by
    ext i hi
    have mask : (~~~offsetMask).getLsbD i = decide (12 ≤ i) := by
      revert i
      decide
    simp only [pageOf, getElem_and, getElem_shiftLeft]
    rw [← getLsbD_eq_getElem, ← getLsbD_eq_getElem, mask]
    by_cases low : i < 12
    · simp [low]
    · have up : 12 + (i - 12) = i := by omega
      simp [low, up, Nat.le_of_not_lt low]
  have bound := addr.isLt
  rw [shifts, toNat_shiftLeft, toNat_ushiftRight, Nat.shiftLeft_eq, Nat.shiftRight_eq_div_pow]
  omega

end Sniper.Sift
