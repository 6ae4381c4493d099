import Mathlib.Data.BitVec

/-!
# Cache states and block descriptors

`CacheState` and `CacheBlockInfo`. A block descriptor is valid when its tag is
not the all-ones tag; the state is a separate field, and a freshly inserted
block is valid while its state is still INVALID. The owner, the usage bits and
the option bits are read by statistics only and are left out.
-/

namespace Sniper

/-- `IntPtr`: 64-bit addresses and tags. -/
abbrev IntPtr := BitVec 64

/-- `INVALID_ADDRESS`. -/
def invalidAddress : IntPtr := BitVec.allOnes 64

/-- `CacheState::cstate_t` without the states used only for reporting. -/
inductive CState where
  | invalid
  | shared
  | sharedUpgrading
  | exclusive
  | owned
  | modified
  deriving DecidableEq, Repr

namespace CState

def readable : CState → Bool
  | modified | owned | shared | exclusive => true
  | invalid | sharedUpgrading => false

def writable : CState → Bool
  | modified => true
  | _ => false

end CState

/-- `Core::mem_op_t`. -/
inductive MemOp where
  | read
  | readEx
  | write
  deriving DecidableEq, Repr

/-- The switch of `operationPermissibleinCache`. -/
def MemOp.permits : MemOp → CState → Bool
  | read, s => s.readable
  | readEx, s => s.writable
  | write, s => s.writable

lemma MemOp.permits_modified (op : MemOp) : op.permits .modified = true := by
  cases op <;> rfl

lemma MemOp.permits_ne_invalid {op : MemOp} {s : CState} (h : op.permits s = true) :
    s ≠ .invalid := by
  rintro rfl
  cases op <;> cases h

/-- `(IntPtr) ~0`, the tag of a block that holds nothing. -/
def noTag : IntPtr := BitVec.allOnes 64

@[ext] structure CacheBlockInfo where
  tag : IntPtr
  cstate : CState
  deriving DecidableEq, Repr

namespace CacheBlockInfo

/-- The default constructor, which is also what `invalidate` leaves behind. -/
def empty : CacheBlockInfo := ⟨noTag, .invalid⟩

def isValid (b : CacheBlockInfo) : Bool := b.tag != noTag

lemma isValid_iff (b : CacheBlockInfo) : b.isValid = true ↔ b.tag ≠ noTag := by
  simp [isValid]

@[simp] lemma empty_isValid : empty.isValid = false := by simp [isValid, empty]

@[simp] lemma empty_tag : empty.tag = noTag := rfl

@[simp] lemma empty_cstate : empty.cstate = .invalid := rfl

end CacheBlockInfo

end Sniper
