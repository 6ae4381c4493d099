import Sniper.Sift.Writer
import Sniper.Sift.Code

/-!
# Records survive the stream

Every record that the writer emits is taken from the stream as the same record, by
exactly the bytes that were written. Output of the largest size is the exception:
its record has a size that does not fit, and the reader rejects it.
-/

namespace Sniper.Sift

open ByteStream BitVec SiftFault Reads Writer RecOtherType

lemma bytesOf_one (b : Byte) : bytesOf 1 b.toNat = [b] := by
  simp [bytesOf]

lemma reads_u8 (b : Byte) : Reads u8 [b] b := by
  have read := reads_takeWord truncated (k := 1) (by decide) b
  rwa [bytesOf_one] at read

lemma reads_u32 (x : BitVec 32) : Reads u32 (bytesOf 4 x.toNat) x := reads_takeWord _ (by decide) x

lemma reads_u64 (x : IntPtr) : Reads u64 (word64 x) x := reads_takeWord _ (by decide) x

lemma reads_byte (b : Byte) : Reads (takeNat truncated 1) [b] b.toNat := by
  have read := reads_takeNat truncated 1 b.toNat
  have small : b.toNat < 256 ^ 1 := b.isLt
  rwa [bytesOf_one, Nat.mod_eq_of_lt small] at read

lemma reads_addresses (addresses : List IntPtr) :
    Reads (takeWords truncated 64 8 addresses.length) (addresses.flatMap word64) addresses :=
  reads_takeWords _ (by decide) addresses

lemma reads_takeString (s : CString) (short : s.val.length < 65535) :
    Reads takeString (sizedString s) s.val := by
  have fits : (s.val.length + 1) % 2 ^ 16 = s.val.length + 1 := Nat.mod_eq_of_lt (by omega)
  have whole : s.stored.length = s.val.length + 1 := by simp [CString.stored]
  have length : Reads (takeNat truncated 2) (bytesOf 2 (s.val.length + 1)) (s.val.length + 1) := by
    have read := reads_takeNat truncated 2 (s.val.length + 1)
    rwa [Nat.mod_eq_of_lt (by omega)] at read
  have content : Reads (take truncated (s.val.length + 1) >>= fun buffer =>
      pure (cString buffer)) s.stored s.val := by
    have read := (Reads.take truncated whole).last (g := cString)
    rwa [cString_stored] at read
  rw [sizedString, fits, ← whole, List.take_length, whole]
  exact length.bind content

/-! ## Instructions -/

section

variable (size count : Nat) (isBranch taken isPredicate executed : Bool)

lemma packInstruction_toNat (small : size < 16) (few : count < 4) :
    (packInstruction size count isBranch taken).toNat =
      size + count * 16 + isBranch.toNat * 64 + taken.toNat * 128 := by
  have one := isBranch.toNat_lt
  have two := taken.toNat_lt
  rw [packInstruction, toNat_ofNat]
  omega

lemma packFlags_toNat (few : count < 4) :
    (packFlags count isBranch taken isPredicate executed).toNat =
      count + isBranch.toNat * 4 + taken.toNat * 8 + isPredicate.toNat * 16 +
        executed.toNat * 32 := by
  have one := isBranch.toNat_lt
  have two := taken.toNat_lt
  have three := isPredicate.toNat_lt
  have four := executed.toNat_lt
  rw [packFlags, toNat_ofNat]
  omega

end

lemma flag_eq {b : Bool} {x : Nat} (bit : x = b.toNat) : decide (x = 1) = b := by
  cases b <;> simp [bit]

lemma low_nibble (b : Byte) : (b &&& 0xf).toNat = b.toNat % 16 := by
  rw [toNat_and]
  exact Nat.and_two_pow_sub_one_eq_mod b.toNat 4

lemma reads_simple (i : InsnCall) (some : 1 ≤ i.size) (small : i.size ≤ 15)
    (few : i.addresses.length ≤ 2) :
    Reads readRecord (packInstruction i.size i.addresses.length i.isBranch i.taken ::
      i.addresses.flatMap word64) (.instruction i.size i.isBranch i.taken i.addresses) := by
  have packed := packInstruction_toNat i.size i.addresses.length i.isBranch i.taken (by omega)
    (by omega)
  generalize packInstruction i.size i.addresses.length i.isBranch i.taken = b at packed
  have branch := i.isBranch.toNat_lt
  have take := i.taken.toNat_lt
  have nonzero : b ≠ 0 := by
    rintro rfl
    simp at packed
    omega
  have simple : b &&& 0xf ≠ 0 := by
    intro zero
    have nibble := low_nibble b
    rw [zero] at nibble
    simp at nibble
    omega
  have read : Reads readInstruction (b :: i.addresses.flatMap word64)
      (.instruction i.size i.isBranch i.taken i.addresses) := by
    have sizeField : b.toNat % 16 = i.size := by omega
    have countField : b.toNat / 16 % 4 = i.addresses.length := by omega
    have branchField := flag_eq (b := i.isBranch) (x := b.toNat / 64 % 2) (by omega)
    have takenField := flag_eq (b := i.taken) (x := b.toNat / 128 % 2) (by omega)
    refine (reads_byte b).bind ?_
    rw [sizeField, countField, branchField, takenField]
    exact (reads_addresses i.addresses).last
  refine peek ?_
  rw [if_neg nonzero, if_pos simple]
  exact read

lemma reads_ext (i : InsnCall) (some : 1 ≤ i.size) (small : i.size ≤ 15)
    (few : i.addresses.length ≤ 2) :
    Reads readRecord (BitVec.ofNat 8 (i.size % 16 * 16) ::
      packFlags i.addresses.length i.isBranch i.taken i.isPredicate i.executed ::
      (word64 i.addr ++ i.addresses.flatMap word64))
      (.instructionExt i.addr i.size i.isBranch i.taken i.isPredicate i.executed i.addresses) := by
  have packed := packFlags_toNat i.addresses.length i.isBranch i.taken i.isPredicate i.executed
    (by omega)
  generalize packFlags i.addresses.length i.isBranch i.taken i.isPredicate i.executed = flags
    at packed
  have first : (BitVec.ofNat 8 (i.size % 16 * 16)).toNat = i.size * 16 := by
    rw [toNat_ofNat]
    omega
  generalize BitVec.ofNat 8 (i.size % 16 * 16) = b at first
  have branch := i.isBranch.toNat_lt
  have take := i.taken.toNat_lt
  have predicate := i.isPredicate.toNat_lt
  have exec := i.executed.toNat_lt
  have nonzero : b ≠ 0 := by
    rintro rfl
    simp at first
    omega
  have extended : b &&& 0xf = 0 := by
    apply eq_of_toNat_eq
    rw [low_nibble]
    simp
    omega
  have read : Reads readInstructionExt (b :: flags :: (word64 i.addr ++ i.addresses.flatMap word64))
      (.instructionExt i.addr i.size i.isBranch i.taken i.isPredicate i.executed i.addresses) := by
    have sizeField : b.toNat / 16 % 16 = i.size := by omega
    have countField : flags.toNat % 4 = i.addresses.length := by omega
    have branchField := flag_eq (b := i.isBranch) (x := flags.toNat / 4 % 2) (by omega)
    have takenField := flag_eq (b := i.taken) (x := flags.toNat / 8 % 2) (by omega)
    have predicateField := flag_eq (b := i.isPredicate) (x := flags.toNat / 16 % 2) (by omega)
    have executedField := flag_eq (b := i.executed) (x := flags.toNat / 32 % 2) (by omega)
    refine (reads_byte b).bind ((reads_byte flags).bind ((reads_u64 i.addr).bind ?_))
    rw [sizeField, countField, branchField, takenField, predicateField, executedField]
    exact (reads_addresses i.addresses).last
  refine peek ?_
  rw [if_neg nonzero, if_neg (not_not.mpr extended)]
  exact read

/-! ## Other records -/

variable {bs : List Byte} {type : RecOtherType}

lemma reads_other {size : Nat} {record : Record}
    (payload : Reads (readPayload type (size % 2 ^ 32)) bs record) :
    Reads readRecord (otherHeader type size ++ bs) record := by
  refine peek ?_
  rw [if_pos rfl]
  refine (reads_u8 0).bind ((reads_u8 type.code).bind ((reads_takeNat _ 4 size).bind ?_))
  rw [ofCode?_code]
  exact payload

lemma rejects_other {size : Nat} {e : SiftFault}
    (payload : Rejects (readPayload type (size % 2 ^ 32)) bs e) :
    Rejects readRecord (otherHeader type size ++ bs) e := by
  refine Rejects.peek ?_
  rw [if_pos rfl]
  refine (reads_u8 0).bind_rejects ((reads_u8 type.code).bind_rejects
    ((reads_takeNat _ 4 size).bind_rejects ?_))
  rw [ofCode?_code]
  exact payload

lemma reads_end : Reads readRecord (otherHeader .endTrace 0) .endTrace := by
  have payload : Reads (readPayload .endTrace (0 % 2 ^ 32)) [] .endTrace := check rfl (pure _)
  have read := reads_other payload
  rwa [List.append_nil] at read

lemma reads_icache (base : IntPtr) {bytes : List Byte} (length : bytes.length = icacheSize) :
    Reads readRecord (otherHeader .icache (8 + icacheSize) ++ (word64 base ++ bytes))
      (.icache base bytes) :=
  reads_other (check rfl ((reads_u64 base).bind (take _ length).last))

lemma reads_icacheVariable (addr : IntPtr) (bytes : List Byte) (small : bytes.length < 16) :
    Reads readRecord (otherHeader .icacheVariable (8 + bytes.length) ++ (word64 addr ++ bytes))
      (.icacheVariable addr bytes) :=
  reads_other ((reads_u64 addr).bind (Reads.take _ (by omega)).last)

lemma reads_cacheOnly (icount : Byte) (type : CacheOnlyType) (eip address : IntPtr) :
    Reads readRecord (otherHeader .cacheOnly (1 + 1 + 8 + 8) ++
      icount :: type.code :: (word64 eip ++ word64 address))
      (.callback (.cacheOnly icount type.code eip address)) :=
  reads_other (check rfl ((reads_u8 icount).bind ((reads_u8 type.code).bind
    ((reads_u64 eip).bind (reads_u64 address).last))))

lemma reads_routineChange (event : RoutineOpType) (eip esp callEip : IntPtr) :
    Reads readRecord (otherHeader .routineChange (1 + 3 * 8) ++
      event.code :: (word64 eip ++ (word64 esp ++ word64 callEip)))
      (.callback (.routineChange event.code eip esp callEip)) :=
  reads_other (check rfl ((reads_u8 event.code).bind ((reads_u64 eip).bind
    ((reads_u64 esp).bind (reads_u64 callEip).last))))

lemma reads_routineAnnounce (eip : IntPtr) (name imgname : CString) (offset : IntPtr)
    (line column : BitVec 32) (filename : CString) (shortName : name.val.length < 65535)
    (shortImage : imgname.val.length < 65535) (shortFile : filename.val.length < 65535)
    (size : Nat) :
    Reads readRecord (otherHeader .routineAnnounce size ++
      (word64 eip ++ (sizedString name ++ (sizedString imgname ++ (word64 offset ++
        (bytesOf 4 line.toNat ++ (bytesOf 4 column.toNat ++ sizedString filename)))))))
      (.callback (.routineAnnounce eip name.val imgname.val offset line column filename.val)) :=
  reads_other ((reads_u64 eip).bind ((reads_takeString name shortName).bind
    ((reads_takeString imgname shortImage).bind ((reads_u64 offset).bind
      ((reads_u32 line).bind ((reads_u32 column).bind
        (reads_takeString filename shortFile).last))))))

lemma reads_output (fd : Byte) {data : List Byte} (some : 1 ≤ data.length)
    (fits : 1 + data.length < 2 ^ 32) :
    Reads readRecord (otherHeader .output (1 + data.length) ++ fd :: data)
      (.callback (.output fd data)) := by
  refine reads_other ?_
  rw [Nat.mod_eq_of_lt fits]
  exact Reads.check (by omega) ((reads_u8 fd).bind (Reads.take _ (by omega)).last)

lemma rejects_output (bs : List Byte) :
    Rejects readRecord (otherHeader .output (1 + (2 ^ 32 - 1)) ++ bs) (.badSize output.code) := by
  refine rejects_other ?_
  exact Rejects.check (by simp)

end Sniper.Sift
