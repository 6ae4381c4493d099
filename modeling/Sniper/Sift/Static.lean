import Sniper.Sift.Reader

/-!
# Static instructions

The reader keeps the static instructions it has decoded, finds them by address, and remembers for
each the one that followed it first. An instruction that is found by address has its size compared
with that of the record; one that is found as the successor of the last instruction has not.
-/

namespace Sniper.Sift

open ByteStream Fallible Option Function

namespace Reader

variable {env : ReaderEnv} {r r' : Reader} {addr : IntPtr} {size : ℕ}

def Cached (r : Reader) : Prop :=
  ∀ a p, r.scache a = some p → ∃ s : StaticInstruction, r.sinsts[p]? = some s ∧ s.addr = a

open Reader

lemma follow_get (r : Reader) (p q : Nat) : ∃ f : StaticInstruction → StaticInstruction,
      (∀ s, (f s).addr = s.addr ∧ (f s).size = s.size ∧ (f s).data = s.data) ∧
      (r.follow p).sinsts[q]? = (r.sinsts[q]?).map f := by
  unfold follow
  cases r.lastSinst with
  | none => exact ⟨id, fun _ => ⟨rfl, rfl, rfl⟩, by simp⟩
  | some last =>
    refine ⟨fun s => if last = q then (if s.next = none then { s with next := some p } else s)
      else s, fun s => ?_, ?_⟩
    · dsimp only
      split
      · split <;> exact ⟨rfl, rfl, rfl⟩
      · exact ⟨rfl, rfl, rfl⟩
    · rw [List.getElem?_modify]
      by_cases here : last = q <;> simp [here]

lemma Cached.follow (cached : r.Cached) (p : ℕ) : (r.follow p).Cached := by
  intro a q known
  obtain ⟨f, same, eq⟩ := follow_get r p q
  obtain ⟨s, here, at_a⟩ := cached a q known
  exact ⟨f s, by rw [eq, here]; rfl, (same s).1.trans at_a⟩

lemma Cached.addStatic (cached : r.Cached) (s : StaticInstruction) : Cached { r with
      sinsts := r.sinsts ++ [s]
      scache := update r.scache s.addr (some r.sinsts.length) } := by
  intro a p known
  dsimp only at known
  by_cases here : a = s.addr
  · rw [here, update_self] at known
    cases known
    exact ⟨s, List.getElem?_concat_length, here.symm⟩
  · rw [update_of_ne here] at known
    obtain ⟨t, inside, at_a⟩ := cached a p known
    have old : p < r.sinsts.length := (List.getElem?_eq_some_iff.mp inside).1
    exact ⟨t, by rw [List.getElem?_append_left old, inside], at_a⟩

/-- The size of the instruction that is expected next, if it is the one at `addr`. -/
def predictedSize (r : Reader) (addr : IntPtr) : Option ℕ :=
  (r.predicted addr).bind fun p => (r.sinsts[p]?).map StaticInstruction.size

lemma predicted_spec {p : ℕ} (predicted : r.predicted addr = some p) :
    ∃ s, r.sinsts[p]? = some s ∧ s.addr = addr ∧ r.predictedSize addr = some s.size := by
  have found := predicted
  simp only [Reader.predicted, bind_eq_some_iff] at found
  obtain ⟨last, -, s, -, q, -, t, here, at_addr⟩ := found
  split at at_addr
  · next same =>
    cases at_addr
    exact ⟨t, here, same, by rw [predictedSize, predicted, bind_some, here, map_some]⟩
  · cases at_addr

lemma predictedSize_eq_none (unpredicted : r.predicted addr = none) :
    r.predictedSize addr = none := by
  rw [predictedSize, unpredicted, bind_none]

lemma Cached.getStaticInstruction (cached : r.Cached) :
    Ensures (r.getStaticInstruction addr size) fun result =>
      (result.2.Cached ∧ result.2.opened = r.opened) ∧ ∃ s, result.2.sinsts[result.1]? = some s ∧
        s.addr = addr ∧ s.size = (r.predictedSize addr).getD size := by
  have found (r₁ : Reader) (p : ℕ) (s : StaticInstruction) (cached₁ : r₁.Cached)
      (isOpen : r₁.opened = r.opened) (here : r₁.sinsts[p]? = some s) (at_addr : s.addr = addr)
      (sized : s.size = (r.predictedSize addr).getD size) :
      ((r₁.follow p).Cached ∧ (r₁.follow p).opened = r.opened) ∧
        ∃ s, (r₁.follow p).sinsts[p]? = some s ∧ s.addr = addr ∧
          s.size = (r.predictedSize addr).getD size := by
    obtain ⟨f, same, eq⟩ := follow_get r₁ p p
    obtain ⟨addr_eq, size_eq, -⟩ := same s
    exact ⟨⟨cached₁.follow p, isOpen⟩, f s, by rw [eq, here]; rfl, addr_eq.trans at_addr,
      size_eq.trans sized⟩
  unfold Reader.getStaticInstruction
  cases predicted : r.predicted addr with
  | some p =>
    obtain ⟨s, here, at_addr, sized⟩ := predicted_spec predicted
    exact .ok (found r p s cached rfl here at_addr (by rw [sized, getD_some]))
  | none =>
    have unsized := predictedSize_eq_none predicted
    dsimp only
    cases known : r.scache addr with
    | some p =>
      obtain ⟨s, here, at_addr⟩ := cached addr p known
      refine .require fun checked => .ok (found r p s cached rfl here at_addr ?_)
      rw [unsized, getD_none]
      exact checked s here
    | none =>
      refine Ensures.bind (P := fun s => s.addr = addr ∧ s.size = size) ?_ ?_
      · exact .after fun data => .ok ⟨rfl, rfl⟩
      · rintro s ⟨rfl, rfl⟩
        exact .ok (found _ _ s (cached.addStatic s) rfl List.getElem?_concat_length rfl
          (by rw [unsized, getD_none]))

lemma Cached.deliver (cached : r.Cached) (isBranch taken isPredicate executed : Bool)
    (addresses : List IntPtr) :
    Ensures (r.deliver addr size isBranch taken isPredicate executed addresses) fun result =>
      (result.2.Cached ∧ result.2.opened = r.opened) ∧ result.1.addr = addr ∧
        result.1.size = (r.predictedSize addr).getD size := by
  refine Ensures.bind (Cached.getStaticInstruction cached) ?_
  rintro ⟨p, r'⟩ ⟨cached', s, here, at_addr, sized⟩
  simp only [here]
  exact .ok ⟨cached', at_addr, sized⟩

lemma deliver_predicted {n : ℕ} (expected : r.predictedSize addr = some n) (size : ℕ)
    (isBranch taken isPredicate executed : Bool) (addresses : List IntPtr) :
    ∃ result, r.deliver addr size isBranch taken isPredicate executed addresses = .ok result := by
  obtain ⟨p, predicted, -⟩ := bind_eq_some_iff.mp expected
  obtain ⟨s, here, -⟩ := predicted_spec predicted
  obtain ⟨f, -, eq⟩ := follow_get { r with lastAddress := addr + BitVec.ofNat 64 size } p p
  have found : getStaticInstruction { r with lastAddress := addr + BitVec.ofNat 64 size }
      addr size = .ok (p, follow { r with lastAddress := addr + BitVec.ofNat 64 size } p) := by
    unfold getStaticInstruction
    rw [show Reader.predicted { r with lastAddress := addr + BitVec.ofNat 64 size } addr = some p
      from predicted]
  have present : (follow { r with lastAddress := addr + BitVec.ofNat 64 size } p).sinsts[p]? =
        some (f s) := by
    rw [eq, here, map_some]
  unfold deliver
  simp only [found, bind, Except.bind, present]
  exact ⟨_, rfl⟩

end Reader

/-! ## Records -/

def Record.insn (r : Reader) : Record → Option (IntPtr × ℕ)
  | .instruction size _ _ _ => some (r.lastAddress, size)
  | .instructionExt addr size _ _ _ _ _ => some (addr, size)
  | _ => none

namespace Reader

variable {env : ReaderEnv} {r r' : Reader} {addr : IntPtr} {size : ℕ} {record : Record}

/-- Both kinds of instruction records are delivered. -/
theorem process_eq (env : ReaderEnv) (insn : record.insn r = some (addr, size)) :
    ∃ isBranch taken isPredicate executed addresses, r.process env record =
      r.deliver addr size isBranch taken isPredicate executed addresses >>= fun (i, r) =>
        .ok (.inl (.instruction i), r) := by
  cases record with
  | instruction size isBranch taken addresses =>
    obtain ⟨rfl, rfl⟩ : r.lastAddress = addr ∧ size = _ := by simpa [Record.insn] using insn
    exact ⟨isBranch, taken, false, true, addresses, rfl⟩
  | instructionExt a size isBranch taken isPredicate executed addresses =>
    obtain ⟨rfl, rfl⟩ : a = addr ∧ size = _ := by simpa [Record.insn] using insn
    exact ⟨isBranch, taken, isPredicate, executed, addresses, rfl⟩
  | icache | icacheVariable | logical2Physical | callback | request | skipped | endTrace =>
    cases insn

lemma Cached.process_insn (cached : r.Cached) (insn : record.insn r = some (addr, size)) :
    Ensures (r.process env record) fun result => (result.2.Cached ∧ result.2.opened = r.opened) ∧
        ∃ i, result.1 = .inl (.instruction i) ∧ i.addr = addr ∧
          i.size = (r.predictedSize addr).getD size := by
  obtain ⟨isBranch, taken, isPredicate, executed, addresses, eq⟩ := process_eq env insn
  rw [eq]
  refine (cached.deliver isBranch taken isPredicate executed addresses).bind ?_
  rintro ⟨i, r'⟩ ⟨kept, at_addr, sized⟩
  exact .ok ⟨kept, i, rfl, at_addr, sized⟩

lemma process_predicted (env : ReaderEnv) (insn : record.insn r = some (addr, size)) {n : ℕ}
    (expected : r.predictedSize addr = some n) : ∃ result, r.process env record = .ok result := by
  obtain ⟨isBranch, taken, isPredicate, executed, addresses, eq⟩ := process_eq env insn
  obtain ⟨result, delivered⟩ :=
    deliver_predicted expected size isBranch taken isPredicate executed addresses
  exact ⟨_, by rw [eq, delivered]; rfl⟩

lemma Cached.process_other (cached : r.Cached) (other : record.insn r = none) :
    Ensures (r.process env record) fun result =>
      (result.2.Cached ∧ result.2.opened = r.opened) ∧ (result.1 = .inl .finished ∨
        ∃ cs, result.1 = .inr cs ∧ result.2.seenEnd = r.seenEnd ∧
          result.2.predictedSize = r.predictedSize) := by
  cases record with
  | instruction | instructionExt => cases other
  | endTrace => exact .ok ⟨⟨cached, rfl⟩, .inl rfl⟩
  | icache | icacheVariable | logical2Physical | callback | request | skipped =>
    exact .ok ⟨⟨cached, rfl⟩, .inr ⟨_, rfl, rfl, rfl⟩⟩

/-! ## Calls of `Read` -/

/-- The address and the size of the instruction record at which the loop of `Read` stops. -/
def justRead (env : ReaderEnv) : ℕ → Reader → Option (IntPtr × ℕ)
  | 0, _ => none
  | rounds + 1, r =>
    match readRecord.run r.input with
    | .error _ => none
    | .ok (record, rest) =>
      match record.insn r with
      | some insn => some insn
      | none =>
        match { r with input := rest }.process env record with
        | .ok (.inr _, r) => justRead env rounds r
        | _ => none

lemma Cached.readLoop (cached : r.Cached) (running : r.seenEnd = false) (rounds : ℕ)
    (invoked : List Callback) :
    Ensures (r.readLoop env rounds invoked) fun result =>
      (result.2.Cached ∧ result.2.opened = r.opened) ∧
        (result.1.2 = .finished ∨ ∃ i addr size, result.1.2 = .instruction i ∧
        justRead env rounds r = some (addr, size) ∧ i.addr = addr ∧
        i.size = (r.predictedSize addr).getD size) := by
  induction rounds generalizing r invoked with
  | zero => exact .error
  | succ rounds ih =>
    rw [Reader.readLoop, if_neg (by simp [running]), justRead]
    cases taken : readRecord.run r.input with
    | error e => exact .error
    | ok next =>
      obtain ⟨record, rest⟩ := next
      have here : Reader.Cached { r with input := rest } := cached
      simp only [bind, Except.bind]
      cases insn : record.insn r with
      | some found =>
        obtain ⟨addr, size⟩ := found
        refine (here.process_insn insn).bind ?_
        rintro ⟨outcome, r'⟩ ⟨kept, i, rfl, at_addr, sized⟩
        exact .ok ⟨kept, .inr ⟨i, addr, size, rfl, rfl, at_addr, sized⟩⟩
      | none =>
        cases processed : Reader.process env { r with input := rest } record with
        | error e => exact .error
        | ok result =>
          obtain ⟨outcome, r'⟩ := result
          obtain ⟨kept, finished | ⟨cs, goes, still, same⟩⟩ := here.process_other insn _ processed
          · dsimp only at finished
            subst finished
            exact .ok ⟨kept, .inl rfl⟩
          · dsimp only at goes still same
            subst goes
            have rest := ih kept.1 (still.trans running) (invoked ++ cs)
            rw [same, show r'.opened = r.opened from kept.2] at rest
            exact rest

lemma readLoop_predicted {rounds : ℕ} (cached : r.Cached) (running : r.seenEnd = false)
    (insn : justRead env rounds r = some (addr, size)) {n : ℕ}
    (expected : r.predictedSize addr = some n) (invoked : List Callback) :
    ∃ result, r.readLoop env rounds invoked = .ok result ∧ result.1.2 ≠ .finished := by
  induction rounds generalizing r invoked with
  | zero => cases insn
  | succ rounds ih =>
    rw [justRead] at insn
    rw [Reader.readLoop, if_neg (by simp [running])]
    cases taken : readRecord.run r.input with
    | error e => simp [taken] at insn
    | ok next =>
      obtain ⟨record, rest⟩ := next
      have here : Reader.Cached { r with input := rest } := cached
      simp only [taken] at insn
      simp only [bind, Except.bind]
      cases kind : record.insn r with
      | some found =>
        simp only [kind, some.injEq] at insn
        subst insn
        obtain ⟨result, processed⟩ :=
          process_predicted env (r := { r with input := rest }) kind expected
        obtain ⟨-, i, returns, -⟩ := here.process_insn kind _ processed
        simp only [processed, returns]
        exact ⟨_, rfl, Outcome.noConfusion⟩
      | none =>
        cases processed : Reader.process env { r with input := rest } record with
        | error e => simp [kind, processed] at insn
        | ok result =>
          obtain ⟨outcome, r'⟩ := result
          obtain ⟨kept, finished | ⟨cs, goes, still, same⟩⟩ := here.process_other kind _ processed
          · dsimp only at finished
            simp [kind, processed, finished] at insn
          · dsimp only at goes still same
            subst goes
            simp only [kind, processed] at insn
            exact ih kept.1 (still.trans running) insn (by rw [same]; exact expected) _

def opening (r : Reader) : Except SiftFault Reader := if r.opened then .ok r else r.initStream

variable (env)

/-- The address and the size of the instruction record at which the next call of `Read` stops. -/
def nextInsn (r : Reader) : Option (IntPtr × ℕ) :=
  match r.opening with
  | .ok r => justRead env (r.input.length + 1) r
  | .error _ => none

/-- If the next call of `Read` returns true, it does so with a static instruction that has the
address and the size of the instruction record it has just read. -/
def ReturnsRecord (r : Reader) : Prop :=
  Ensures (r.read env) fun result => result.1.2 = .finished ∨
    ∃ i, result.1.2 = .instruction i ∧ r.nextInsn env = some (i.addr, i.size)

/-- The end of the trace has not been read, and an instruction that is expected at the address of
the next record has the size of that record. -/
def Expects (r : Reader) : Prop :=
  r.seenEnd = false ∧ ∀ addr size n, r.nextInsn env = some (addr, size) →
    r.predictedSize addr = some n → n = size

/-- The reader after some calls of `Read`. -/
def afterReads (env : ReaderEnv) : ℕ → Reader → Except SiftFault Reader
  | 0, r => .ok r
  | calls + 1, r => do
    let (_, r) ← r.read env
    afterReads env calls r

/-! ## Sequences of calls -/

lemma opening_spec : Ensures r.opening fun r' => r'.opened = true ∧ r'.seenEnd = r.seenEnd ∧
    r'.predictedSize = r.predictedSize ∧ (r.Cached → r'.Cached) := by
  unfold opening
  split
  · next isOpen => exact .ok ⟨isOpen, rfl, rfl, id⟩
  · exact .after fun _ => .ok ⟨rfl, rfl, rfl, id⟩

lemma read_eq (r : Reader) :
    r.read env = r.opening >>= fun r => r.readLoop env (r.input.length + 1) [] := by
  unfold Reader.read opening
  split <;> rfl

variable {env}

/-- What holds between two calls of `Read`. -/
structure Between (r : Reader) : Prop where
  cached : r.Cached
  ended : r.seenEnd = true → r.opened = true

lemma Between.read (between : r.Between) : Ensures (r.read env) fun result => result.2.Between := by
  rw [read_eq]
  refine Ensures.bind opening_spec ?_
  rintro r₁ ⟨isOpen, still, -, keeps⟩
  intro result done
  cases ended : r₁.seenEnd with
  | false =>
    obtain ⟨cached, stays⟩ := (Cached.readLoop (keeps between.cached) ended _ _ result done).1
    exact ⟨cached, fun _ => stays.trans isOpen⟩
  | true =>
    rw [Reader.readLoop, if_pos ended] at done
    cases done
    exact ⟨keeps between.cached, fun _ => isOpen⟩

lemma Between.returnsRecord_iff (between : r.Between) : ReturnsRecord env r ↔ Expects env r := by
  unfold ReturnsRecord Expects nextInsn
  rw [read_eq]
  constructor
  · intro returns
    have running : r.seenEnd = false := by
      by_contra finished
      have ended : r.seenEnd = true := by simpa using finished
      have isOpen : r.opening = .ok r := if_pos (between.ended ended)
      have after := returns ⟨([], .afterEnd), r⟩ (by
        rw [isOpen]
        exact if_pos ended)
      simp at after
    refine ⟨running, fun addr size n insn expected => ?_⟩
    cases opened : r.opening with
    | error e => simp [opened] at insn
    | ok r₁ =>
      obtain ⟨-, still, same, keeps⟩ := opening_spec r₁ opened
      rw [opened] at returns insn
      rw [← same] at expected
      obtain ⟨result, done, notFinished⟩ :=
        readLoop_predicted (keeps between.cached) (still.trans running) insn expected []
      obtain ⟨i, outcome, read⟩ := (returns result done).resolve_left notFinished
      obtain ⟨j, addr', size', outcome', read', -, sized⟩ :=
        ((keeps between.cached).readLoop (still.trans running) _ _ result done).2.resolve_left
          notFinished
      rw [outcome, Outcome.instruction.injEq] at outcome'
      subst outcome'
      simp only [insn, some.injEq, Prod.mk.injEq] at read read'
      obtain ⟨rfl, rfl⟩ := read
      obtain ⟨rfl, -⟩ := read'
      rw [sized, expected, getD_some]
  · rintro ⟨running, expects⟩
    refine Ensures.bind (P := fun r₁ => r.opening = .ok r₁) (fun r₁ opened => opened) ?_
    intro r₁ opened result done
    obtain ⟨-, still, same, keeps⟩ := opening_spec r₁ opened
    rcases ((keeps between.cached).readLoop (still.trans running) _ _ result done).2 with
      finished | ⟨i, addr, size, outcome, read, rfl, sized⟩
    · exact .inl finished
    · refine .inr ⟨i, outcome, ?_⟩
      rw [opened] at expects ⊢
      dsimp only at expects ⊢
      rw [read]
      cases expected : r.predictedSize i.addr with
      | none => rw [sized, same, expected, getD_none]
      | some n =>
        have right := expects i.addr size n read expected
        rw [sized, same, expected, getD_some, right]

lemma Between.afterReads (between : r.Between) (calls : ℕ) :
    Ensures (r.afterReads env calls) fun r' => r'.Between := by
  induction calls generalizing r with
  | zero => exact .ok between
  | succ calls ih => exact between.read.bind fun result after => ih after

lemma new_between (bytes : List Byte) : (Reader.new bytes).Between :=
  ⟨fun _ _ known => absurd known (some_ne_none _).symm,
    fun ended => absurd ended Bool.false_ne_true⟩

/-- On every stream, after any number of calls of `Read` that did not abort: the next call, if it
returns true, returns a static instruction with the address and the size of the record it has just
read exactly when the trace has not ended and an instruction that is expected at the address of that
record has its size. -/
theorem read_returns_record_iff (env : ReaderEnv) (bytes : List Byte) (calls : ℕ) (r : Reader)
    (reached : (Reader.new bytes).afterReads env calls = .ok r) :
    ReturnsRecord env r ↔ Expects env r :=
  ((new_between bytes).afterReads calls r reached).returnsRecord_iff

end Reader

/-! ## Examples -/

def idleReader : ReaderEnv where
  handlers := ⟨fun _ => 0, fun _ _ => 0, 0, fun _ => 0, 0, fun a _ _ => a, fun _ _ => (false, 0)⟩
  freshPage := fun _ _ => 0

/-- The header of a trace, the code of two `nop` instructions at `0x1000`, the two instructions, the
first one again, and then an instruction of some bytes in the place of the second one. -/
def nopTrace (size : Byte) : List Byte :=
  [0x53, 0x49, 0x46, 0x54, 0, 0, 0, 0, 0, 0, 0, 0, 0, 0, 0, 0,
    0, 11, 10, 0, 0, 0, 0, 0x10, 0, 0, 0, 0, 0, 0, 0x90, 0x90,
    0x10, 0, 0, 0x10, 0, 0, 0, 0, 0, 0, 0x01, 0x10, 0, 0, 0x10, 0, 0, 0, 0, 0, 0, size]

/-- The fourth call finds the second instruction again, where it is expected. -/
theorem expected_instruction_returned :
    ∃ r, (Reader.new (nopTrace 1)).afterReads idleReader 3 = .ok r ∧
      r.predictedSize 0x1001 = some 1 ∧ Reader.ReturnsRecord idleReader r := by
  have computed : ((Reader.new (nopTrace 1)).afterReads idleReader 3).toOption.map (fun r =>
      (r.nextInsn idleReader, r.predictedSize 0x1001, r.seenEnd)) =
      some (some (0x1001, 1), some 1, false) := by
    decide +kernel
  obtain ⟨r, reached, results⟩ := exists_of_toOption computed
  obtain ⟨record, results⟩ := Prod.mk.inj results
  obtain ⟨predicted, running⟩ := Prod.mk.inj results
  refine ⟨r, reached, predicted, ?_⟩
  refine (Reader.read_returns_record_iff idleReader _ 3 r reached).mpr ⟨running, ?_⟩
  intro addr size n insn expected
  cases record.symm.trans insn
  exact some.inj (expected.symm.trans predicted)

/-- The fourth call reads a record of an instruction of two bytes and returns the static instruction
of one byte that followed the first time. -/
theorem resized_instruction_returned :
    ∃ r, (Reader.new (nopTrace 2)).afterReads idleReader 3 = .ok r ∧
      r.nextInsn idleReader = some (0x1001, 2) ∧
      (r.read idleReader).toOption.map (·.1.2) = some (.instruction
        ⟨0x1001, 1, [0x90], [], false, false, false, true⟩) ∧
      ¬ Reader.ReturnsRecord idleReader r := by
  have computed : ((Reader.new (nopTrace 2)).afterReads idleReader 3).toOption.map (fun r =>
      (r.nextInsn idleReader, (r.read idleReader).toOption.map (·.1.2))) =
      some (some (0x1001, 2), some (.instruction
        ⟨0x1001, 1, [0x90], [], false, false, false, true⟩)) := by
    decide +kernel
  obtain ⟨r, reached, results⟩ := exists_of_toOption computed
  obtain ⟨record, returned⟩ := Prod.mk.inj results
  refine ⟨r, reached, record, returned, fun returns => ?_⟩
  obtain ⟨result, read, outcome⟩ := exists_of_toOption returned
  rcases returns result read with finished | ⟨i, isInsn, same⟩
  · rw [outcome] at finished
    cases finished
  · rw [outcome, Reader.Outcome.instruction.injEq] at isInsn
    rw [record, ← isInsn] at same
    simp at same

end Sniper.Sift
