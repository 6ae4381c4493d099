import Sniper.Sift.Sync

/-!
# Round trip

A program makes calls to the writer and closes the trace; successive calls of `Read`
on the bytes return its instructions and invoke the callbacks between them. The one
call that does not come back is an output of `2 ^ 32 - 1` bytes, where the size of
the record wraps around and the reader stops on its assertion.
-/

namespace Sniper.Sift

open ByteStream Fallible List Writer

variable {cfg : WriterConfig} {sizes : IntPtr → Nat} {env : ReaderEnv} {w w' : Writer}

/-! ## Sending code -/

def Ships (cfg : WriterConfig) (sizes : IntPtr → Nat) (env : ReaderEnv) (w w' : Writer) : Prop :=
  w'.lastAddress = w.lastAddress ∧ (∀ a, w.icache a = true → w'.icache a = true) ∧
    ∃ bs, w'.output = w.output ++ bs ∧ Conveys cfg sizes env w bs [] w'

lemma Ships.refl (w : Writer) : Ships cfg sizes env w w :=
  ⟨rfl, fun _ => id, [], by simp, Conveys.refl w⟩

lemma Ships.trans {w'' : Writer} (first : Ships cfg sizes env w w')
    (second : Ships cfg sizes env w' w'') : Ships cfg sizes env w w'' := by
  obtain ⟨address, kept, bs, output, conveys⟩ := first
  obtain ⟨address', kept', bs', output', conveys'⟩ := second
  refine ⟨address'.trans address, fun a sent => kept' a (kept a sent), bs ++ bs', ?_,
    conveys.trans conveys'⟩
  rw [output', output, append_assoc]

variable {bs : List Byte}

lemma ships_code {record : Record} {a : IntPtr}
    (update : (IntPtr → Option Page) → IntPtr → Option Page) (reads : Reads readRecord bs record)
    (processed : ∀ r : Reader, r.process env record =
      .ok (.inr [], { r with icache := update r.icache }))
    (agrees : ∀ icache x, (Sent cfg sizes w x → Agrees cfg.getCode icache x) →
      Sent cfg sizes ((w.write bs).markSent a) x → Agrees cfg.getCode (update icache) x) :
    Ships cfg sizes env w ((w.write bs).markSent a) := by
  refine ⟨rfl, fun b sent => ?_, bs, rfl, conveys_record reads fun r synced => ?_⟩
  · by_cases here : b = a
    · simp [markSent, here]
    · simp [markSent, write, here, sent]
  · exact ⟨{ r with icache := update r.icache }, ⟨synced.opened, synced.running,
      synced.lastAddress, fun x => agrees r.icache x (synced.code x), synced.static,
      synced.cached⟩, rfl, processed r⟩

lemma sendPage_ships (sizes : IntPtr → Nat) (env : ReaderEnv)
    (pages : cfg.requiresIcachePerInsn = false) (w : Writer) (base : IntPtr) :
    Ships cfg sizes env w (sendPage cfg w base) ∧ (sendPage cfg w base).icache base = true := by
  unfold sendPage
  split
  · rename_i sent
    exact ⟨Ships.refl w, sent⟩
  · refine ⟨?_, by simp [markSent]⟩
    rw [append_assoc]
    refine ships_code (fun icache => Function.update icache base
      (some fun i => (codeBytes cfg.getCode base icacheSize).getD i 0))
      (reads_icache base length_codeBytes) (fun r => rfl) ?_
    intro icache x known sent
    refine agrees_storePage ?_
    by_cases here : pageOf x = base
    · exact .inr here
    · refine .inl (known ?_)
      simpa [Sent, pages, markSent, write, here] using sent

lemma sendPages_ships (sizes : IntPtr → Nat) (env : ReaderEnv)
    (pages : cfg.requiresIcachePerInsn = false) (rounds : Nat) {w : Writer}
    {base last : IntPtr} (aligned : IsPage base) (alignedLast : IsPage last)
    (low : last.toNat < 2 ^ 64 - 4096) (near : base.toNat ≤ last.toNat + 4096)
    (enough : last.toNat + 4096 < base.toNat + rounds * 4096) :
    ∃ w', sendPages cfg rounds w base last = .ok w' ∧ Ships cfg sizes env w w' ∧
      ∀ p, IsPage p → base.toNat ≤ p.toNat → p.toNat ≤ last.toNat → w'.icache p = true := by
  induction rounds generalizing w base with
  | zero => omega
  | succ rounds ih =>
    have baseAligned : base.toNat % 4096 = 0 := aligned
    have lastAligned : last.toNat % 4096 = 0 := alignedLast
    unfold sendPages
    split
    · rename_i more
      have below : base.toNat ≤ last.toNat := BitVec.le_def.mp more
      have next : (base + BitVec.ofNat 64 icacheSize).toNat = base.toNat + 4096 :=
        add_toNat (by rw [icacheSize]; omega)
      obtain ⟨ships, marked⟩ := sendPage_ships sizes env pages w base
      obtain ⟨w', sent, ships', covered⟩ := @ih (sendPage cfg w base)
        (base + BitVec.ofNat 64 icacheSize) (by rw [IsPage, next]; omega) (by omega) (by omega)
      refine ⟨w', sent, ships.trans ships', fun p page above under => ?_⟩
      have pageAligned : p.toNat % 4096 = 0 := page
      by_cases here : p = base
      · rw [here]
        exact ships'.2.1 base marked
      · have different : p.toNat ≠ base.toNat := fun same => here (BitVec.eq_of_toNat_eq same)
        exact covered p page (by omega) under
    · rename_i done
      have past : last.toNat < base.toNat := by
        rw [BitVec.le_def] at done
        omega
      exact ⟨w, rfl, Ships.refl w, fun p _ above under => by omega⟩

variable {addr : IntPtr} {size : Nat}

lemma sendInsnCode_ships (env : ReaderEnv) (perInsn : cfg.requiresIcachePerInsn = true)
    (w : Writer) (fixed : size = sizes addr) (small : size < 16)
    (bound : addr.toNat + size ≤ 2 ^ 64 - 4096) :
    Ships cfg sizes env w (sendInsnCode cfg w addr size) ∧
      (sendInsnCode cfg w addr size).icache addr = true := by
  unfold sendInsnCode
  split
  · rename_i sent
    exact ⟨Ships.refl w, sent⟩
  · refine ⟨?_, by simp [markSent]⟩
    have reads := reads_icacheVariable addr (codeBytes cfg.getCode addr size) (by simpa)
    rw [length_codeBytes] at reads
    rw [append_assoc]
    refine ships_code (fun icache => storeCode env.freshPage
      (codeBytes cfg.getCode addr size).length icache addr (codeBytes cfg.getCode addr size))
      reads (fun r => rfl) ?_
    intro icache x known sent
    refine agrees_storeCode env.freshPage _ (by simp) bound ?_
    simp only [Sent, perInsn, if_true, markSent, write] at sent known
    obtain ⟨a, marked, low, high⟩ := sent
    by_cases here : a = addr
    · subst here
      exact .inr ⟨low, by omega⟩
    · rw [Function.update_of_ne here] at marked
      exact .inl (known ⟨a, marked, low, high⟩)

lemma sendCode_ships (cfg : WriterConfig) (env : ReaderEnv) (w : Writer)
    (fixed : size = sizes addr) (some : 1 ≤ size) (small : size < 16)
    (bound : addr.toNat + size ≤ 2 ^ 64 - 4096) :
    ∃ w', sendCode cfg w addr size = .ok w' ∧ Ships cfg sizes env w w' ∧
      ∀ x : IntPtr, addr.toNat ≤ x.toNat → x.toNat < addr.toNat + size → Sent cfg sizes w' x := by
  unfold sendCode
  cases mode : cfg.requiresIcachePerInsn with
  | true =>
    obtain ⟨ships, marked⟩ := sendInsnCode_ships env mode w fixed small bound
    refine ⟨_, rfl, ships, fun x low high => ?_⟩
    simp only [Sent, mode, if_true]
    exact ⟨addr, marked, low, by omega⟩
  | false =>
    have last : (addr + BitVec.ofNat 64 size - 1).toNat = addr.toNat + size - 1 := by
      have sum : (addr + BitVec.ofNat 64 size).toNat = addr.toNat + size := add_toNat (by omega)
      rw [BitVec.toNat_sub, sum]
      simp
      omega
    have firstPage := pageOf_toNat addr
    have lastPage := pageOf_toNat (addr + BitVec.ofNat 64 size - 1)
    obtain ⟨w', sent, ships, covered⟩ := sendPages_ships sizes env mode
      (2 ^ 52 + 1) (w := w) (isPage_pageOf addr)
      (isPage_pageOf (addr + BitVec.ofNat 64 size - 1)) (by omega) (by omega) (by omega)
    refine ⟨w', sent, ships, fun x low high => ?_⟩
    have page := pageOf_toNat x
    simp only [Sent, mode, Bool.false_eq_true, if_false]
    exact covered (pageOf x) (isPage_pageOf x) (by omega) (by omega)

/-! ## Calls -/

def Call.expected (cfg : WriterConfig) : Call → Instruction ⊕ Callback
  | .instruction i => .inl ⟨i.addr, i.size, codeBytes cfg.getCode i.addr i.size, i.addresses,
      i.isBranch, i.taken, i.isPredicate, i.executed⟩
  | .output fd data => .inr (.output fd data.val)
  | .cacheOnly icount type eip address => .inr (.cacheOnly icount type.code eip address)
  | .routineChange event eip esp callEip => .inr (.routineChange event.code eip esp callEip)
  | .routineAnnounce eip name imgname offset line column filename =>
    .inr (.routineAnnounce eip name.val imgname.val offset line column filename.val)

/-- The calls of a program with instructions of fixed sizes, below the last page of
the address space. Only predicated instructions can fail to execute. -/
def Call.Admissible (sizes : IntPtr → Nat) : Call → Prop
  | .instruction i => 1 ≤ i.size ∧ i.size ≤ 15 ∧ i.addresses.length ≤ 2 ∧
      (i.isPredicate = false → i.executed = true) ∧ i.addr.toNat + i.size ≤ 2 ^ 64 - 4096 ∧
      i.size = sizes i.addr
  | .output _ data => 1 ≤ data.val.length
  | .routineAnnounce _ name imgname _ _ _ filename =>
    name.val.length < 65535 ∧ imgname.val.length < 65535 ∧ filename.val.length < 65535
  | _ => True

def Call.Fits : Call → Prop
  | .output _ data => data.val.length ≤ 2 ^ 32 - 2
  | _ => True

lemma sendRecord_yields (env : ReaderEnv) {i : InsnCall}
    (admissible : (Call.instruction i).Admissible sizes)
    (sent : ∀ x : IntPtr, i.addr.toNat ≤ x.toNat → x.toNat < i.addr.toNat + i.size →
      Sent cfg sizes w x) :
    ∃ bs, (w.sendRecord i).output = w.output ++ bs ∧
      Yields cfg sizes env w bs ⟨i.addr, i.size, codeBytes cfg.getCode i.addr i.size, i.addresses,
        i.isBranch, i.taken, i.isPredicate, i.executed⟩ (w.sendRecord i) := by
  obtain ⟨some, small, few, executes, bound, fixed⟩ := admissible
  by_cases simple : i.addr = w.lastAddress ∧ ¬ i.isPredicate
  · have plain : i.isPredicate = false := by simpa using simple.2
    rw [sendRecord_simple simple]
    refine ⟨_, rfl, yields_record (reads_simple i some small few) fun r synced => ?_⟩
    obtain ⟨r', delivered, input, synced'⟩ := synced.deliver fixed bound sent i.isBranch i.taken
      false true i.addresses
    refine ⟨r', synced'.withOutput _, input, ?_⟩
    rw [Reader.process, synced.lastAddress, ← simple.1, delivered, plain, executes plain]
    rfl
  · rw [sendRecord_ext simple]
    refine ⟨_, rfl, yields_record (reads_ext i some small few) fun r synced => ?_⟩
    obtain ⟨r', delivered, input, synced'⟩ := synced.deliver fixed bound sent i.isBranch i.taken
      i.isPredicate i.executed i.addresses
    refine ⟨r', synced'.withOutput _, input, ?_⟩
    rw [Reader.process, delivered]
    rfl

variable {c : Call}

lemma call_yields (env : ReaderEnv) {result : Instruction}
    (expected : c.expected cfg = .inl result) (admissible : c.Admissible sizes) (w : Writer) :
    ∃ w' bs, w.call cfg c = .ok w' ∧ w'.output = w.output ++ bs ∧
      Yields cfg sizes env w bs result w' := by
  obtain ⟨i, rfl⟩ : ∃ i, c = .instruction i := by
    cases c with
    | instruction i => exact ⟨i, rfl⟩
    | _ => cases expected
  obtain rfl := Sum.inl.inj expected
  have facts := admissible
  obtain ⟨some, small, few, -, bound, fixed⟩ := facts
  obtain ⟨w₁, code, ⟨address, -, bs, output, conveys⟩, sent⟩ :=
    sendCode_ships cfg env w fixed some (by omega) bound
  obtain ⟨bs', output', yields⟩ := sendRecord_yields env admissible sent
  refine ⟨w₁.sendRecord i, bs ++ bs', ?_, by rw [output', output, append_assoc],
    conveys.yields yields⟩
  have inRange : i.size < 16 := by omega
  simp only [call, Writer.instruction, require, if_pos inRange, if_pos few, code]
  rfl

lemma conveys_callback {c : Callback}
    (reads : Reads readRecord bs (.callback c)) : Conveys cfg sizes env w bs [c] (w.write bs) :=
  conveys_record reads fun r synced => ⟨r, synced.withOutput _, rfl, rfl⟩

lemma call_conveys (env : ReaderEnv) {cb : Callback} (expected : c.expected cfg = .inr cb)
    (admissible : c.Admissible sizes) (fits : c.Fits) (w : Writer) :
    ∃ w' bs, w.call cfg c = .ok w' ∧ w'.output = w.output ++ bs ∧
      Conveys cfg sizes env w bs [cb] w' := by
  cases c with
  | instruction i => cases expected
  | output fd data =>
    obtain rfl := Sum.inr.inj expected
    have size : data.val.length ≤ 2 ^ 32 - 2 := fits
    exact ⟨_, _, rfl, rfl, conveys_callback (reads_output fd admissible (by omega))⟩
  | cacheOnly icount type eip address =>
    obtain rfl := Sum.inr.inj expected
    exact ⟨_, _, rfl, rfl, conveys_callback (reads_cacheOnly icount type eip address)⟩
  | routineChange event eip esp callEip =>
    obtain rfl := Sum.inr.inj expected
    exact ⟨_, _, rfl, rfl, conveys_callback (reads_routineChange event eip esp callEip)⟩
  | routineAnnounce eip name imgname offset line column filename =>
    obtain rfl := Sum.inr.inj expected
    obtain ⟨shortName, shortImage, shortFile⟩ := admissible
    exact ⟨_, _, rfl, rfl, conveys_callback (reads_routineAnnounce eip name imgname offset line
      column filename shortName shortImage shortFile _)⟩

lemma call_breaks (cfg : WriterConfig) (sizes : IntPtr → Nat) (env : ReaderEnv)
    (tooLarge : ¬ c.Fits) (w : Writer) :
    ∃ w' bs, w.call cfg c = .ok w' ∧ w'.output = w.output ++ bs ∧
      ∀ r rest rounds invoked, Synced cfg sizes w r → r.input = bs ++ rest →
        r.input.length < rounds → ∃ e, r.readLoop env rounds invoked = .error e := by
  cases c with
  | output fd data =>
    refine ⟨_, _, rfl, rfl, fun r rest rounds invoked synced input enough => ?_⟩
    have size : data.val.length = 2 ^ 32 - 1 := by
      have bound := data.2
      have large : ¬ data.val.length ≤ 2 ^ 32 - 2 := tooLarge
      omega
    rw [size] at input
    have rejected := rejects_output (fd :: data.val) rest
    rw [← input] at rejected
    obtain ⟨rounds, rfl⟩ : ∃ k, rounds = k + 1 := ⟨rounds - 1, by omega⟩
    refine ⟨.badSize RecOtherType.output.code, ?_⟩
    rw [Reader.readLoop, if_neg (by simp [synced.running]), rejected]
    rfl
  | _ => exact absurd trivial tooLarge

/-! ## Whole traces -/

/-- What successive calls of `Read` should give, up to the one that returns false: the
callbacks they invoke and what they return. -/
def transcript (cfg : WriterConfig) :
    List Callback → List Call → List (List Callback × Reader.Outcome)
  | invoked, [] => [(invoked, .finished)]
  | invoked, c :: calls =>
    match c.expected cfg with
    | .inl i => (invoked, .instruction i) :: transcript cfg [] calls
    | .inr cb => transcript cfg (invoked ++ [cb]) calls

def numInstructions (cfg : WriterConfig) (calls : List Call) : Nat :=
  calls.countP fun c => (c.expected cfg).isLeft

def RoundTrips (cfg : WriterConfig) (env : ReaderEnv) (calls : List Call) : Prop :=
  ∃ w, calls.foldlM (Writer.call cfg) (Writer.new cfg) = .ok w ∧
    (Reader.new w.finish.output).readMany env (numInstructions cfg calls + 1) =
      .ok (transcript cfg [] calls)

/-- A call of `Read` that has invoked some callbacks already, and the calls after it. -/
def resume (env : ReaderEnv) (calls rounds : Nat) (invoked : List Callback) (r : Reader) :
    Except SiftFault (List (List Callback × Reader.Outcome)) := do
  let (result, r) ← r.readLoop env rounds invoked
  let results ← r.readMany env calls
  .ok (result :: results)

variable {r : Reader}

lemma readMany_eq_resume (opened : r.opened = true) (calls : Nat) :
    r.readMany env (calls + 1) = resume env calls (r.input.length + 1) [] r := by
  rw [Reader.readMany, Reader.read, if_pos opened]
  rfl

variable {invoked : List Callback} {rounds : Nat}

lemma resume_instruction {r' : Reader} {calls : Nat}
    {outcome : Reader.Outcome} (opened : r'.opened = true)
    (read : r.readLoop env rounds invoked = .ok ((invoked, outcome), r')) :
    resume env (calls + 1) rounds invoked r =
      (resume env calls (r'.input.length + 1) [] r').map ((invoked, outcome) :: ·) := by
  rw [resume, read, ← readMany_eq_resume opened]
  simp only [bind, Except.bind]
  cases r'.readMany env (calls + 1) <;> rfl

lemma finish_finishes (synced : Synced cfg sizes w r) (input : r.input = otherHeader .endTrace 0)
    (enough : r.input.length < rounds) :
    resume env 0 rounds invoked r = .ok [(invoked, .finished)] := by
  obtain ⟨rounds, rfl⟩ : ∃ k, rounds = k + 1 := ⟨rounds - 1, by omega⟩
  have read : r.readLoop env (rounds + 1) invoked =
      .ok ((invoked, .finished), { r with input := [], seenEnd := true }) :=
    readLoop_record reads_end synced.running (by rw [input, append_nil]) rfl
  rw [resume, read]
  rfl

variable {calls : List Call}

lemma calls_output {w w₁ w₂ : Writer} {bs₁ bs₂ : List Byte}
    (called : w.call cfg c = .ok w₁) (output₁ : w₁.output = w.output ++ bs₁)
    (rest : calls.foldlM (call cfg) w₁ = .ok w₂) (output₂ : w₂.finish.output = w₁.output ++ bs₂) :
    (c :: calls).foldlM (call cfg) w = .ok w₂ ∧ w₂.finish.output = w.output ++ (bs₁ ++ bs₂) := by
  refine ⟨?_, by rw [output₂, output₁, append_assoc]⟩
  rw [foldlM_cons, called]
  exact rest

/-- By induction on the calls: reader and writer stay in step up to a call that does not fit. -/
lemma write_read (cfg : WriterConfig) (env : ReaderEnv) (calls : List Call)
    (admissible : ∀ c ∈ calls, c.Admissible sizes)
    (w : Writer) : ∃ w' bs, calls.foldlM (call cfg) w = .ok w' ∧ w'.finish.output = w.output ++ bs ∧
      ∀ r rounds invoked, Synced cfg sizes w r → r.input = bs → r.input.length < rounds →
        ((∀ c ∈ calls, c.Fits) → resume env (numInstructions cfg calls) rounds invoked r =
            .ok (transcript cfg invoked calls)) ∧
        ((∃ c ∈ calls, ¬ c.Fits) →
          ∃ e, resume env (numInstructions cfg calls) rounds invoked r = .error e) := by
  induction calls generalizing w with
  | nil =>
    refine ⟨w, otherHeader .endTrace 0, rfl, rfl, fun r rounds invoked synced input enough => ?_⟩
    exact ⟨fun _ => finish_finishes synced input enough, by simp⟩
  | cons c calls ih =>
    have now := admissible c mem_cons_self
    have later := fun w => ih (fun c hc => admissible c (mem_cons_of_mem _ hc)) w
    by_cases fits : c.Fits
    · have split : (∀ d ∈ c :: calls, d.Fits) ↔ ∀ d ∈ calls, d.Fits := by simp [fits]
      have split' : (∃ d ∈ c :: calls, ¬ d.Fits) ↔ ∃ d ∈ calls, ¬ d.Fits := by simp [fits]
      rw [split, split']
      cases expected : c.expected cfg with
      | inl i =>
        obtain ⟨w₁, bs₁, called, output₁, yields⟩ := call_yields env expected now w
        obtain ⟨w₂, bs₂, rest, output₂, reads⟩ := later w₁
        obtain ⟨ran, output⟩ := calls_output called output₁ rest output₂
        refine ⟨w₂, bs₁ ++ bs₂, ran, output, fun r rounds invoked synced input enough => ?_⟩
        obtain ⟨r₁, synced₁, input₁, read⟩ := yields r bs₂ rounds invoked synced input enough
        obtain ⟨ends, stops⟩ := reads r₁ (r₁.input.length + 1) [] synced₁ input₁ (by omega)
        have count : numInstructions cfg (c :: calls) = numInstructions cfg calls + 1 := by
          simp [numInstructions, expected]
        rw [count, resume_instruction synced₁.opened read, transcript, expected]
        refine ⟨fun all => by rw [ends all]; rfl, fun bad => ?_⟩
        obtain ⟨e, stopped⟩ := stops bad
        exact ⟨e, by rw [stopped]; rfl⟩
      | inr cb =>
        obtain ⟨w₁, bs₁, called, output₁, conveys⟩ := call_conveys env expected now fits w
        obtain ⟨w₂, bs₂, rest, output₂, reads⟩ := later w₁
        obtain ⟨ran, output⟩ := calls_output called output₁ rest output₂
        refine ⟨w₂, bs₁ ++ bs₂, ran, output, fun r rounds invoked synced input enough => ?_⟩
        obtain ⟨r₁, rounds₁, synced₁, input₁, enough₁, read⟩ :=
          conveys r bs₂ rounds invoked synced input enough
        have count : numInstructions cfg (c :: calls) = numInstructions cfg calls := by
          simp [numInstructions, expected]
        rw [count, transcript, expected, resume, read]
        exact reads r₁ rounds₁ (invoked ++ [cb]) synced₁ input₁ (by rwa [input₁])
    · obtain ⟨w₁, bs₁, called, output₁, breaks⟩ := call_breaks cfg sizes env fits w
      obtain ⟨w₂, bs₂, rest, output₂, -⟩ := later w₁
      obtain ⟨ran, output⟩ := calls_output called output₁ rest output₂
      refine ⟨w₂, bs₁ ++ bs₂, ran, output, fun r rounds invoked synced input enough => ?_⟩
      refine ⟨fun all => absurd (all c mem_cons_self) fits, fun _ => ?_⟩
      obtain ⟨e, stopped⟩ := breaks r bs₂ rounds invoked synced input enough
      exact ⟨e, by rw [resume, stopped]; rfl⟩

lemma reads_header (cfg : WriterConfig) : Reads readHeader cfg.header cfg.options := by
  have compression := cfg.useCompression.toNat_lt
  have arch := cfg.arch32.toNat_lt
  have perInsn := cfg.requiresIcachePerInsn.toNat_lt
  have small : cfg.options < 16 := by
    rw [WriterConfig.options]
    omega
  have options : Reads (takeNat SiftFault.truncated 8) (bytesOf 8 cfg.options) cfg.options := by
    have read := reads_takeNat SiftFault.truncated 8 cfg.options
    rwa [Nat.mod_eq_of_lt (by omega)] at read
  rw [WriterConfig.header, append_assoc, ← append_nil (bytesOf 8 cfg.options)]
  refine (reads_takeNat _ 4 _).bind ((reads_takeNat _ 4 _).bind (options.bind ?_))
  exact Reads.check (by decide) (Reads.check (by decide) (Reads.check (by omega) (Reads.pure _)))

lemma readMany_new (cfg : WriterConfig) (sizes : IntPtr → Nat) (env : ReaderEnv) (calls : Nat)
    (bs : List Byte) : ∃ r, Synced cfg sizes (new cfg) r ∧
    r.input = bs ∧ (Reader.new (cfg.header ++ bs)).readMany env (calls + 1) =
      resume env calls (r.input.length + 1) [] r := by
  let r : Reader := { Reader.new bs with opened := true, traceHasPa := cfg.options / 8 % 2 = 1 }
  have opened : (Reader.new (cfg.header ++ bs)).initStream = .ok r := by
    have header := reads_header cfg bs
    simp only [Reader.initStream, Reader.new, header, bind, Except.bind, r]
  have unsent : ∀ x, ¬ Sent cfg sizes (new cfg) x := by simp [Sent, new]
  refine ⟨r, ⟨rfl, rfl, rfl, fun x sent => absurd sent (unsent x), ?_, ?_⟩, rfl, ?_⟩
  · simp [r, Reader.new]
  · simp [r, Reader.new]
  · rw [Reader.readMany, Reader.read, if_neg (by simp [Reader.new]), opened]
    rfl

lemma roundTrips_of_fits (env : ReaderEnv)
    (admissible : ∀ c ∈ calls, c.Admissible sizes) (fits : ∀ c ∈ calls, c.Fits) :
    RoundTrips cfg env calls := by
  obtain ⟨w, bs, written, output, reads⟩ := write_read cfg env calls admissible (new cfg)
  obtain ⟨r, synced, input, start⟩ := readMany_new cfg sizes env (numInstructions cfg calls) bs
  refine ⟨w, written, ?_⟩
  rw [output]
  exact start.trans ((reads r _ [] synced input (by omega)).1 fits)

lemma not_roundTrips (env : ReaderEnv)
    (admissible : ∀ c ∈ calls, c.Admissible sizes) (tooLarge : ∃ c ∈ calls, ¬ c.Fits) :
    ¬ RoundTrips cfg env calls := by
  rintro ⟨w, written, read⟩
  obtain ⟨w', bs, written', output, reads⟩ := write_read cfg env calls admissible (new cfg)
  cases written.symm.trans written'
  obtain ⟨r, synced, input, start⟩ := readMany_new cfg sizes env (numInstructions cfg calls) bs
  obtain ⟨e, stopped⟩ := (reads r (r.input.length + 1) [] synced input (by omega)).2 tooLarge
  rw [output] at read
  cases (start.trans stopped).symm.trans read

/-- The calls come back exactly when every output leaves room in the size of its
record for one more byte. -/
theorem roundTrips_iff (cfg : WriterConfig) (env : ReaderEnv) (sizes : IntPtr → Nat)
    (calls : List Call) (admissible : ∀ c ∈ calls, c.Admissible sizes) :
    RoundTrips cfg env calls ↔
      ∀ fd data, Call.output fd data ∈ calls → data.val.length ≤ 2 ^ 32 - 2 := by
  constructor
  · intro roundTrips fd data called
    by_contra tooLarge
    exact not_roundTrips env admissible ⟨_, called, tooLarge⟩ roundTrips
  · intro small
    refine roundTrips_of_fits env admissible fun c called => ?_
    cases c with
    | output fd data => exact small fd data called
    | _ => trivial

/-! ## Examples -/

/-- A program of `nop` instructions, traced page by page. -/
def nops : WriterConfig := ⟨fun _ => 0x90, false, false, false⟩

def shortTrace : List Call :=
  [.instruction ⟨0x1fff, 2, [], false, false, false, true⟩, .output 1 ⟨[72, 105], by decide⟩,
    .instruction ⟨0x2001, 2, [0x8000], true, true, true, false⟩]

theorem shortTrace_roundTrips : (∀ c ∈ shortTrace, c.Admissible fun _ => 2) ∧
    RoundTrips nops idleReader shortTrace := by
  have admissible : ∀ c ∈ shortTrace, c.Admissible fun _ => 2 := by
    simp [shortTrace, Call.Admissible]
  refine ⟨admissible, (roundTrips_iff nops idleReader (fun _ => 2) shortTrace admissible).mpr ?_⟩
  intro fd data called
  simp [shortTrace] at called
  obtain ⟨-, rfl⟩ := called
  decide

def largestOutput : Buffer :=
  ⟨List.replicate (2 ^ 32 - 1) 0, by rw [length_replicate]; decide⟩

lemma largestOutput_length : largestOutput.val.length = 2 ^ 32 - 1 := length_replicate

theorem largestOutput_not_roundTrips :
    (∀ c ∈ [Call.output 1 largestOutput], c.Admissible fun _ => 1) ∧
      ¬ RoundTrips nops idleReader [Call.output 1 largestOutput] := by
  have admissible : ∀ c ∈ [Call.output 1 largestOutput], c.Admissible fun _ => 1 := by
    intro c called
    obtain rfl := List.mem_singleton.mp called
    rw [Call.Admissible, largestOutput_length]
    decide
  refine ⟨admissible, not_roundTrips idleReader admissible ⟨_, List.mem_singleton.mpr rfl, ?_⟩⟩
  rw [Call.Fits, largestOutput_length]
  decide

end Sniper.Sift
