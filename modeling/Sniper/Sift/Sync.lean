import Sniper.Sift.Records
import Sniper.Sift.Static

/-!
# Writer and reader in step

The writer and the reader keep the next address and the code of the program apart
from each other. `Synced` relates their states: what the writer has sent the reader
knows, and its static instructions are those of the program. The bytes of a call
lead from a synchronised pair of states to another one, and meanwhile the reader
invokes a callback or returns an instruction.
-/

namespace Sniper.Sift

open ByteStream Fallible List

/-- The writer has sent the byte at `x`. -/
def Sent (cfg : WriterConfig) (sizes : IntPtr → Nat) (w : Writer) (x : IntPtr) : Prop :=
  if cfg.requiresIcachePerInsn then
    ∃ a, w.icache a = true ∧ a.toNat ≤ x.toNat ∧ x.toNat < a.toNat + sizes a
  else w.icache (pageOf x) = true

/-- Between two records of a program whose instructions have the sizes `sizes`. -/
structure Synced (cfg : WriterConfig) (sizes : IntPtr → Nat) (w : Writer) (r : Reader) : Prop where
  opened : r.opened = true
  running : r.seenEnd = false
  lastAddress : r.lastAddress = w.lastAddress
  code : ∀ x, Sent cfg sizes w x → Agrees cfg.getCode r.icache x
  static : ∀ (p : Nat) (s : StaticInstruction), r.sinsts[p]? = some s →
    s.size = sizes s.addr ∧ s.data = codeBytes cfg.getCode s.addr s.size
  cached : ∀ a p, r.scache a = some p → ∃ s : StaticInstruction, r.sinsts[p]? = some s ∧ s.addr = a

variable {cfg : WriterConfig} {sizes : IntPtr → Nat} {env : ReaderEnv} {w w' w'' : Writer}
  {r : Reader} {addr : IntPtr} {size : Nat}

lemma Synced.withInput (synced : Synced cfg sizes w r) (input : List Byte) :
    Synced cfg sizes w { r with input := input } :=
  ⟨synced.opened, synced.running, synced.lastAddress, synced.code, synced.static, synced.cached⟩

lemma Synced.withOutput (synced : Synced cfg sizes w r) (output : List Byte) :
    Synced cfg sizes { w with output := output } r :=
  ⟨synced.opened, synced.running, synced.lastAddress, synced.code, synced.static, synced.cached⟩

/-! ## Static instructions -/

section

variable (synced : Synced cfg sizes w r)

include synced

lemma Synced.follow (p : Nat) : Synced cfg sizes w (r.follow p) := by
  refine ⟨synced.opened, synced.running, synced.lastAddress, synced.code, fun q t found => ?_,
    Reader.Cached.follow synced.cached p⟩
  obtain ⟨f, same, eq⟩ := Reader.follow_get r p q
  rw [eq] at found
  obtain ⟨s, here, rfl⟩ := Option.map_eq_some_iff.mp found
  obtain ⟨addr, size, data⟩ := same s
  rw [addr, size, data]
  exact synced.static q s here

lemma Synced.addStatic {s : StaticInstruction}
    (proper : s.size = sizes s.addr ∧ s.data = codeBytes cfg.getCode s.addr s.size) :
    Synced cfg sizes w { r with
      sinsts := r.sinsts ++ [s]
      scache := Function.update r.scache s.addr (some r.sinsts.length) } := by
  refine ⟨synced.opened, synced.running, synced.lastAddress, synced.code, fun p t here => ?_,
    Reader.Cached.addStatic synced.cached s⟩
  rw [getElem?_append] at here
  split at here
  · exact synced.static p t here
  · obtain rfl := List.mem_singleton.mp (mem_of_getElem? here)
    exact proper

lemma Synced.getStaticInstruction (fixed : size = sizes addr)
    (bound : addr.toNat + size ≤ 2 ^ 64 - 4096)
    (known : ∀ x : IntPtr, addr.toNat ≤ x.toNat → x.toNat < addr.toNat + size →
      Agrees cfg.getCode r.icache x) :
    ∃ p r' s, r.getStaticInstruction addr size = .ok (p, r') ∧ r'.sinsts[p]? = some s ∧
      s.addr = addr ∧ r'.input = r.input ∧ Synced cfg sizes w r' := by
  -- whichever way the instruction is found, it only has to be at the right address
  have found : ∀ (r₁ : Reader) (p : Nat) (s : StaticInstruction), Synced cfg sizes w r₁ →
      r₁.sinsts[p]? = some s → s.addr = addr → r₁.input = r.input →
      ∃ s', (r₁.follow p).sinsts[p]? = some s' ∧ s'.addr = addr ∧
        (r₁.follow p).input = r.input ∧ Synced cfg sizes w (r₁.follow p) := by
    intro r₁ p s synced₁ here at_addr input
    obtain ⟨f, same, eq⟩ := Reader.follow_get r₁ p p
    exact ⟨f s, by rw [eq, here]; rfl, (same s).1.trans at_addr, input, synced₁.follow p⟩
  unfold Reader.getStaticInstruction
  cases predicted : r.predicted addr with
  | some p =>
    simp only [Reader.predicted, Option.bind_eq_some_iff] at predicted
    obtain ⟨last, -, s, -, q, -, t, here, at_addr⟩ := predicted
    split at at_addr
    · rename_i same
      obtain rfl := Option.some.inj at_addr
      obtain ⟨s', rest⟩ := found r q t synced here same rfl
      exact ⟨q, r.follow q, s', rfl, rest⟩
    · cases at_addr
  | none =>
    dsimp only
    cases cached : r.scache addr with
    | some p =>
      obtain ⟨s, here, same⟩ := synced.cached addr p cached
      obtain ⟨s', rest⟩ := found r p s synced here same rfl
      have sized : ∀ t ∈ r.sinsts[p]?, t.size = size := by
        intro t ht
        rw [here] at ht
        obtain rfl := Option.some.inj ht
        rw [(synced.static p s here).1, same, fixed]
      refine ⟨p, r.follow p, s', ?_, rest⟩
      simp only [require, if_pos sized]
      rfl
    | none =>
      have start : addr = pageOf addr + BitVec.ofNat 64 (offsetOf addr) := by
        apply BitVec.eq_of_toNat_eq
        have parts := pageOf_add_offsetOf addr
        rw [add_toNat (by omega), parts]
      have parts := pageOf_add_offsetOf addr
      have decoded : r.decodeInstruction addr size =
          .ok ⟨addr, size, codeBytes cfg.getCode addr size, none⟩ := by
        rw [Reader.decodeInstruction, copyCode_eq size le_rfl (isPage_pageOf addr)
          (offsetOf_lt addr) (by omega) fun x low high => known x (by omega) (by omega), ← start]
        rfl
      have extended := synced.addStatic (s := ⟨addr, size, codeBytes cfg.getCode addr size, none⟩)
        ⟨fixed, rfl⟩
      obtain ⟨s', rest⟩ := found _ r.sinsts.length _ extended getElem?_concat_length rfl rfl
      refine ⟨r.sinsts.length, _, s', ?_, rest⟩
      rw [decoded]
      rfl

lemma Synced.deliver (fixed : size = sizes addr) (bound : addr.toNat + size ≤ 2 ^ 64 - 4096)
    (sent : ∀ x : IntPtr, addr.toNat ≤ x.toNat → x.toNat < addr.toNat + size → Sent cfg sizes w x)
    (isBranch taken isPredicate executed : Bool) (addresses : List IntPtr) :
    ∃ r', r.deliver addr size isBranch taken isPredicate executed addresses =
        .ok (⟨addr, size, codeBytes cfg.getCode addr size, addresses, isBranch, taken, isPredicate,
          executed⟩, r') ∧
      r'.input = r.input ∧
      Synced cfg sizes { w with lastAddress := addr + BitVec.ofNat 64 size } r' := by
  have moved : Synced cfg sizes { w with lastAddress := addr + BitVec.ofNat 64 size }
      { r with lastAddress := addr + BitVec.ofNat 64 size } :=
    ⟨synced.opened, synced.running, rfl, synced.code, synced.static, synced.cached⟩
  obtain ⟨p, r', s, got, here, at_addr, input, synced'⟩ := moved.getStaticInstruction fixed bound
    fun x low high => synced.code x (sent x low high)
  obtain ⟨sized, data⟩ := synced'.static p s here
  rw [at_addr, ← fixed] at sized
  rw [at_addr, sized] at data
  refine ⟨r', ?_, input, synced'⟩
  unfold Reader.deliver
  simp only [got, here, bind, Except.bind, at_addr, sized, data]

end

/-! ## Bytes on their way -/

section

variable (cfg sizes env)

/-- The bytes `bs`, sent when the writer goes from `w` to `w'`, make the reader invoke
the callbacks `cs` and go on reading. -/
def Conveys (w : Writer) (bs : List Byte) (cs : List Callback) (w' : Writer) : Prop :=
  ∀ r rest rounds invoked, Synced cfg sizes w r → r.input = bs ++ rest → r.input.length < rounds →
    ∃ r' rounds', Synced cfg sizes w' r' ∧ r'.input = rest ∧ rest.length < rounds' ∧
      r.readLoop env rounds invoked = r'.readLoop env rounds' (invoked ++ cs)

def Yields (w : Writer) (bs : List Byte) (i : Instruction) (w' : Writer) : Prop :=
  ∀ r rest rounds invoked, Synced cfg sizes w r → r.input = bs ++ rest → r.input.length < rounds →
    ∃ r', Synced cfg sizes w' r' ∧ r'.input = rest ∧
      r.readLoop env rounds invoked = .ok ((invoked, .instruction i), r')

end

lemma Conveys.refl (w : Writer) : Conveys cfg sizes env w [] [] w := by
  intro r rest rounds invoked synced input enough
  have same : r.input = rest := by simpa using input
  exact ⟨r, rounds, synced, same, same ▸ enough, by simp⟩

variable {bs bs' : List Byte} {cs : List Callback}

lemma Conveys.trans {cs' : List Callback}
    (first : Conveys cfg sizes env w bs cs w') (second : Conveys cfg sizes env w' bs' cs' w'') :
    Conveys cfg sizes env w (bs ++ bs') (cs ++ cs') w'' := by
  intro r rest rounds invoked synced input enough
  rw [append_assoc] at input
  obtain ⟨r₁, rounds₁, synced₁, input₁, enough₁, read₁⟩ :=
    first r _ rounds invoked synced input enough
  obtain ⟨r₂, rounds₂, synced₂, input₂, enough₂, read₂⟩ :=
    second r₁ rest rounds₁ (invoked ++ cs) synced₁ input₁ (by rwa [input₁])
  exact ⟨r₂, rounds₂, synced₂, input₂, enough₂, by rw [read₁, read₂, append_assoc]⟩

variable {i : Instruction}

lemma Conveys.yields
    (first : Conveys cfg sizes env w bs [] w') (second : Yields cfg sizes env w' bs' i w'') :
    Yields cfg sizes env w (bs ++ bs') i w'' := by
  intro r rest rounds invoked synced input enough
  rw [append_assoc] at input
  obtain ⟨r₁, rounds₁, synced₁, input₁, enough₁, read₁⟩ :=
    first r _ rounds invoked synced input enough
  obtain ⟨r₂, synced₂, input₂, read₂⟩ :=
    second r₁ rest rounds₁ (invoked ++ []) synced₁ input₁ (by rwa [input₁])
  exact ⟨r₂, synced₂, input₂, by rw [read₁, read₂, append_nil]⟩

variable {record : Record}

lemma reads_pos (reads : Reads readRecord bs record) : 0 < bs.length := by
  cases bs with
  | nil => cases reads []
  | cons b bs => simp

lemma readLoop_record {rest : List Byte} {rounds : Nat}
    {invoked : List Callback} {next : Reader.Outcome ⊕ List Callback} {r' : Reader}
    (reads : Reads readRecord bs record) (running : r.seenEnd = false)
    (input : r.input = bs ++ rest)
    (processed : { r with input := rest }.process env record = .ok (next, r')) :
    r.readLoop env (rounds + 1) invoked =
      next.elim (fun outcome => .ok ((invoked, outcome), r'))
        fun callbacks => r'.readLoop env rounds (invoked ++ callbacks) := by
  have taken := reads rest
  rw [← input] at taken
  rw [Reader.readLoop, if_neg (by simp [running])]
  simp only [taken, processed, bind, Except.bind]
  cases next <;> rfl

lemma conveys_record (reads : Reads readRecord bs record)
    (step : ∀ r, Synced cfg sizes w r → ∃ r', Synced cfg sizes w' r' ∧ r'.input = r.input ∧
      r.process env record = .ok (.inr cs, r')) : Conveys cfg sizes env w bs cs w' := by
  intro r rest rounds invoked synced input enough
  obtain ⟨r', synced', input', processed⟩ := step _ (synced.withInput rest)
  have some := reads_pos reads
  have length : r.input.length = bs.length + rest.length := by rw [input, length_append]
  obtain ⟨rounds, rfl⟩ : ∃ k, rounds = k + 1 := ⟨rounds - 1, by omega⟩
  exact ⟨r', rounds, synced', input', by omega,
    readLoop_record reads synced.running input processed⟩

lemma yields_record (reads : Reads readRecord bs record)
    (step : ∀ r, Synced cfg sizes w r → ∃ r', Synced cfg sizes w' r' ∧ r'.input = r.input ∧
      r.process env record = .ok (.inl (.instruction i), r')) : Yields cfg sizes env w bs i w' := by
  intro r rest rounds invoked synced input enough
  obtain ⟨r', synced', input', processed⟩ := step _ (synced.withInput rest)
  obtain ⟨rounds, rfl⟩ : ∃ k, rounds = k + 1 := ⟨rounds - 1, by omega⟩
  exact ⟨r', synced', input', readLoop_record reads synced.running input processed⟩

end Sniper.Sift
