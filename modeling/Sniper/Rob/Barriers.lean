import Sniper.Lib.Runs
import Sniper.Rob.Window

/-!
# Memory barriers

A load or a store should be issued after every barrier before it. A fence reaches this through the
tracker, on which later memory operations depend, and through the flags of the scan. The store of an
atomic instruction is a barrier too, but the tracker takes it for a store only, and the scan raises
its flags for a barrier only once this is ready: a later load overtakes it while it waits for its
operands. So does one whose barrier the contention model refuses.
-/

namespace Sniper.Rob

open List DynamicMicroOp Thread Nat

variable {μ σ : Type} {core : Core μ σ}

/-- No load or store has been issued before an earlier barrier. Uops are issued before they
leave the buffer, and leave it in order, so the entries of the buffer are all that matter. -/
def Ordered (s : RobTimer μ σ) : Prop :=
  ∀ (i j : ℕ) (barrier memop : RobEntry), i < j → s.rob[i]? = some barrier →
    s.rob[j]? = some memop → barrier.uop.isMemBarrier → (memop.uop.isLoad ∨ memop.uop.isStore) →
    memop.done ≠ ⊤ → barrier.done ≠ ⊤

/-! ## The window before a scan -/

/-- A uop that has not been issued will wake the entry. -/
def RobEntry.Awaits (entry producer : RobEntry) : Prop :=
  producer.done = ⊤ ∧ entry.number ∈ producer.dependants

/-- The entry waits for its operands. -/
def Waits (s : RobTimer μ σ) (entry : RobEntry) : Prop :=
  ↑s.now < entry.ready ∨ ∃ producer ∈ s.rob, entry.Awaits producer

/-- The entry has its operands, or waits for one that takes no time once it is issued. -/
def MayIssue (s : RobTimer μ σ) (entry : RobEntry) : Prop :=
  entry.ready ≤ ↑s.now ∨ ∃ producer ∈ s.rob, entry.Awaits producer ∧
    producer.uop.isStore = false ∧ producer.uop.execLatency = 0

/-- The barrier may come to the head of the queue in this cycle, and if it is there already, the
contention model refuses it. -/
def Refusable (core : Core μ σ) (s : RobTimer μ σ) (i : ℕ) (barrier : RobEntry) : Prop :=
  ∃ model ∈ core.contention, MayIssue s barrier ∧ s.lastStoreDone ≤ s.now ∧
    (∀ k < i, ∀ before ∈ s.rob[k]?, before.done = ⊤ → MayIssue s before) ∧
    ((∀ k < i, ∀ before ∈ s.rob[k]?, before.done ≠ ⊤) →
      (model.tryIssue barrier.uop (model.initCycle s.now s.contention)).1 = false)

/-- The scan may pass by this barrier and go on to later loads: it is a memory access itself and
waits for its operands, or the contention model may refuse it at the head of the queue. -/
def Overtakable (core : Core μ σ) (s : RobTimer μ σ) (i : ℕ) (barrier : RobEntry) : Prop :=
  core.inorder = false ∧ ((barrier.uop.isLoad ∨ barrier.uop.isStore) ∧ Waits s barrier ∨
    Refusable core s i barrier)

/-- In the window there is such a barrier, and a load after it that may be issued. -/
def Exposed (core : Core μ σ) (s : RobTimer μ σ) : Prop :=
  ∃ j < s.numInRob, ∃ i < j, ∃ barrier ∈ s.rob[i]?, ∃ load ∈ s.rob[j]?,
    barrier.uop.isMemBarrier ∧ barrier.done = ⊤ ∧ Overtakable core s i barrier ∧
    load.uop.isLoad ∧ ¬ load.uop.isMemBarrier ∧ load.done = ⊤ ∧ MayIssue s load

instance (entry producer : RobEntry) : Decidable (entry.Awaits producer) :=
  inferInstanceAs (Decidable (_ ∧ _))

instance (s : RobTimer μ σ) (entry : RobEntry) : Decidable (Waits s entry) :=
  inferInstanceAs (Decidable (_ ∨ _))

instance (s : RobTimer μ σ) (entry : RobEntry) : Decidable (MayIssue s entry) :=
  inferInstanceAs (Decidable (_ ∨ _))

instance (s : RobTimer μ σ) (i : ℕ) (barrier : RobEntry) : Decidable (Refusable core s i barrier) :=
  inferInstanceAs (Decidable (∃ model ∈ core.contention, _))

instance (s : RobTimer μ σ) (i : ℕ) (barrier : RobEntry) :
    Decidable (Overtakable core s i barrier) :=
  inferInstanceAs (Decidable (_ ∧ _))

instance (s : RobTimer μ σ) : Decidable (Exposed core s) :=
  inferInstanceAs (Decidable (∃ j < s.numInRob, ∃ i < j, _))

/-! ## Since the scan began -/

/-- What a scan of the window may have made of an entry. -/
structure Since (window : RobTimer μ σ) (before after : RobEntry) : Prop where
  identity : after.uop.identity = before.uop.identity
  dependants : after.dependants = before.dependants
  issued : after.done ≠ ⊤ → before.done ≠ ⊤ ∨ MayIssue window before
  waiting : after.done = ⊤ →
    before.done = ⊤ ∧ after.uop.execLatency = before.uop.execLatency
  ready : after.done = ⊤ → after.ready = before.ready ∨ ∃ producer ∈ window.rob,
    before.Awaits producer ∧ (after.ready ≤ ↑window.now →
      producer.uop.isStore = false ∧ producer.uop.execLatency = 0)

section Since

variable {window : RobTimer μ σ} {before after entry : RobEntry} {rob rob' : List RobEntry}
  {now i cycle finish : ℕ}

lemma Since.refl (entry : RobEntry) : Since window entry entry :=
  ⟨rfl, rfl, .inl, fun waits => ⟨waits, rfl⟩, fun _ => .inl rfl⟩

lemma Since.number (since : Since window before after) : after.number = before.number :=
  congrArg Prod.snd since.identity

lemma Since.microOp (since : Since window before after) :
    after.uop.microOp = before.uop.microOp := congrArg Prod.fst since.identity

lemma Since.mayIssue (since : Since window before after) (waits : after.done = ⊤)
    (ready : after.ready ≤ ↑window.now) : MayIssue window before := by
  rcases since.ready waits with same | ⟨producer, there, awaits, instant⟩
  · exact .inl (same ▸ ready)
  · exact .inr ⟨producer, there, awaits, instant ready⟩

lemma Since.waits (since : Since window before after) (waits : after.done = ⊤)
    (unready : ↑window.now < after.ready) : Waits window before := by
  rcases since.ready waits with same | ⟨producer, there, awaits, -⟩
  · exact .inl (same ▸ unready)
  · exact .inr ⟨producer, there, awaits⟩

/-- An entry that was woken and is ready in this cycle was woken by one without latency, which was
an unissued entry of the window. -/
lemma Since.issue (since : Pointwise (fun _ => Since window) window.rob rob)
    (found : rob[i]? = some entry) (waits : entry.done = ⊤) (ready : entry.ready ≤ ↑now)
    (issues : Issues now cycle finish i entry rob rob') (clock : now = window.now) :
    Pointwise (fun _ => Since window) window.rob rob' := by
  subst clock
  refine ⟨issues.changed.length.trans since.length, fun k after there => ?_⟩
  obtain ⟨middle, placed, effect⟩ := issues.changed.entries k after there
  obtain ⟨before, old, earlier⟩ := since.entries k middle placed
  obtain ⟨producer, source, same⟩ := since.entries i entry found
  have identity := effect.identity.trans earlier.identity
  have dependants := effect.dependants.trans earlier.dependants
  refine ⟨before, old, ?_⟩
  cases effect with
  | done here eq done =>
    subst eq
    have issued : after.done ≠ ⊤ := by
      rw [done.done]
      exact WithTop.coe_ne_top
    exact ⟨identity, dependants, fun _ => .inr (earlier.mayIssue waits ready),
      fun unissued => absurd unissued issued, fun unissued => absurd unissued issued⟩
  | woken other woken =>
    have done := woken.done
    refine ⟨identity, dependants, done ▸ earlier.issued, ?_, ?_⟩
    · rw [done, woken.execLatency]
      exact earlier.waiting
    intro unissued
    rw [done] at unissued
    rw [woken.ready]
    split
    · next wakes =>
      refine .inr ⟨producer, mem_of_getElem? source, ⟨(same.waiting waits).1, ?_⟩, fun inTime => ?_⟩
      · rw [← same.dependants, ← earlier.number]
        exact count_pos_iff.mp wakes.2
      · rw [woken.readyMax, if_pos wakes.2] at inTime
        have instant := issues.instant (WithTop.coe_le_coe.mp ((le_max_right _ _).trans inTime))
        rwa [isStore, same.microOp, (same.waiting waits).2] at instant
    · exact earlier.ready unissued

end Since

/-! ## The scan -/

variable {uop : DynamicMicroOp}

lemma isFence_of_not (isBarrier : uop.isMemBarrier = true)
    (kind : ¬ (uop.isLoad = true ∨ uop.isStore = true)) : uop.microOp.isFence = true := by
  obtain ⟨notLoad, notStore⟩ := not_or.mp kind
  rw [isLoad, Bool.not_eq_true] at notLoad
  rw [isStore, Bool.not_eq_true] at notStore
  rw [isMemBarrier] at isBarrier
  rw [MicroOp.isFence, notLoad, notStore, isBarrier]
  rfl

def Prompt (s : RobTimer μ σ) : Prop :=
  ∀ front : RobEntry, s.rob[0]? = some front → front.done = ⊤ → front.ready ≤ ↑s.now

structure Scanned (first now : ℕ) (s : RobTimer μ σ) : Prop where
  clock : s.now = now
  sound : Sound first (now + 1) s
  ordered : Ordered s

/-- The scan of the window has come to the `i`-th entry. -/
structure Scanning (core : Core μ σ) (window : RobTimer μ σ) (first i : ℕ) (scan : Scan)
    (s : RobTimer μ σ) : Prop extends Scanned first window.now s where
  size : s.numInRob = window.numInRob
  prompt : Prompt s
  since : Pointwise (fun _ => Since window) window.rob s.rob
  stores : window.lastStoreDone ≤ s.lastStoreDone
  /-- Entries that have been issued before are passed without effect. -/
  untouched : (∀ k < i, ∀ before ∈ window.rob[k]?, before.done ≠ ⊤) → s.rob = window.rob ∧
    ∀ model ∈ core.contention, s.contention = model.initCycle window.now window.contention
  head : scan.headOfQueue = true →
    ∀ (k : ℕ) before, k < i → s.rob[k]? = some before → before.done ≠ ⊤
  flags : scan.noMoreStore = scan.noMoreLoad
  /-- What has become of a barrier that was not issued. -/
  passed : ∀ (k : ℕ) barrier, k < i → s.rob[k]? = some barrier →
    barrier.uop.isMemBarrier → barrier.done = ⊤ →
    scan.noMoreLoad = true ∨ (∃ before ∈ window.rob[k]?, Overtakable core window k before) ∨
      (barrier.uop.microOp.isFence ∧ ↑s.now < barrier.ready)

section Scan

variable {window : RobTimer μ σ} {first now i : ℕ} {scan scan' : Scan} {s : RobTimer μ σ}
  {entry after : RobEntry} {cycle finish k : ℕ}

lemma Scanned.contention (scanned : Scanned first now s) (contention : σ) :
    Scanned first now { s with contention := contention } :=
  ⟨scanned.clock, scanned.sound.contention contention, scanned.ordered⟩

lemma Scanning.hold (scanning : Scanning core window first i scan s)
    (found : s.rob[i]? = some entry) {contention : σ}
    (quiet : entry.done ≠ ⊤ → contention = s.contention)
    (head : scan'.headOfQueue = true → scan.headOfQueue = true ∧ entry.done ≠ ⊤)
    (flags : scan'.noMoreStore = scan'.noMoreLoad)
    (fenced : scan.noMoreLoad = true → scan'.noMoreLoad = true)
    (barrier : entry.uop.isMemBarrier → entry.done = ⊤ → scan'.noMoreLoad = true ∨
      (∃ before ∈ window.rob[i]?, Overtakable core window i before) ∨
      (entry.uop.microOp.isFence ∧ ↑s.now < entry.ready)) :
    Scanning core window first (i + 1) scan' { s with contention := contention } := by
  refine ⟨scanning.contention contention, scanning.size, scanning.prompt, scanning.since,
    scanning.stores, ?_, ?_, flags, ?_⟩
  · intro issued
    obtain ⟨same, started⟩ := scanning.untouched fun k earlier => issued k (by omega)
    rw [same] at found
    refine ⟨same, fun model contended => ?_⟩
    rw [← started model contended]
    exact quiet (issued i (lt_succ_self i) entry found)
  · intro atHead k before earlier there
    obtain ⟨atHead, issued⟩ := head atHead
    rcases Nat.lt_succ_iff_lt_or_eq.mp earlier with earlier | rfl
    · exact scanning.head atHead k before earlier there
    · cases found.symm.trans there
      exact issued
  · intro k other earlier there isBarrier waits
    rcases Nat.lt_succ_iff_lt_or_eq.mp earlier with earlier | rfl
    · exact (scanning.passed k other earlier there isBarrier waits).imp_left fenced
    · cases found.symm.trans there
      exact barrier isBarrier waits

lemma Effect.earlier {rob : List RobEntry} {before : RobEntry}
    (effect : Effect now cycle finish i entry k before after) (linkage : Linkage first rob)
    (found : rob[i]? = some entry) (old : rob[k]? = some before) (earlier : k < i) :
    after.ready = before.ready := by
  cases effect with
  | woken other woken =>
    rw [woken.ready, linkage.silent found old earlier.le]
    exact if_neg (by omega)
  | done here => exact absurd here (by omega)

/-- The order is kept if the barriers before the entry that is issued have been issued. -/
lemma Ordered.issue (ordered : Ordered s) {s' : RobTimer μ σ}
    (issues : Issues now cycle finish i entry s.rob s'.rob) (found : s.rob[i]? = some entry)
    (covers : ∀ (k : ℕ) barrier, k < i → s.rob[k]? = some barrier → barrier.uop.isMemBarrier →
      (entry.uop.isLoad ∨ entry.uop.isStore) → barrier.done ≠ ⊤) : Ordered s' := by
  intro k j barrier' memop' earlier there' placed' isBarrier kind issued
  obtain ⟨barrier, there, effect⟩ := issues.changed.entries k barrier' there'
  obtain ⟨memop, placed, effect'⟩ := issues.changed.entries j memop' placed'
  rw [isMemBarrier, effect.microOp] at isBarrier
  rw [isLoad, isStore, effect'.microOp] at kind
  refine effect.issued ?_
  by_cases this : j = i
  · subst this
    cases found.symm.trans placed
    exact covers k barrier earlier there isBarrier kind
  · rw [effect'.done_of_ne this] at issued
    exact ordered k j barrier memop earlier there placed isBarrier kind issued

lemma Prompt.issue (prompt : Prompt s) {s' : RobTimer μ σ}
    (issues : Issues now cycle finish i entry s.rob s'.rob) (linkage : Linkage first s.rob)
    (found : s.rob[i]? = some entry) (clock : s'.now = s.now) : Prompt s' := by
  intro front' there' waits
  obtain ⟨front, there, effect⟩ := issues.changed.entries 0 front' there'
  obtain ⟨other, unissued⟩ := effect.waits waits
  rw [effect.earlier linkage found there (by omega), clock]
  exact prompt front there unissued

lemma lastStoreDone_le_issueInstruction (core : Core μ σ) (i : ℕ) (entry : RobEntry)
    (s : RobTimer μ σ) : s.lastStoreDone ≤ (issueInstruction core i entry s).lastStoreDone := by
  rw [issueInstruction]
  dsimp only
  split
  · exact le_max_left _ _
  · exact le_rfl

section

variable (scanning : Scanning core window first i scan s)

include scanning

/-- A load or store that is issued finds no unissued barrier before it: the scan has raised its flags
for such a barrier, or the uop waits for it, or the window was exposed. -/
lemma Scanning.covers (covered : ¬ Exposed core window) (inside : i < window.numInRob)
    (found : s.rob[i]? = some entry) (waiting : entry.done = ⊤)
    (decided : verdict core s (scan.seen entry) entry = .issue) {barrier : RobEntry}
    (earlier : k < i) (there : s.rob[k]? = some barrier) (isBarrier : barrier.uop.isMemBarrier)
    (kind : entry.uop.isLoad ∨ entry.uop.isStore) : barrier.done ≠ ⊤ := by
  intro waits
  obtain ⟨ready, unfenced, head, -⟩ := verdict_issue decided
  have notHead : scan.headOfQueue ≠ true := fun atHead =>
    scanning.head atHead k barrier earlier there waits
  have load : entry.uop.isLoad = true := kind.resolve_right fun store => notHead (head (.inl store))
  rcases scanning.passed k barrier earlier there isBarrier waits with
    fenced | ⟨before, old, overtakable⟩ | ⟨isFence, unready⟩
  · exact absurd (fenced.symm.trans (unfenced load)) (by decide)
  · obtain ⟨barrier₀, old', same⟩ := scanning.since.entries k barrier there
    cases old.symm.trans old'
    obtain ⟨entry₀, placed, same'⟩ := scanning.since.entries i entry found
    rw [isMemBarrier, same.microOp] at isBarrier
    rw [scanning.clock] at ready
    rw [isLoad, same'.microOp] at load
    refine covered ⟨i, inside, k, earlier, before, old, entry₀, placed, isBarrier,
      (same.waiting waits).1, overtakable, load, fun also => notHead (head (.inr ?_)),
      (same'.waiting waiting).1, same'.mayIssue waiting ready⟩
    rw [isMemBarrier, same'.microOp]
    exact also
  · rcases scanning.sound.barred.fences k barrier i entry earlier there found isFence waits kind
      with rfl | ⟨m, last, -, -, -, mem⟩
    · exact absurd (scanning.prompt barrier there waits) (not_le.mpr unready)
    · rw [scanning.sound.timed.unready i entry found (ne_nil_of_mem mem)] at ready
      exact absurd (top_le_iff.mp ready) WithTop.coe_ne_top

/-- Issuing keeps what the scan has found out: entries before the one that is issued do not
change. -/
lemma Scanning.issue (covered : ¬ Exposed core window) (inside : i < window.numInRob)
    (found : s.rob[i]? = some entry) (waiting : entry.done = ⊤)
    (decided : verdict core s (scan.seen entry) entry = .issue) (contention : σ)
    (head : scan'.headOfQueue = scan.headOfQueue)
    (flags : scan'.noMoreStore = scan.noMoreStore ∧ scan'.noMoreLoad = scan.noMoreLoad) :
    Scanning core window first (i + 1) scan'
      (issueInstruction core i entry { s with contention := contention }) := by
  have linkage := scanning.sound.linkage
  have clock : s.now = window.now := scanning.clock
  have ready := (verdict_issue decided).1
  obtain ⟨cycle, finish, issues⟩ := issueInstruction_issues core
    (s := { s with contention := contention }) linkage.numbered found (linkage.later i entry found)
  refine ⟨⟨clock, ?_, ?_⟩, scanning.size, ?_,
    Since.issue scanning.since found waiting ready issues clock,
    scanning.stores.trans (lastStoreDone_le_issueInstruction core i entry _), ?_, ?_, ?_, ?_⟩
  · exact (scanning.sound.contention contention).issueInstruction core (scanning.size ▸ inside)
      found waiting fun kind => scanning.head ((verdict_issue decided).2.2.1 kind)
  · exact scanning.ordered.issue issues found fun k barrier earlier there isBarrier kind =>
      scanning.covers covered inside found waiting decided earlier there isBarrier kind
  · exact scanning.prompt.issue issues linkage found rfl
  · intro issued
    obtain ⟨before, old, since⟩ := scanning.since.entries i entry found
    exact absurd (since.waiting waiting).1 (issued i (lt_succ_self i) before old)
  · intro atHead k before' earlier there'
    obtain ⟨before, there, effect⟩ := issues.changed.entries k before' there'
    rcases Nat.lt_succ_iff_lt_or_eq.mp earlier with earlier | rfl
    · exact effect.issued (scanning.head (head ▸ atHead) k before earlier there)
    · rw [effect.finish_of_eq rfl]
      exact WithTop.coe_ne_top
  · rw [flags.1, flags.2]
    exact scanning.flags
  · intro k barrier' earlier there' isBarrier waits
    obtain ⟨barrier, there, effect⟩ := issues.changed.entries k barrier' there'
    obtain ⟨other, unissued⟩ := effect.waits waits
    have before : k < i := by omega
    rw [isMemBarrier, effect.microOp] at isBarrier
    rw [flags.2, effect.microOp, effect.earlier linkage found there before]
    exact scanning.passed k barrier before there isBarrier unissued

/-- The model has been asked about nothing before, unless entries before the barrier were issued in
this cycle. -/
lemma Scanning.refusable (found : s.rob[i]? = some entry) (waiting : entry.done = ⊤)
    (decided : verdict core s (scan.seen entry) entry = .issue) {model : RobContention σ}
    (contended : core.contention = some model)
    (refuses : (model.tryIssue entry.uop s.contention).1 = false)
    (isBarrier : entry.uop.isMemBarrier) :
    ∃ before ∈ window.rob[i]?, Refusable core window i before := by
  obtain ⟨ready, -, head, stored⟩ := verdict_issue decided
  obtain ⟨before, old, since⟩ := scanning.since.entries i entry found
  have clock := scanning.clock
  rw [clock] at ready stored
  refine ⟨before, old, model, contended, since.mayIssue waiting ready,
    scanning.stores.trans (stored isBarrier), ?_, ?_⟩
  · intro k earlier first_ there unissued
    obtain ⟨now_, placed, same⟩ := scanning.since.forth there
    exact (same.issued (scanning.head (head (.inr isBarrier)) k now_ earlier placed)).resolve_left
      (not_not.mpr unissued)
  · intro issued
    obtain ⟨same, started⟩ := scanning.untouched issued
    rw [same] at found
    cases found.symm.trans old
    rw [← started model contended]
    exact refuses

/-- One turn of the scan. -/
lemma Scanning.turn (covered : ¬ Exposed core window) (inside : i < window.numInRob)
    (found : s.rob[i]? = some entry) {result : Bool × Scan × RobTimer μ σ}
    (turn : Turn core i entry scan s result) :
    (result.1 = true → Scanning core window first (i + 1) result.2.1 result.2.2) ∧
      Scanned first window.now result.2.2 := by
  have goesOn : ∀ {scan : Scan} {s : RobTimer μ σ}, (held core entry scan s).1 = true →
      core.inorder = false := fun goOn => by
    rw [held, Bool.and_eq_true, Bool.not_eq_true'] at goOn
    exact goOn.1
  cases turn with
  | passed finished =>
    exact ⟨fun _ => scanning.hold found (fun _ => rfl) (fun atHead => ⟨atHead, finished⟩)
      scanning.flags id fun _ waits => absurd waits finished, scanning.toScanned⟩
  | stopped => exact ⟨Bool.noConfusion, scanning.toScanned⟩
  | fenced waiting decided =>
    exact ⟨fun _ => scanning.hold found (fun _ => rfl) Bool.noConfusion rfl (fun _ => rfl)
      fun _ _ => Or.inl rfl, scanning.toScanned⟩
  | blocked waiting decided =>
    refine ⟨fun goOn => scanning.hold found (fun _ => rfl) Bool.noConfusion
      scanning.flags id fun isBarrier _ => ?_, scanning.toScanned⟩
    rcases verdict_hold decided isBarrier with unready | fenced | fenced
    · by_cases kind : entry.uop.isLoad = true ∨ entry.uop.isStore = true
      · obtain ⟨before, old, since⟩ := scanning.since.entries i entry found
        rw [scanning.clock] at unready
        rw [isLoad, isStore, since.microOp] at kind
        exact .inr (.inl ⟨before, old, goesOn goOn, .inl ⟨kind, since.waits waiting unready⟩⟩)
      · exact .inr (.inr ⟨isFence_of_not isBarrier kind, unready⟩)
    · exact .inl fenced
    · exact .inl (scanning.flags.symm.trans fenced)
  | refused waiting decided contended refuses contention =>
    refine ⟨fun goOn => scanning.hold found (fun issued => absurd waiting issued)
      Bool.noConfusion scanning.flags id fun isBarrier _ => ?_, scanning.contention contention⟩
    obtain ⟨before, old, refusable⟩ :=
      scanning.refusable found waiting decided contended refuses isBarrier
    exact .inr (.inl ⟨before, old, goesOn goOn, .inr refusable⟩)
  | granted waiting decided contention =>
    have next : Scanning core window first (i + 1)
        (issued core i entry (scan.seen entry) { s with contention := contention }).2.1 _ :=
      scanning.issue covered inside found waiting decided contention rfl ⟨rfl, rfl⟩
    exact ⟨fun _ => next, next.toScanned⟩

end

end Scan

/-! ## A cycle -/

def Idle (s : RobTimer μ σ) : Prop :=
  ∀ (i : ℕ) entry, i < s.numInRob → s.rob[i]? = some entry → ↑s.now < entry.ready

section Cycle

variable {first now : ℕ} {s : RobTimer μ σ}

lemma doIssue_of_prompt (covered : ¬ Exposed core s) (scanned : Scanned first s.now s)
    (prompt : Prompt s) : Scanned first s.now (doIssue core s).1 := by
  refine doIssue_rule (P := Scanning core s first) ?_ (fun _ _ _ scanning => scanning.toScanned) ?_
  · refine ⟨scanned.contention _, rfl, prompt, ?_, le_rfl, ?_, ?_, rfl, ?_⟩
    · exact ⟨rfl, fun k entry there => ⟨entry, there, .refl entry⟩⟩
    · intro _
      refine ⟨rfl, fun model contended => ?_⟩
      rw [Option.mem_def.mp contended]
      rfl
    · exact fun _ _ _ early => absurd early (not_lt_zero _)
    · exact fun _ _ early => absurd early (not_lt_zero _)
  · intro i entry scan t result scanning inside found turn
    exact scanning.turn covered inside found turn

lemma doIssue_of_idle (scanned : Scanned first s.now s) (idle : Idle s) :
    Scanned first s.now (doIssue core s).1 := by
  refine (doIssue_keeps (P := fun t => Scanned first s.now t ∧ t.rob = s.rob)
    (fun contention => ⟨scanned.contention contention, rfl⟩) ?_).1
  rintro i entry scan t result ⟨scanned, same⟩ inside found turn
  cases turn with
  | granted waiting decided contention =>
    have ready := (verdict_issue decided).1
    rw [same] at found
    rw [scanned.clock] at ready
    exact absurd ready (not_le.mpr (idle i entry inside found))
  | refused waiting decided contended refuses contention =>
    exact ⟨scanned.contention contention, same⟩
  | passed | stopped | fenced | blocked => exact ⟨scanned, same⟩

variable {limit : ℕ}

lemma Ordered.of_alike {s s' : RobTimer μ σ} (ordered : Ordered s)
    (changed : Pointwise (fun _ => Alike limit) s.rob s'.rob) : Ordered s' := by
  intro i j barrier' memop' earlier there' placed' isBarrier kind issued
  obtain ⟨barrier, there, same⟩ := changed.entries i barrier' there'
  obtain ⟨memop, placed, same'⟩ := changed.entries j memop' placed'
  rw [same.uop] at isBarrier
  rw [same'.uop] at kind
  rw [same'.done] at issued
  rw [same.done]
  exact ordered i j barrier memop earlier there placed isBarrier kind issued

lemma Sound.prompt (sound : Sound first s.now s) : Prompt s := by
  intro front there waits
  have free : front.pending = [] := by
    refine List.eq_nil_iff_forall_not_mem.mpr fun number mem => ?_
    obtain ⟨k, producer, earlier, -⟩ := sound.linkage.pending 0 front there number mem
    exact not_lt_zero k earlier
  have readyMax := sound.timed.bounded 0 front there s.now le_rfl
    fun k producer earlier => absurd earlier (not_lt_zero k)
  exact (sound.timed.settled 0 front there free).trans (max_le readyMax le_rfl)

structure Dispatched (first now : ℕ) (s : RobTimer μ σ) : Prop extends Scanned first now s where
  front : Prompt s ∧ 0 < s.numInRob ∨ Idle s

lemma Dispatched.dispatchEntry (dispatched : Dispatched first now s) {entry : RobEntry}
    (found : s.rob[s.numInRob]? = some entry) : Dispatched first now (dispatchEntry s entry) := by
  obtain ⟨⟨rfl, sound, ordered⟩, front⟩ := dispatched
  refine ⟨⟨rfl, sound.dispatchEntry found, ordered.of_alike (dispatchEntry_alike found)⟩, ?_⟩
  rcases front with ⟨prompt, positive⟩ | idle
  · refine .inl ⟨fun front there waits => ?_, succ_pos _⟩
    simp only [Rob.dispatchEntry, getElem?_set_ne (ne_of_gt positive)] at there
    exact prompt front there waits
  · refine .inr fun i other inside there => ?_
    simp only [Rob.dispatchEntry] at inside there ⊢
    rcases Nat.lt_succ_iff_lt_or_eq.mp inside with inside | rfl
    · rw [getElem?_set_ne (ne_of_gt inside)] at there
      exact idle i other inside there
    · rw [getElem?_set_self (List.getElem?_eq_some_iff.mp found).1] at there
      cases there
      exact lt_max_of_lt_right (WithTop.coe_lt_coe.mpr (lt_succ_self _))

lemma doDispatch_dispatched (core : Core μ σ) (sound : Sound first s.now s)
    (ordered : Ordered s) : Dispatched first s.now (doDispatch core s).1 := by
  have start : Dispatched first s.now s := by
    refine ⟨⟨rfl, ⟨sound.fresh, sound.next, sound.linkage,
      sound.timed.later le_rfl (le_succ _), sound.barred⟩, ordered⟩, ?_⟩
    rcases Nat.eq_zero_or_pos s.numInRob with empty | positive
    · exact .inr fun i entry inside => absurd inside (by omega)
    · exact .inl ⟨sound.prompt, positive⟩
  rw [doDispatch]
  dsimp only
  split
  · refine dispatchLoop_rule (P := Dispatched first s.now) ?_
      (fun t entry dispatched found => dispatched.dispatchEntry found) _ _ _ start
    rintro t stalled miss ⟨⟨clock, sound, ordered⟩, front⟩
    exact ⟨⟨clock, ⟨⟨sound.fresh.within, sound.fresh.waiting⟩, sound.next, sound.linkage,
      sound.timed, sound.barred⟩, ordered⟩, front⟩
  · exact start

lemma Dispatched.doIssue (dispatched : Dispatched first now s) (covered : ¬ Exposed core s) :
    Scanned first now (doIssue core s).1 := by
  obtain ⟨scanned, ⟨prompt, -⟩ | idle⟩ := dispatched
  · obtain rfl := scanned.clock
    exact doIssue_of_prompt covered scanned prompt
  · obtain rfl := scanned.clock
    exact doIssue_of_idle scanned idle

lemma Ordered.commitEntry (ordered : Ordered s) (entry : RobEntry) :
    Ordered (commitEntry s entry) := by
  intro i j barrier memop earlier there placed
  simp only [Rob.commitEntry, getElem?_tail] at there placed
  exact ordered (i + 1) (j + 1) barrier memop (by omega) there placed

lemma Ordered.doCommit (core : Core μ σ) (ordered : Ordered s) : Ordered (doCommit core s).1 :=
  commitLoop_rule (P := Ordered) (fun _ entry ordered _ _ => ordered.commitEntry entry) _ _ ordered

lemma Sound.doCommit (core : Core μ σ) (sound : Sound first limit s) :
    ∃ first', Sound first' limit (doCommit core s).1 :=
  commitLoop_rule (P := fun t => ∃ first', Sound first' limit t) (fun _ _ sound front finished =>
      sound.elim fun _ sound => ⟨_, sound.commitEntry front finished⟩) _ _ ⟨first, sound⟩

lemma execute_ordered (sound : Sound first s.now s) (ordered : Ordered s)
    (covered : ¬ Exposed core (doDispatch core s).1) :
    (∃ first', Sound first' (execute core s).now (execute core s)) ∧
      Ordered (execute core s) := by
  have scanned := (doDispatch_dispatched core sound ordered).doIssue covered
  obtain ⟨first', sound'⟩ := scanned.sound.doCommit core
  have clock := stages_now core s
  refine ⟨?_, scanned.ordered.doCommit core⟩
  have later : s.now + 1 ≤ (execute core s).now := by
    rw [← clock]
    exact now_lt_skipTo _ _
  have timed : Timed (stages core s).1.now (s.now + 1) (stages core s).1.rob := sound'.timed
  rw [clock] at timed
  exact ⟨first', ⟨sound'.fresh.within, sound'.fresh.waiting⟩, sound'.next, sound'.linkage,
    timed.later (by omega) later, sound'.barred⟩

end Cycle

/-! ## Runs -/

def Guarded (thread : Thread μ σ) : Prop :=
  (∃ first, Sound first thread.timer.now thread.timer) ∧ Ordered thread.timer

lemma Ordered.enqueue {s s' : RobTimer μ σ} (ordered : Ordered s)
    (ran : enqueue core s uop = some s') : Ordered s' := by
  rcases enqueue_appends ran with rfl | ⟨linked, same, unissued, rfl⟩
  · exact ordered
  intro i j barrier memop earlier there placed isBarrier kind issued
  rcases getElem?_appended placed with placed | ⟨-, rfl⟩
  · have inside := (List.getElem?_eq_some_iff.mp placed).1
    simp only [getElem?_append_left (earlier.trans inside)] at there
    obtain ⟨barrier', there', eq⟩ := getElem?_of_unlinked same there
    obtain ⟨memop', placed', eq'⟩ := getElem?_of_unlinked same placed
    have uop := congrArg RobEntry.uop eq
    have uop' := congrArg RobEntry.uop eq'
    have done := congrArg RobEntry.done eq
    have done' := congrArg RobEntry.done eq'
    simp only [RobEntry.unlinked] at uop uop' done done'
    rw [← uop] at isBarrier
    rw [← uop'] at kind
    rw [← done'] at issued
    rw [← done]
    exact ordered i j barrier' memop' earlier there' placed' isBarrier kind issued
  · exact absurd unissued issued

variable {thread : Thread μ σ}

lemma Guarded.simulate (guarded : Guarded thread) : Guarded (thread.simulate core) := by
  obtain ⟨⟨first, sound⟩, ordered⟩ := guarded
  rw [Thread.simulate]
  split
  · exact ⟨⟨first, sound⟩, ordered⟩
  · split
    · next timer ran =>
      obtain ⟨clock, sound, ordered⟩ : timer.now = thread.timer.now ∧
          Sound first thread.timer.now timer ∧ Ordered timer := by
        refine Fallible.foldlM_keeps (I := fun t : RobTimer μ σ => t.now = thread.timer.now ∧
          Sound first thread.timer.now t ∧ Ordered t) ?_ ⟨rfl, sound, ordered⟩ ran
        rintro before uop after ⟨clock, sound, ordered⟩ step
        exact ⟨(enqueue_now step).trans clock, sound.enqueue step, ordered.enqueue step⟩
      exact ⟨⟨first, by rw [clock]; exact sound⟩, ordered⟩
    · exact ⟨⟨first, sound⟩, ordered⟩

/-- If the next step of the thread is a cycle, no barrier of its window is exposed when `doIssue`
begins. -/
def Covered (core : Core μ σ) (thread : Thread μ σ) : Prop :=
  thread.failed = false → needsUops core thread.timer = false →
    ¬ Exposed core (doDispatch core thread.timer).1

instance : Decidable (Covered core thread) := inferInstanceAs (Decidable (_ → _ → _))

lemma Guarded.step (guarded : Guarded thread) (covered : Covered core thread) :
    Guarded (thread.step core (execute core)) := by
  cases failed : thread.failed with
  | true =>
    rw [step_of_failed failed]
    exact guarded
  | false =>
    cases needs : needsUops core thread.timer with
    | true =>
      rw [step_of_needs failed needs]
      exact guarded.simulate
    | false =>
      rw [step_of_cycle failed needs]
      obtain ⟨⟨first, sound⟩, ordered⟩ := guarded
      exact execute_ordered sound ordered (covered failed needs)

/-- Whatever uops a thread runs, on whatever core: as long as no cycle begins with an exposed
barrier, no load or store is issued before an earlier barrier. -/
theorem barriers_ordered (core : Core μ σ) (memory : μ) (contention : σ)
    (calls : List (List DynamicMicroOp)) (n : ℕ)
    (covered : ∀ m < n, Covered core ((Thread.step core (execute core))^[m]
      (Thread.start core memory contention calls))) :
    Ordered ((Thread.step core (execute core))^[n]
      (Thread.start core memory contention calls)).timer := by
  refine (Runs.iterate_guarded (I := Guarded) (fun _ guarded covered => guarded.step covered)
    ?_ n covered).2
  refine Guarded.simulate ⟨⟨0, Sound.create core memory contention⟩, ?_⟩
  intro i j barrier memop _ there
  simp [RobTimer.create] at there

def pairCore : Core Unit Unit := plainCore 2 8 4

/-- `lock xadd [r1], r2`, then `mov r3, [register]` some times, as the decoder gives them. -/
def xaddThenLoads (register loads : ℕ) : List (List DynamicMicroOp) :=
  let xed : Xed := ⟨id, 900, 901⟩
  let xadd : XedInst :=
    ⟨.other, .other, false, true, [⟨1, 0, true, true⟩], [.other, .register 2 true true]⟩
  let mov : XedInst := ⟨.other, .dataxfer, false, false, [⟨register, 0, true, false⟩],
    [.register 3 false true, .other]⟩
  let dynamic := fun (ins : XedInst) (address : ℕ) =>
    ((ins.decode xed).getD []).map fun uop => DynamicMicroOp.ofMicroOp uop address 1
  dynamic xadd 64 :: replicate loads (dynamic mov 128)

def xaddRun (register loads n : ℕ) : Thread Unit Unit :=
  (Thread.step pairCore (execute pairCore))^[n]
    (Thread.start pairCore () () (xaddThenLoads register loads))

/-- The loads need the sum, so none is ready before the store of the `xadd`, and the store is issued
before the first of them. -/
theorem xaddThenDependent_ordered : (∀ m < 11, Covered pairCore (xaddRun 2 7 m)) ∧
    Ordered (xaddRun 2 7 11).timer ∧
    (xaddRun 2 7 11).timer.rob.countP (fun entry => entry.uop.isLoad ∧ entry.done ≠ ⊤) = 1 :=
  have covered : ∀ m < 11, Covered pairCore (xaddRun 2 7 m) := by decide +kernel
  ⟨covered, barriers_ordered pairCore () () (xaddThenLoads 2 7) 11 covered, by decide +kernel⟩

/-- In period 2 the first load is issued, while the store of the `xadd` still waits for the
sum. -/
theorem xaddThenLoads_overtaken : ¬ ∀ n, Ordered (xaddRun 4 5 n).timer := by
  intro ordered
  have after := ordered 8
  have store : ((xaddRun 4 5 8).timer.rob[2]?.map
      fun entry => (entry.uop.isMemBarrier, entry.done)) = some (true, ⊤) := by decide +kernel
  have load : ((xaddRun 4 5 8).timer.rob[3]?.map
      fun entry => (entry.uop.isLoad, entry.done)) = some (true, ((4 : ℕ) : Time)) := by
    decide +kernel
  obtain ⟨barrier, there, isBarrier⟩ := Option.map_eq_some_iff.mp store
  obtain ⟨memop, placed, isLoad⟩ := Option.map_eq_some_iff.mp load
  obtain ⟨isBarrier, waits⟩ := Prod.mk.inj isBarrier
  obtain ⟨isLoad, done⟩ := Prod.mk.inj isLoad
  refine after 2 3 barrier memop (by decide) there placed isBarrier (.inl isLoad) ?_ waits
  rw [done]
  exact WithTop.coe_ne_top

end Sniper.Rob
