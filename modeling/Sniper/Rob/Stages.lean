import Sniper.Lib.Fallible
import Sniper.Rob.Timer

/-!
# The loops of the stages

Each stage is a loop. What its turns keep, the stage keeps: one rule a loop. Entries
beyond the window have not been issued, whatever the stages do.
-/

namespace Sniper.Rob

open List Option

variable {μ σ : Type} {core : Core μ σ}

/-! ## Rules -/

variable {P : RobTimer μ σ → Prop} {s : RobTimer μ σ}

lemma dispatchLoop_room {window : ℕ} (front : ∀ s stalled miss, P s →
      P { s with frontendStalledUntil := stalled, inIcacheMiss := miss })
    (enter : ∀ s entry, P s → s.rob[s.numInRob]? = some entry → s.numInRob < window →
      s.rsEntriesUsed ≠ core.rsEntries → P (dispatchEntry s entry))
    (fuel uopsDispatched : ℕ) (nextEvent : Time)
    (room : fuel ≤ window - s.numInRob) (start : P s) :
    P (dispatchLoop core fuel uopsDispatched nextEvent s).1 := by
  induction fuel generalizing uopsDispatched nextEvent s with
  | zero => exact start
  | succ fuel ih =>
    rw [dispatchLoop]
    split
    · exact start
    next entry found =>
    split
    · exact start
    split
    · exact front s _ _ start
    dsimp only
    split
    · exact front s _ _ start
    next free =>
    have entered := enter _ entry
      (front s s.frontendStalledUntil (s.inIcacheMiss && !entry.uop.iCacheMiss) start) found
      (by omega : s.numInRob < window) free
    split
    · exact front _ _ _ entered
    · exact ih _ _ (by simp only [dispatchEntry]; omega) entered

lemma dispatchLoop_rule (front : ∀ s stalled miss, P s →
      P { s with frontendStalledUntil := stalled, inIcacheMiss := miss })
    (enter : ∀ s entry, P s → s.rob[s.numInRob]? = some entry → P (dispatchEntry s entry))
    (fuel uopsDispatched : ℕ) (nextEvent : Time) (start : P s) :
    P (dispatchLoop core fuel uopsDispatched nextEvent s).1 :=
  dispatchLoop_room front (fun s entry kept found _ _ => enter s entry kept found) fuel
    uopsDispatched nextEvent (by omega : fuel ≤ s.numInRob + fuel - s.numInRob) start

lemma commitLoop_rule (leave : ∀ s entry, P s → s.rob.head? = some entry → entry.done ≤ s.now →
      P (commitEntry s entry)) (fuel numCommitted : ℕ) (start : P s) :
    P (commitLoop core fuel numCommitted s) := by
  induction fuel generalizing numCommitted s with
  | zero => exact start
  | succ fuel ih =>
    rw [commitLoop]
    split
    · exact start
    next entry first =>
    split
    · next finished =>
      split
      · exact leave s entry start first finished
      · exact ih _ (leave s entry start first finished)
    · exact start

/-! ## What a turn of the scan does -/

inductive Turn (core : Core μ σ) (i : ℕ) (entry : RobEntry) (scan : Scan) (s : RobTimer μ σ) :
    Bool × Scan × RobTimer μ σ → Prop where
  | passed (finished : entry.done ≠ ⊤) :
      Turn core i entry scan s (true, { scan with nextEvent := min scan.nextEvent entry.done }, s)
  | stopped (waiting : entry.done = ⊤)
      (decided : verdict core s (scan.seen entry) entry = .stop) :
      Turn core i entry scan s (false, scan.seen entry, s)
  | fenced (waiting : entry.done = ⊤)
      (decided : verdict core s (scan.seen entry) entry = .fence) :
      Turn core i entry scan s (held core entry (scan.seen entry).fenced s)
  | blocked (waiting : entry.done = ⊤)
      (decided : verdict core s (scan.seen entry) entry = .hold) :
      Turn core i entry scan s (held core entry (scan.seen entry) s)
  | refused (waiting : entry.done = ⊤)
      (decided : verdict core s (scan.seen entry) entry = .issue) {model : RobContention σ}
      (contended : core.contention = some model)
      (refuses : (model.tryIssue entry.uop s.contention).1 = false) (contention : σ) :
      Turn core i entry scan s
        (held core entry (scan.seen entry) { s with contention := contention })
  | granted (waiting : entry.done = ⊤)
      (decided : verdict core s (scan.seen entry) entry = .issue) (contention : σ) :
      Turn core i entry scan s
        (issued core i entry (scan.seen entry) { s with contention := contention })

lemma visit_turn (core : Core μ σ) (i : ℕ) (entry : RobEntry) (scan : Scan)
    (s : RobTimer μ σ) : Turn core i entry scan s (visit core i entry scan s) := by
  rw [visit]
  split
  · next finished => exact .passed finished
  next waiting =>
  have waiting : entry.done = ⊤ := not_not.mp waiting
  split
  · next decided => exact .stopped waiting decided
  · next decided => exact .fenced waiting decided
  · next decided => exact .blocked waiting decided
  · next decided =>
    cases contended : core.contention with
    | none => simpa [tryIssue, contended] using Turn.granted waiting decided s.contention
    | some model =>
      simp only [tryIssue, contended]
      split
      · exact .granted waiting decided _
      · next refuses => exact .refused waiting decided contended (by simpa using refuses) _

variable {Q : RobTimer μ σ → Prop}

lemma issueLoop_rule {P : ℕ → Scan → RobTimer μ σ → Prop} {bound : ℕ}
    (ends : ∀ i scan s, P i scan s → Q s)
    (turn : ∀ i entry scan s result, P i scan s → i < bound → s.rob[i]? = some entry →
      Turn core i entry scan s result →
      (result.1 = true → P (i + 1) result.2.1 result.2.2) ∧ Q result.2.2)
    (fuel i : ℕ) {scan : Scan} (within : i + fuel ≤ bound)
    (start : P i scan s) : Q (issueLoop core fuel i scan s).1 := by
  induction fuel generalizing i scan s with
  | zero => exact ends i scan s start
  | succ fuel ih =>
    rw [issueLoop]
    split
    · exact ends i scan s start
    next entry found =>
    obtain ⟨goes, stops⟩ :=
      turn i entry scan s _ start (by omega) found (visit_turn core i entry scan s)
    dsimp only
    split
    · next goOn => exact ih (i + 1) (by omega) (goes goOn)
    · exact stops

lemma doIssue_rule {P : ℕ → Scan → RobTimer μ σ → Prop}
    (start : P 0 .start
      { s with contention :=
          core.contention.elim s.contention fun model => model.initCycle s.now s.contention })
    (ends : ∀ i scan s', P i scan s' → Q s')
    (turn : ∀ i entry scan s' result, P i scan s' → i < s.numInRob → s'.rob[i]? = some entry →
      Turn core i entry scan s' result →
      (result.1 = true → P (i + 1) result.2.1 result.2.2) ∧ Q result.2.2) :
    Q (doIssue core s).1 :=
  issueLoop_rule ends turn s.numInRob 0 (by omega) start

lemma doIssue_keeps (start : ∀ contention, P { s with contention := contention })
    (turn : ∀ i entry scan s' result, P s' → i < s.numInRob → s'.rob[i]? = some entry →
      Turn core i entry scan s' result → P result.2.2) : P (doIssue core s).1 :=
  doIssue_rule (P := fun _ _ => P) (start _) (fun _ _ _ kept => kept)
    fun i entry scan s' result kept inside found turned =>
      have after := turn i entry scan s' result kept inside found turned
      ⟨fun _ => after, after⟩

section Held

variable (entry : RobEntry) (scan : Scan) (s : RobTimer μ σ)

@[simp] lemma held_state : (held core entry scan s).2.2 = s := rfl

@[simp] lemma held_headOfQueue : (held core entry scan s).2.1.headOfQueue = false := rfl

@[simp] lemma held_nextEvent : (held core entry scan s).2.1.nextEvent = scan.nextEvent := rfl

@[simp] lemma held_numIssued : (held core entry scan s).2.1.numIssued = scan.numIssued := rfl

@[simp] lemma held_noMoreLoad : (held core entry scan s).2.1.noMoreLoad = scan.noMoreLoad := rfl

end Held

/-! ## Verdicts -/

section Verdict

variable {scan : Scan} {entry : RobEntry}

lemma verdict_issue (decided : verdict core s scan entry = .issue) :
    entry.ready ≤ s.now ∧ (entry.uop.isLoad → scan.noMoreLoad = false) ∧
      (entry.uop.isStore ∨ entry.uop.isMemBarrier → scan.headOfQueue = true) ∧
      (entry.uop.isMemBarrier → s.lastStoreDone ≤ s.now) := by
  rcases ite_eq_iff.mp decided with ⟨-, ⟨⟩⟩ | ⟨ready, decided⟩
  rcases ite_eq_iff.mp decided with ⟨-, ⟨⟩⟩ | ⟨open_, decided⟩
  refine ⟨not_lt.mp ready, ?_, ?_⟩
  · intro load
    by_contra fenced
    exact open_ (.inl ⟨by simpa using fenced, load⟩)
  · rcases ite_eq_iff.mp decided with ⟨-, decided⟩ | ⟨-, decided⟩
    · rcases ite_eq_iff.mp decided with ⟨head, -⟩ | ⟨-, ⟨⟩⟩
      exact ⟨fun _ => head.1, fun _ => head.2⟩
    rcases ite_eq_iff.mp decided with ⟨-, decided⟩ | ⟨notBarrier, decided⟩
    · rcases ite_eq_iff.mp decided with ⟨head, -⟩ | ⟨-, ⟨⟩⟩
      exact ⟨fun _ => head.1, fun _ => head.2⟩
    refine ⟨fun kind => ?_, fun barrier => absurd barrier notBarrier⟩
    have store := kind.resolve_right notBarrier
    rcases ite_eq_iff.mp decided with ⟨-, ⟨⟩⟩ | ⟨-, decided⟩
    rcases ite_eq_iff.mp decided with ⟨-, ⟨⟩⟩ | ⟨-, decided⟩
    rcases ite_eq_iff.mp decided with ⟨-, ⟨⟩⟩ | ⟨-, decided⟩
    rcases ite_eq_iff.mp decided with ⟨-, ⟨⟩⟩ | ⟨notHeld, -⟩
    by_contra notHead
    exact notHeld ⟨store, .inl notHead⟩

lemma verdict_hold (decided : verdict core s scan entry = .hold)
    (barrier : entry.uop.isMemBarrier = true) :
    ↑s.now < entry.ready ∨ scan.noMoreLoad = true ∨ scan.noMoreStore = true := by
  rcases ite_eq_iff.mp decided with ⟨waits, -⟩ | ⟨-, decided⟩
  · exact .inl waits
  rcases ite_eq_iff.mp decided with ⟨fenced, -⟩ | ⟨-, decided⟩
  · exact .inr (fenced.imp And.left And.left)
  rcases ite_eq_iff.mp decided with ⟨-, decided⟩ | ⟨-, decided⟩
  · rcases ite_eq_iff.mp decided with ⟨-, ⟨⟩⟩ | ⟨-, ⟨⟩⟩
  rw [if_pos barrier] at decided
  rcases ite_eq_iff.mp decided with ⟨-, ⟨⟩⟩ | ⟨-, ⟨⟩⟩

end Verdict

/-! ## Entries beyond the window -/

lemma modifyEntry_map {α : Type*} {g : RobEntry → α} {f : RobEntry → RobEntry}
    (same : ∀ entry, g (f entry) = g entry) (number : ℕ) (rob : List RobEntry) :
    (modifyEntry number f rob).map g = rob.map g := by
  rw [modifyEntry]
  split
  · rfl
  · refine ext_getElem? fun i => ?_
    simp only [getElem?_map, getElem?_modify, Option.map_eq_map, Option.map_map]
    congr 1
    funext entry
    split
    · exact same entry
    · rfl

lemma wakeAll_map {α : Type*} {g : RobEntry → α}
    (same : ∀ doneOf producer cycle entry, g (RobEntry.wake doneOf producer cycle entry) = g entry)
    (producer : ℕ) (cycle : Time) (dependants : List ℕ) (rob : List RobEntry) :
    (wakeAll producer cycle dependants rob).map g = rob.map g := by
  rw [wakeAll]
  generalize (fun number => (findEntryBySequenceNumber rob number).map (·.done)) = doneOf
  induction dependants generalizing rob with
  | nil => rfl
  | cons dependant dependants ih =>
    rw [foldl_cons, ih, modifyEntry_map (same doneOf producer cycle)]

lemma issueInstruction_done (core : Core μ σ) (i : ℕ) (entry : RobEntry) (s : RobTimer μ σ) :
    ∃ finish : ℕ, s.now < finish ∧
      (issueInstruction core i entry s).rob.map (·.done) = (s.rob.map (·.done)).set i ↑finish := by
  refine ⟨if (access core s.now entry.uop s.memory).1.isStore then s.now + 1
    else s.now + (access core s.now entry.uop s.memory).1.execLatency + 1, ?_, ?_⟩
  · split <;> omega
  · rw [issueInstruction, wakeAll_map (fun _ _ _ _ => rfl), map_set]

variable {i : ℕ} {new old : RobEntry} {rob : List RobEntry}

lemma getElem?_replaced {entry : RobEntry} {k : ℕ}
    (placed : rob[i]? = some old) (found : (rob.set i new)[k]? = some entry) :
    (k = i ∧ entry = new) ∨ (k ≠ i ∧ rob[k]? = some entry) := by
  by_cases here : i = k
  · subst here
    rw [getElem?_set_self (List.getElem?_eq_some_iff.mp placed).1] at found
    exact .inl ⟨rfl, (some.inj found).symm⟩
  · rw [getElem?_set_ne here] at found
    exact .inr ⟨Ne.symm here, found⟩

lemma map_replaced {α : Type*} {g : RobEntry → α} (placed : rob[i]? = some old)
    (same : g new = g old) :
    (rob.set i new).map g = rob.map g := by
  refine ext_getElem? fun k => ?_
  rw [map_set, same]
  by_cases here : i = k
  · subst here
    rw [getElem?_set_self (by simpa using (List.getElem?_eq_some_iff.mp placed).1),
      getElem?_map, placed]
    rfl
  · rw [getElem?_set_ne here]

structure Fresh (s : RobTimer μ σ) : Prop where
  within : s.numInRob ≤ s.rob.length
  waiting : ∀ i entry, s.numInRob ≤ i → s.rob[i]? = some entry → entry.done = ⊤

variable {s' : RobTimer μ σ}

lemma Fresh.of_done (fresh : Fresh s) (window : s'.numInRob = s.numInRob)
    (same : ∀ i, s.numInRob ≤ i → (s'.rob.map (·.done))[i]? = (s.rob.map (·.done))[i]?)
    (length : s'.rob.length = s.rob.length) : Fresh s' where
  within := by rw [window, length]; exact fresh.within
  waiting i entry beyond found := by
    rw [window] at beyond
    have done := same i beyond
    rw [getElem?_map, getElem?_map, found] at done
    obtain ⟨old, there, eq⟩ := map_eq_some_iff.mp done.symm
    exact eq.symm.trans (fresh.waiting i old beyond there)

lemma Fresh.dispatchEntry (fresh : Fresh s) {entry : RobEntry}
    (found : s.rob[s.numInRob]? = some entry) : Fresh (dispatchEntry s entry) where
  within := by
    have inside := (List.getElem?_eq_some_iff.mp found).1
    simp only [Rob.dispatchEntry, length_set]
    omega
  waiting i other beyond there := by
    have later : s.numInRob < i := beyond
    simp only [Rob.dispatchEntry, getElem?_set_ne (Nat.ne_of_lt later)] at there
    exact fresh.waiting i other (by omega) there

lemma Fresh.commitEntry (fresh : Fresh s) {entry : RobEntry}
    (first : s.rob.head? = some entry) (finished : entry.done ≤ s.now) :
    Fresh (commitEntry s entry) := by
  have nonempty : 0 < s.numInRob := by
    by_contra empty
    have waiting := fresh.waiting 0 entry (by omega) (by rw [← head?_eq_getElem?, first])
    rw [waiting, top_le_iff] at finished
    exact WithTop.coe_ne_top finished
  refine ⟨?_, ?_⟩
  · have := fresh.within
    simp only [Rob.commitEntry, length_tail]
    omega
  · intro i other beyond there
    simp only [Rob.commitEntry, getElem?_tail] at beyond there
    exact fresh.waiting (i + 1) other (by omega) there

lemma Fresh.issueInstruction (fresh : Fresh s)
    (inside : i < s.numInRob) (entry : RobEntry) : Fresh (issueInstruction core i entry s) := by
  obtain ⟨finish, -, eq⟩ := issueInstruction_done core i entry s
  refine fresh.of_done rfl (fun k beyond => ?_) ?_
  · rw [eq, getElem?_set_ne (by omega)]
  · simpa using congrArg List.length eq

lemma Fresh.doDispatch (fresh : Fresh s) : Fresh (doDispatch core s).1 := by
  rw [Rob.doDispatch]
  dsimp only
  split
  · exact dispatchLoop_rule (P := Fresh) (fun s _ _ fresh => ⟨fresh.within, fresh.waiting⟩)
      (fun s entry fresh found => fresh.dispatchEntry found) _ _ _ fresh
  · exact fresh

lemma Fresh.doIssue (fresh : Fresh s) : Fresh (doIssue core s).1 := by
  refine And.left (doIssue_keeps (P := fun t => Fresh t ∧ t.numInRob = s.numInRob)
    (fun _ => ⟨⟨fresh.within, fresh.waiting⟩, rfl⟩) ?_)
  rintro i entry scan t result ⟨fresh, window⟩ inside - turn
  cases turn with
  | granted waiting decided contention =>
    rw [← window] at inside
    exact ⟨Fresh.issueInstruction (s := { t with contention := contention })
      ⟨fresh.within, fresh.waiting⟩ inside entry, window⟩
  | refused waiting decided contended refuses contention =>
    exact ⟨⟨fresh.within, fresh.waiting⟩, window⟩
  | passed | stopped | fenced | blocked => exact ⟨fresh, window⟩

lemma Fresh.doCommit (fresh : Fresh s) : Fresh (doCommit core s).1 :=
  commitLoop_rule (P := Fresh) (fun _ _ fresh first finished => fresh.commitEntry first finished)
    _ _ fresh

lemma Fresh.stages (fresh : Fresh s) : Fresh (stages core s).1 :=
  fresh.doDispatch.doIssue.doCommit

/-! ## The clock -/

variable (core)

lemma doDispatch_now (s : RobTimer μ σ) : (doDispatch core s).1.now = s.now := by
  rw [doDispatch]
  dsimp only
  split
  · exact dispatchLoop_rule (P := fun t => t.now = s.now) (fun _ _ _ same => same)
      (fun _ _ same _ => same) _ _ _ rfl
  · rfl

lemma doIssue_now (s : RobTimer μ σ) : (doIssue core s).1.now = s.now := by
  refine doIssue_keeps (P := fun t => t.now = s.now) (fun _ => rfl) ?_
  intro i entry scan t result same _ _ turn
  cases turn <;> exact same

lemma doCommit_now (s : RobTimer μ σ) : (doCommit core s).1.now = s.now :=
  commitLoop_rule (P := fun t => t.now = s.now) (fun _ _ same _ _ => same) _ _ rfl

lemma stages_now (s : RobTimer μ σ) : (stages core s).1.now = s.now := by
  simp only [stages, doCommit_now, doIssue_now, doDispatch_now]

variable {core}

lemma now_lt_skipTo (now : ℕ) (nextEvent : Time) : now < skipTo now nextEvent := by
  rw [skipTo]
  split
  · next later =>
    obtain ⟨event, rfl⟩ := WithTop.ne_top_iff_exists.mp later.1
    have : now + 1 < event := WithTop.coe_lt_coe.mp later.2
    show now < event
    omega
  · omega

/-! ## Taking uops -/

def RobEntry.unlinked (entry : RobEntry) : RobEntry := { entry with dependants := [] }

variable {entry' : RobEntry}

lemma setAddressProducers_frame {regs : RegisterDependencies} {lowest : ℕ} {entry : RobEntry}
    (ran : setAddressProducers rob regs lowest entry = some entry') :
    ∃ ready readyMax producers, entry' = { entry with
      addressReady := ready, addressReadyMax := readyMax, addressProducers := producers } := by
  rw [setAddressProducers] at ran
  split at ran
  · obtain ⟨middle, found, rfl⟩ := map_eq_some_iff.mp ran
    obtain ⟨readyMax, producers, rfl⟩ : ∃ readyMax producers, middle = { entry with
        addressReadyMax := readyMax, addressProducers := producers } := by
      refine Fallible.foldlM_keeps (I := fun e : RobEntry => ∃ readyMax producers, e = { entry with
        addressReadyMax := readyMax, addressProducers := producers }) ?_ ⟨_, _, rfl⟩ found
      rintro - producer after ⟨readyMax, producers, rfl⟩ step
      obtain ⟨prodEntry, -, rfl⟩ := map_eq_some_iff.mp step
      split <;> exact ⟨_, _, rfl⟩
    exact ⟨_, _, _, rfl⟩
  · cases ran
    exact ⟨_, _, _, rfl⟩

variable {uop : DynamicMicroOp}

open RobEntry

lemma link_unlinked {linked : Linked} (ran : link core s uop = some linked) :
    linked.rob.map unlinked = s.rob.map unlinked ∧ linked.entry.done = ⊤ := by
  obtain ⟨uop₁, -, ran⟩ := bind_eq_some_iff.mp ran
  obtain ⟨entry, address, ran⟩ := bind_eq_some_iff.mp ran
  obtain ⟨uop₂, -, ran⟩ := bind_eq_some_iff.mp ran
  obtain ⟨result, folded, rfl⟩ := map_eq_some_iff.mp ran
  have kept : result.1.map unlinked = s.rob.map unlinked ∧ result.2.done = entry.done := by
    refine Fallible.foldlM_keeps (I := fun state : List RobEntry × RobEntry =>
      state.1.map unlinked = s.rob.map unlinked ∧ state.2.done = entry.done) ?_ ⟨rfl, rfl⟩ folded
    rintro before dependency after ⟨same, done⟩ step
    obtain ⟨prodEntry, -, rfl⟩ := map_eq_some_iff.mp step
    split
    · exact ⟨same, done⟩
    · refine ⟨(modifyEntry_map ?_ _ _).trans same, done⟩
      exact fun _ => rfl
  obtain ⟨_, _, _, rfl⟩ := setAddressProducers_frame address
  exact kept

lemma enqueue_appends (ran : enqueue core s uop = some s') :
    s' = s ∨ ∃ linked : Linked,
      linked.rob.map unlinked = s.rob.map unlinked ∧ linked.entry.done = ⊤ ∧
      s' = { s with
        rob := linked.rob ++ [linked.entry]
        nextSequenceNumber := s.nextSequenceNumber + 1
        registerDependencies := linked.regs
        memoryDependencies := linked.mem } := by
  rw [enqueue] at ran
  split at ran
  · exact .inl (some.inj ran).symm
  · obtain ⟨linked, links, rfl⟩ := map_eq_some_iff.mp ran
    obtain ⟨same, waiting⟩ := link_unlinked links
    exact .inr ⟨linked, same, waiting, rfl⟩

lemma enqueue_now (ran : enqueue core s uop = some s') : s'.now = s.now := by
  rcases enqueue_appends ran with rfl | ⟨linked, same, unissued, rfl⟩ <;> rfl

lemma getElem?_of_unlinked {rob' : List RobEntry} (same : rob'.map unlinked = rob.map unlinked)
    (found : rob'[i]? = some entry') :
    ∃ entry, rob[i]? = some entry ∧ entry.unlinked = entry'.unlinked := by
  have eq := congrArg (fun entries : List RobEntry => entries[i]?) same
  simp only [getElem?_map, found] at eq
  obtain ⟨entry, there, eq⟩ := map_eq_some_iff.mp eq.symm
  exact ⟨entry, there, eq⟩

lemma getElem?_appended {last entry : RobEntry} (found : (rob ++ [last])[i]? = some entry) :
    rob[i]? = some entry ∨ (i = rob.length ∧ entry = last) := by
  rcases Nat.lt_or_ge i rob.length with inside | outside
  · rw [getElem?_append_left inside] at found
    exact .inl found
  · rw [getElem?_append_right outside, getElem?_singleton] at found
    split at found
    · exact .inr ⟨by omega, (some.inj found).symm⟩
    · cases found

lemma Fresh.enqueue (fresh : Fresh s)
    (ran : enqueue core s uop = some s') : Fresh s' := by
  rcases enqueue_appends ran with rfl | ⟨linked, same, waiting, rfl⟩
  · exact fresh
  have length : linked.rob.length = s.rob.length := by simpa using congrArg List.length same
  refine ⟨?_, fun i other beyond there => ?_⟩
  · have := fresh.within
    simp only [length_append, length]
    omega
  · rcases getElem?_appended there with there | ⟨-, rfl⟩
    · obtain ⟨old, found, eq⟩ := getElem?_of_unlinked same there
      have := fresh.waiting i old beyond found
      exact (congrArg done eq).symm.trans this
    · exact waiting

/-! ## Turns of a thread -/

section Step

variable {cycle : RobTimer μ σ → RobTimer μ σ} {thread : Thread μ σ}

lemma step_of_failed (failed : thread.failed = true) : thread.step core cycle = thread := by
  rw [Thread.step, if_pos failed]

lemma step_of_needs (running : thread.failed = false) (needs : needsUops core thread.timer = true) :
    thread.step core cycle = thread.simulate core := by
  rw [Thread.step, if_neg (by simp [running]), if_pos needs]

lemma step_of_cycle (running : thread.failed = false) (fed : needsUops core thread.timer = false) :
    thread.step core cycle = { thread with timer := cycle thread.timer } := by
  rw [Thread.step, if_neg (by simp [running]), if_neg (by simp [fed])]

end Step

end Sniper.Rob
