import Sniper.Rob.Stages

/-!
# Waking up

Sequence numbers tell the position of a uop in the buffer, so that issuing a uop and taking
a new one can be said entry by entry: which entries a uop wakes, how often, and what becomes
of the dependencies they wait for.
-/

namespace Sniper.Rob

open List Function MemoryDependencies Option

variable {μ σ : Type} {core : Core μ σ}

/-! ## Positions -/

/-- `rob'` is `rob` with the entry at each position changed as `R` says. -/
structure Pointwise (R : ℕ → RobEntry → RobEntry → Prop) (rob rob' : List RobEntry) : Prop where
  length : rob'.length = rob.length
  entries : ∀ (k : ℕ) after, rob'[k]? = some after →
    ∃ before : RobEntry, rob[k]? = some before ∧ R k before after

variable {first : ℕ} {rob rob' : List RobEntry}

lemma Pointwise.forth {R : ℕ → RobEntry → RobEntry → Prop}
    (changed : Pointwise R rob rob') {k : ℕ} {before : RobEntry} (found : rob[k]? = some before) :
    ∃ after, rob'[k]? = some after ∧ R k before after := by
  obtain ⟨inside, -⟩ := List.getElem?_eq_some_iff.mp found
  rw [← changed.length] at inside
  have there : rob'[k]? = some rob'[k] := getElem?_eq_getElem inside
  obtain ⟨old, same, related⟩ := changed.entries k _ there
  cases found.symm.trans same
  exact ⟨_, there, related⟩

def Numbered (first : ℕ) (rob : List RobEntry) : Prop :=
  ∀ i entry, rob[i]? = some entry → entry.number = first + i

lemma Numbered.of_map (numbered : Numbered first rob)
    (same : rob'.map RobEntry.number = rob.map RobEntry.number) : Numbered first rob' := by
  intro i entry found
  have eq := congrArg (fun numbers : List ℕ => numbers[i]?) same
  simp only [getElem?_map, found] at eq
  obtain ⟨old, there, eq⟩ := map_eq_some_iff.mp eq.symm
  rw [← numbered i old there]
  exact eq.symm

lemma Numbered.unique (numbered : Numbered first rob)
    {i j : ℕ} {entry other : RobEntry} (here : rob[i]? = some entry) (there : rob[j]? = some other)
    (same : entry.number = other.number) : entry = other := by
  rw [numbered i entry here, numbered j other there] at same
  obtain rfl : i = j := by omega
  exact some.inj (here.symm.trans there)

lemma modifyEntry_eq (numbered : Numbered first rob)
    (number : ℕ) (f : RobEntry → RobEntry) :
    modifyEntry number f rob = rob.modify (number - first) f := by
  cases rob with
  | nil => simp [modifyEntry]
  | cons entry rest =>
    have : entry.number = first + 0 := numbered 0 entry rfl
    simp [modifyEntry, this]

lemma findEntry_position (numbered : Numbered first rob)
    {number : ℕ} {entry : RobEntry} (found : findEntryBySequenceNumber rob number = some entry) :
    ∃ i : ℕ, rob[i]? = some entry ∧ entry.number = number := by
  obtain ⟨head, first_, found⟩ := bind_eq_some_iff.mp found
  split at found
  · next low =>
    refine ⟨number - head.number, found, ?_⟩
    rw [head?_eq_getElem?] at first_
    have := numbered 0 head first_
    rw [numbered _ entry found]
    omega
  · cases found

lemma foldl_modifyEntry {f : RobEntry → RobEntry}
    (keeps : ∀ entry, (f entry).number = entry.number) (numbers : List ℕ)
    (numbered : Numbered first rob) (low : ∀ number ∈ numbers, first ≤ number) (i : ℕ) :
    (numbers.foldl (fun rob number => modifyEntry number f rob) rob)[i]? =
      rob[i]?.map f^[numbers.count (first + i)] := by
  induction numbers generalizing rob with
  | nil => simp
  | cons number numbers ih =>
    have low' := low number mem_cons_self
    rw [foldl_cons, ih (numbered.of_map (modifyEntry_map keeps number rob))
      fun other mem => low other (mem_cons_of_mem _ mem), modifyEntry_eq numbered,
      getElem?_modify, Option.map_eq_map, Option.map_map, count_cons]
    have position : (number - first = i) = (number = first + i) := propext ⟨by omega, by omega⟩
    congr 1
    funext entry
    simp only [position, beq_iff_eq, comp_apply]
    split
    · rw [iterate_succ_apply]
    · rfl

/-! ## Dependencies -/

namespace DynamicMicroOp

lemma count_removeDependency (uop : DynamicMicroOp) (removed number : ℕ) :
    (uop.removeDependency removed).getDependencies.count number =
      uop.getDependencies.count number - if removed = number then 1 else 0 := by
  rw [removeDependency]
  split
  · next mem =>
    have : removed = number → 0 < uop.intra.count number := by
      rintro rfl
      exact count_pos_iff.mpr mem
    simp only [getDependencies, count_append, count_erase, beq_iff_eq]
    split
    · have := this ‹_›
      omega
    · omega
  · next absent =>
    have : removed = number → uop.intra.count number = 0 := by
      rintro rfl
      exact count_eq_zero_of_not_mem absent
    simp only [getDependencies, count_append, count_erase, beq_iff_eq]
    split
    · have := this ‹_›
      omega
    · omega

variable {removed : ℕ} {uop : DynamicMicroOp}

lemma mem_removeDependency {number : ℕ}
    (mem : number ∈ uop.getDependencies) (other : number ≠ removed) :
    number ∈ (uop.removeDependency removed).getDependencies := by
  rw [← count_pos_iff, count_removeDependency, if_neg (Ne.symm other), Nat.sub_zero]
  exact count_pos_iff.mpr mem

lemma mem_of_mem_removeDependency {number : ℕ}
    (mem : number ∈ (uop.removeDependency removed).getDependencies) :
    number ∈ uop.getDependencies := by
  rw [← count_pos_iff, count_removeDependency] at mem
  exact count_pos_iff.mp (by omega)

lemma mem_addDependency {number : ℕ} (added : ℕ)
    (mem : number ∈ uop.getDependencies) : number ∈ (uop.addDependency added).getDependencies := by
  rw [addDependency]
  split
  · exact mem
  · simp only [getDependencies, mem_append] at mem ⊢
    exact mem.imp_right Or.inl

variable (uop)

lemma added_mem (added : ℕ) : added ∈ (uop.addDependency added).getDependencies := by
  rw [addDependency]
  split
  · next mem => exact mem_append_right _ mem
  · exact mem_append_right _ (mem_append_right _ mem_cons_self)

def identity : MicroOp × ℕ := (uop.microOp, uop.sequenceNumber)

@[simp] lemma addDependency_identity (number : ℕ) :
    (uop.addDependency number).identity = uop.identity := by
  rw [addDependency]; split <;> rfl

@[simp] lemma removeDependency_identity (number : ℕ) :
    (uop.removeDependency number).identity = uop.identity := by
  rw [removeDependency]; split <;> rfl

lemma removeDependency_execLatency (number : ℕ) :
    (uop.removeDependency number).execLatency = uop.execLatency := by
  rw [removeDependency]; split <;> rfl

variable {uop}

end DynamicMicroOp

def RobEntry.pending (entry : RobEntry) : List ℕ := entry.uop.getDependencies

/-! ## Issuing -/

/-- `after` is `before`, woken `n` times by a producer. -/
structure Woken (producer : ℕ) (cycle : Time) (n : ℕ) (before after : RobEntry) : Prop where
  identity : after.uop.identity = before.uop.identity
  execLatency : after.uop.execLatency = before.uop.execLatency
  dispatched : after.dispatched = before.dispatched
  issued : after.issued = before.issued
  done : after.done = before.done
  dependants : after.dependants = before.dependants
  pending : ∀ number, after.pending.count number =
    before.pending.count number - if producer = number then n else 0
  readyMax : after.readyMax = if 0 < n then max before.readyMax cycle else before.readyMax
  ready : after.ready = if after.pending = [] ∧ 0 < n then after.readyMax else before.ready

section Woken

variable {producer n : ℕ} {cycle : Time} {before after : RobEntry}

lemma Woken.mem (woken : Woken producer cycle n before after) {number : ℕ}
    (other : producer ≠ number) (mem : number ∈ before.pending) : number ∈ after.pending := by
  rw [← count_pos_iff, woken.pending, if_neg other]
  exact count_pos_iff.mpr mem

lemma Woken.silent (woken : Woken producer cycle n before after) (none : n = 0) :
    after.readyMax = before.readyMax ∧ after.ready = before.ready ∧
      (after.pending = [] → before.pending = []) := by
  subst none
  refine ⟨by rw [woken.readyMax, if_neg (lt_irrefl 0)],
    by rw [woken.ready, if_neg fun both => lt_irrefl 0 both.2], fun free => ?_⟩
  refine eq_nil_iff_forall_not_mem.mpr fun number mem => ?_
  have left := woken.pending number
  have := count_pos_iff.mpr mem
  rw [free, count_nil, ite_self] at left
  omega

end Woken

open RobEntry DynamicMicroOp

lemma woken_iterate (doneOf : ℕ → Option Time) (producer : ℕ) (cycle : Time) (n : ℕ)
    (entry : RobEntry) :
    Woken producer cycle n entry ((wake doneOf producer cycle)^[n] entry) := by
  induction n with
  | zero => exact ⟨rfl, rfl, rfl, rfl, rfl, rfl, by simp, by simp, by simp⟩
  | succ n ih =>
    rw [iterate_succ_apply']
    generalize (wake doneOf producer cycle)^[n] entry = middle at ih
    have removed : (wake doneOf producer cycle middle).pending =
        (middle.uop.removeDependency producer).getDependencies := rfl
    refine ⟨?_, ?_, ih.dispatched, ih.issued, ih.done, ih.dependants, ?_, ?_, ?_⟩
    · exact (middle.uop.removeDependency_identity producer).trans ih.identity
    · exact (middle.uop.removeDependency_execLatency producer).trans ih.execLatency
    · intro number
      have before := ih.pending number
      rw [removed, count_removeDependency]
      simp only [pending] at before ⊢
      rw [before]
      split <;> omega
    · show max middle.readyMax cycle = _
      rw [ih.readyMax]
      rcases Nat.eq_zero_or_pos n with rfl | positive
      · simp
      · simp [positive]
    · show (if (middle.uop.removeDependency producer).getDependencies = [] then
        max middle.readyMax cycle else middle.ready) = _
      rw [removed]
      by_cases empty : (middle.uop.removeDependency producer).getDependencies = []
      · rw [if_pos empty, if_pos ⟨empty, Nat.succ_pos n⟩]
        rfl
      · have waits : middle.pending ≠ [] := by
          obtain ⟨number, mem⟩ := exists_mem_of_ne_nil _ empty
          exact ne_nil_of_mem (mem_of_mem_removeDependency mem)
        rw [if_neg empty, if_neg fun both => empty both.1, ih.ready,
          if_neg fun both => waits both.1]

/-- `after` is `before`, issued. -/
structure Done (now finish : ℕ) (before after : RobEntry) : Prop where
  identity : after.uop.identity = before.uop.identity
  issued : after.issued = ↑now
  done : after.done = ↑finish
  dependants : after.dependants = before.dependants
  pending : after.pending = before.pending
  ready : after.ready = before.ready
  readyMax : after.readyMax = before.readyMax

/-- What issuing the entry at `i` makes of the entry at `k`: that one is done, and each of the
others is woken as often as it is among its dependants. -/
inductive Effect (now cycle finish i : ℕ) (entry : RobEntry) (k : ℕ) (before after : RobEntry) :
    Prop where
  | woken (other : k ≠ i)
      (woken : Woken entry.number ↑cycle (entry.dependants.count before.number) before after)
  | done (here : k = i) (same : before = entry) (done : Done now finish before after)

/-- What issuing the entry at `i` makes of the buffer. -/
structure Issues (now cycle finish i : ℕ) (entry : RobEntry) (rob rob' : List RobEntry) :
    Prop where
  result : cycle ≤ finish
  /-- Only a result that takes no time is there in the same cycle. -/
  instant : cycle ≤ now → entry.uop.isStore = false ∧ entry.uop.execLatency = 0
  changed : Pointwise (Effect now cycle finish i entry) rob rob'

lemma access_identity (core : Core μ σ) (now : ℕ) (uop : DynamicMicroOp) (memory : μ) :
    (access core now uop memory).1.identity = uop.identity ∧
      (access core now uop memory).1.getDependencies = uop.getDependencies := by
  rw [access]
  split <;> exact ⟨rfl, rfl⟩

lemma wake_number (doneOf : ℕ → Option Time) (producer : ℕ) (cycle : Time) (entry : RobEntry) :
    (wake doneOf producer cycle entry).number = entry.number :=
  congrArg Prod.snd (entry.uop.removeDependency_identity producer)

def cycleDepend (core : Core μ σ) (s : RobTimer μ σ) (entry : RobEntry) : ℕ :=
  let uop := (access core s.now entry.uop s.memory).1
  if uop.isStore then s.now + 1 else s.now + uop.execLatency

def cycleDone (core : Core μ σ) (s : RobTimer μ σ) (entry : RobEntry) : ℕ :=
  let uop := (access core s.now entry.uop s.memory).1
  if uop.isStore then s.now + 1 else s.now + uop.execLatency + 1

lemma cycleDepend_le_now {core : Core μ σ} {s : RobTimer μ σ} {entry : RobEntry}
    (instant : cycleDepend core s entry ≤ s.now) :
    entry.uop.isStore = false ∧ entry.uop.execLatency = 0 := by
  have same : (access core s.now entry.uop s.memory).1.microOp = entry.uop.microOp :=
    congrArg Prod.fst (access_identity core s.now entry.uop s.memory).1
  have slower : entry.uop.execLatency ≤ (access core s.now entry.uop s.memory).1.execLatency := by
    rw [access]
    split
    · exact Nat.le_add_right _ _
    · exact le_rfl
  rw [cycleDepend] at instant
  split at instant
  · omega
  · next notStore =>
    rw [isStore, Bool.not_eq_true, same] at notStore
    exact ⟨notStore, by omega⟩

lemma cycleDepend_le_cycleDone (core : Core μ σ) (s : RobTimer μ σ) (entry : RobEntry) :
    cycleDepend core s entry ≤ cycleDone core s entry := by
  simp only [cycleDepend, cycleDone]
  split <;> omega

def RobEntry.issue (core : Core μ σ) (s : RobTimer μ σ) (entry : RobEntry) : RobEntry :=
  { entry with
    uop := (access core s.now entry.uop s.memory).1
    issued := ↑s.now
    done := ↑(cycleDone core s entry) }

lemma RobEntry.number_issue (core : Core μ σ) (s : RobTimer μ σ) (entry : RobEntry) :
    (entry.issue core s).number = entry.number :=
  congrArg Prod.snd (access_identity core s.now entry.uop s.memory).1

def doneIn (rob : List RobEntry) (number : ℕ) : Option Time :=
  (findEntryBySequenceNumber rob number).map (·.done)

/-- What issuing the entry at `i` makes of the entry at `k`, in the terms of the code. -/
inductive Change (core : Core μ σ) (s : RobTimer μ σ) (i : ℕ) (entry : RobEntry) (k : ℕ)
    (before after : RobEntry) : Prop where
  | issued (here : k = i) (same : before = entry) (eq : after = entry.issue core s)
  | woken (other : k ≠ i)
      (eq : after = (RobEntry.wake (doneIn (s.rob.set i (entry.issue core s))) entry.number
        ↑(cycleDepend core s entry))^[entry.dependants.count before.number] before)

section Issues

variable {s : RobTimer μ σ} {i k : ℕ} {entry before after : RobEntry}

lemma Numbered.issue (numbered : Numbered first s.rob) (found : s.rob[i]? = some entry)
    (core : Core μ σ) : Numbered first (s.rob.set i (entry.issue core s)) :=
  numbered.of_map (map_replaced found (entry.number_issue core s))

lemma issueInstruction_rob (core : Core μ σ) (i : ℕ) (entry : RobEntry) (s : RobTimer μ σ) :
    (issueInstruction core i entry s).rob =
      wakeAll entry.number ↑(cycleDepend core s entry) entry.dependants
        (s.rob.set i (entry.issue core s)) := by
  rw [← entry.number_issue core s]
  rfl

lemma issueInstruction_changes (core : Core μ σ) (numbered : Numbered first s.rob)
    (found : s.rob[i]? = some entry) (later : ∀ number ∈ entry.dependants, entry.number < number) :
    Pointwise (Change core s i entry) s.rob (issueInstruction core i entry s).rob := by
  have here := numbered i entry found
  refine ⟨?_, fun k after there => ?_⟩
  · rw [issueInstruction_rob]
    simpa using congrArg length (wakeAll_map (g := done) (fun _ _ _ _ => rfl) entry.number
        ↑(cycleDepend core s entry) entry.dependants (s.rob.set i (entry.issue core s)))
  · rw [issueInstruction_rob, wakeAll, foldl_modifyEntry (fun _ => wake_number _ _ _ _)
      entry.dependants (numbered.issue found core)
      (fun number mem => by have := later number mem; omega)] at there
    obtain ⟨middle, placed, rfl⟩ := map_eq_some_iff.mp there
    rw [getElem?_set] at placed
    split at placed
    · next same =>
      subst same
      rw [if_pos (List.getElem?_eq_some_iff.mp found).1] at placed
      cases placed
      refine ⟨entry, found, .issued rfl rfl ?_⟩
      rw [← here, count_eq_zero_of_not_mem fun mem => absurd (later _ mem) (lt_irrefl _)]
      rfl
    · next other =>
      refine ⟨middle, placed, .woken (Ne.symm other) ?_⟩
      rw [← numbered k middle placed]
      rfl

lemma Change.effect (change : Change core s i entry k before after) :
    Effect s.now (cycleDepend core s entry) (cycleDone core s entry) i entry k before after := by
  cases change with
  | issued here same eq =>
    subst same eq
    obtain ⟨identity, pending⟩ := access_identity core s.now before.uop s.memory
    exact .done here rfl ⟨identity, rfl, rfl, rfl, pending, rfl, rfl⟩
  | woken other eq =>
    subst eq
    exact .woken other (woken_iterate _ _ _ _ _)

lemma issueInstruction_issues (core : Core μ σ) (numbered : Numbered first s.rob)
    (found : s.rob[i]? = some entry) (later : ∀ number ∈ entry.dependants, entry.number < number) :
    ∃ cycle finish,
      Issues s.now cycle finish i entry s.rob (issueInstruction core i entry s).rob := by
  have changes := issueInstruction_changes core numbered found later
  refine ⟨_, _, cycleDepend_le_cycleDone core s entry, cycleDepend_le_now, changes.length,
    fun k after there => ?_⟩
  obtain ⟨before, old, change⟩ := changes.entries k after there
  exact ⟨before, old, change.effect⟩

end Issues

/-! ## Taking uops -/

def IssuedNumber (rob : List RobEntry) (number : ℕ) : Prop :=
  ∃ k : ℕ, ∃ entry, rob[k]? = some entry ∧ entry.number = number ∧ entry.done ≠ ⊤

lemma Numbered.unissued (numbered : Numbered first rob)
    {k : ℕ} {entry : RobEntry} (found : rob[k]? = some entry) (waits : entry.done = ⊤) :
    ¬ IssuedNumber rob entry.number := by
  rintro ⟨j, other, there, same, issued⟩
  rw [numbered.unique there found same] at issued
  exact issued waits

structure Links (number : ℕ) (dependencies : List ℕ) (rob : List RobEntry) (entry : RobEntry)
    (rob' : List RobEntry) (entry' : RobEntry) : Prop where
  length : rob'.length = rob.length
  known : ∀ dependency ∈ dependencies, ∃ k : ℕ, ∃ producer,
    rob[k]? = some producer ∧ producer.number = dependency
  entries : ∀ (k : ℕ) after, rob'[k]? = some after →
    ∃ before : RobEntry, rob[k]? = some before ∧ after = { before with
      dependants := before.dependants ++
        replicate (if before.done = ⊤ then dependencies.count before.number else 0) number }
  identity : entry'.uop.identity = entry.uop.identity
  same : entry'.done = entry.done ∧ entry'.ready = entry.ready ∧
    entry'.dependants = entry.dependants
  issued : ∀ dependency, IssuedNumber rob dependency → entry'.pending.count dependency =
    entry.pending.count dependency - dependencies.count dependency
  waiting : ∀ dependency, ¬ IssuedNumber rob dependency →
    entry'.pending.count dependency = entry.pending.count dependency
  readyMax : ∀ bound, entry.readyMax ≤ bound →
    (∀ (k : ℕ) producer, rob[k]? = some producer → producer.done ≠ ⊤ →
      producer.done ≤ bound) →
    entry'.readyMax ≤ bound

variable {dependencies : List ℕ} {entry' : RobEntry}

lemma Links.cons_issued {number dependency : ℕ}
    {entry producer : RobEntry} {p : ℕ}
    (numbered : Numbered first rob) (found : rob[p]? = some producer)
    (named : producer.number = dependency) (issued : producer.done ≠ ⊤)
    (rest : Links number dependencies rob { entry with
        uop := entry.uop.removeDependency dependency
        readyMax := max entry.readyMax producer.done } rob' entry') :
    Links number (dependency :: dependencies) rob entry rob' entry' where
  length := rest.length
  known := by
    rintro other (_ | ⟨_, mem⟩)
    · exact ⟨p, producer, found, named⟩
    · exact rest.known other mem
  entries k after there := by
    obtain ⟨before, old, rfl⟩ := rest.entries k after there
    refine ⟨before, old, ?_⟩
    by_cases waiting : before.done = ⊤
    · have other : before.number ≠ dependency := by
        intro same
        rw [numbered.unique old found (same.trans named.symm)] at waiting
        exact issued waiting
      rw [count_cons_of_ne (Ne.symm other)]
    · simp [waiting]
  identity := rest.identity.trans (entry.uop.removeDependency_identity dependency)
  same := rest.same
  issued other known := by
    rw [rest.issued other known, pending, count_removeDependency, count_cons, pending]
    simp only [beq_iff_eq]
    omega
  waiting other unknown := by
    have : dependency ≠ other := by
      rintro rfl
      exact unknown ⟨p, producer, found, named, issued⟩
    rw [rest.waiting other unknown, pending, count_removeDependency, if_neg this]
    rfl
  readyMax bound small all := by
    exact rest.readyMax bound (max_le small (all p producer found issued)) all

section Linked

variable {number dependency : ℕ} {producer : RobEntry} {p : ℕ}

def RobEntry.linked (number dependency : ℕ) (before : RobEntry) : RobEntry :=
  if before.number = dependency then before.addDependant number else before

lemma RobEntry.number_linked (before : RobEntry) :
    (before.linked number dependency).number = before.number := by
  rw [linked]
  split <;> rfl

lemma RobEntry.done_linked (before : RobEntry) :
    (before.linked number dependency).done = before.done := by
  rw [linked]
  split <;> rfl

lemma getElem?_linked (numbered : Numbered first rob) (found : rob[p]? = some producer)
    (named : producer.number = dependency) (k : ℕ) :
    (modifyEntry dependency (addDependant number) rob)[k]? =
      rob[k]?.map (linked number dependency) := by
  rw [modifyEntry_eq numbered, getElem?_modify, Option.map_eq_map]
  cases old : rob[k]? with
  | none => rfl
  | some before =>
    have := numbered k before old
    have := numbered p producer found
    have position : (dependency - first = k) = (before.number = dependency) :=
      propext ⟨by omega, by omega⟩
    simp only [map_some, position, linked]

lemma issuedNumber_linked (numbered : Numbered first rob) (found : rob[p]? = some producer)
    (named : producer.number = dependency) (other : ℕ) :
    IssuedNumber (modifyEntry dependency (addDependant number) rob) other ↔
      IssuedNumber rob other := by
  constructor
  · rintro ⟨k, after, there, rfl, issued⟩
    rw [getElem?_linked numbered found named] at there
    obtain ⟨before, old, rfl⟩ := map_eq_some_iff.mp there
    rw [done_linked] at issued
    exact ⟨k, before, old, before.number_linked.symm, issued⟩
  · rintro ⟨k, before, old, rfl, issued⟩
    refine ⟨k, before.linked number dependency, ?_, before.number_linked, ?_⟩
    · rw [getElem?_linked numbered found named, old]
      rfl
    · rw [done_linked]
      exact issued

end Linked

lemma Links.cons_waiting {number dependency : ℕ}
    {entry producer : RobEntry} {p : ℕ}
    (numbered : Numbered first rob) (found : rob[p]? = some producer)
    (named : producer.number = dependency) (waits : producer.done = ⊤)
    (rest : Links number dependencies (modifyEntry dependency (addDependant number) rob)
      entry rob' entry') : Links number (dependency :: dependencies) rob entry rob' entry' := by
  have linked (k : ℕ) : (modifyEntry dependency (addDependant number) rob)[k]? =
      rob[k]?.map (RobEntry.linked number dependency) := getElem?_linked numbered found named k
  have issued_iff (other : ℕ) :
      IssuedNumber (modifyEntry dependency (addDependant number) rob) other ↔
        IssuedNumber rob other := issuedNumber_linked numbered found named other
  refine ⟨?_, ?_, ?_, rest.identity, rest.same, ?_, ?_, ?_⟩
  · simpa [modifyEntry_eq numbered] using rest.length
  · rintro other (_ | ⟨_, mem⟩)
    · exact ⟨p, producer, found, named⟩
    · obtain ⟨k, after, there, named'⟩ := rest.known other mem
      rw [linked] at there
      obtain ⟨before, old, rfl⟩ := map_eq_some_iff.mp there
      exact ⟨k, before, old, before.number_linked.symm.trans named'⟩
  · intro k after there
    obtain ⟨middle, relinked, rfl⟩ := rest.entries k after there
    rw [linked] at relinked
    obtain ⟨before, old, rfl⟩ := map_eq_some_iff.mp relinked
    refine ⟨before, old, ?_⟩
    rw [number_linked, done_linked]
    by_cases same : before.number = dependency
    · have waiting : before.done = ⊤ := by
        rw [numbered.unique old found (same.trans named.symm)]
        exact waits
      simp [RobEntry.linked, same, waiting, addDependant, replicate_succ]
    · simp [RobEntry.linked, same, count_cons_of_ne (Ne.symm same)]
  · intro other known
    rw [rest.issued other ((issued_iff other).mpr known)]
    have : dependency ≠ other := by
      rintro rfl
      obtain ⟨k, before, old, same, issued⟩ := known
      rw [numbered.unique old found (same.trans named.symm)] at issued
      exact issued waits
    rw [count_cons_of_ne this]
  · intro other unknown
    exact rest.waiting other fun known => unknown ((issued_iff other).mp known)
  · intro bound small all
    refine rest.readyMax bound small fun k after there issued => ?_
    rw [linked] at there
    obtain ⟨before, old, rfl⟩ := map_eq_some_iff.mp there
    rw [done_linked] at issued ⊢
    exact all k before old issued

lemma links_of_foldlM {number : ℕ}
    {entry : RobEntry} (numbered : Numbered first rob)
    (ran : dependencies.foldlM (linkDependency number) (rob, entry) = some (rob', entry')) :
    Links number dependencies rob entry rob' entry' := by
  induction dependencies generalizing rob entry with
  | nil =>
    obtain ⟨rfl, rfl⟩ : rob = rob' ∧ entry = entry' := by
      simpa using some.inj ran
    refine ⟨rfl, nofun, fun k after there => ⟨after, there, by simp⟩, rfl, ⟨rfl, rfl, rfl⟩,
      by simp, fun _ _ => rfl, fun _ small _ => small⟩
  | cons dependency dependencies ih =>
    obtain ⟨⟨rob₁, entry₁⟩, step, rest⟩ := bind_eq_some_iff.mp ran
    obtain ⟨producer, lookup, step⟩ := map_eq_some_iff.mp step
    obtain ⟨p, found, named⟩ := findEntry_position numbered lookup
    split at step
    · next issued =>
      cases step
      exact (ih numbered rest).cons_issued numbered found named issued
    · next waits =>
      cases step
      have numbered' := numbered.of_map
        (modifyEntry_map (g := RobEntry.number) (f := addDependant number)
          (fun _ => rfl) dependency rob)
      exact (ih numbered' rest).cons_waiting numbered found named (not_not.mp waits)

/-! ## The trackers -/

def MicroOp.isFence (uop : MicroOp) : Bool := uop.memBarrier && !uop.isLoad && !uop.isStore

lemma isMemBarrier_of_isFence {uop : DynamicMicroOp} (isFence : uop.microOp.isFence = true) :
    uop.isMemBarrier = true := by
  simp only [MicroOp.isFence, Bool.and_eq_true] at isFence
  exact isFence.1.1

lemma registers_identity (regs : RegisterDependencies) (uop : DynamicMicroOp) (lowest : ℕ) :
    (regs.setDependencies uop lowest).2.identity = uop.identity := by
  rw [RegisterDependencies.setDependencies]
  generalize uop.microOp.sourceRegisters = sources
  induction sources generalizing regs uop with
  | nil => rfl
  | cons reg sources ih =>
    rw [foldl_cons, ih, RegisterDependencies.setSource]
    split
    · rfl
    · split
      · exact uop.addDependency_identity _
      · rfl

lemma addMembar_identity (mem : MemoryDependencies) (uop : DynamicMicroOp) (lowest : ℕ) :
    (mem.addMembar uop lowest).identity = uop.identity := by
  rw [addMembar]
  split
  · split
    · exact uop.addDependency_identity _
    · rfl
  · rfl

lemma membar_mem {mem : MemoryDependencies} {membar lowest : ℕ} (last : mem.membar = some membar)
    (above : lowest < membar) (uop : DynamicMicroOp) :
    membar ∈ (mem.addMembar uop lowest).getDependencies := by
  simp only [addMembar, last, if_pos above]
  exact uop.added_mem membar

lemma memory_spec (mem : MemoryDependencies) (uop : DynamicMicroOp) (lowest : ℕ) :
    (mem.setDependencies uop lowest).2.identity = uop.identity ∧
      (mem.setDependencies uop lowest).1.membar =
        (if uop.microOp.isFence then some uop.sequenceNumber else mem.membar) ∧
      ∀ membar, mem.membar = some membar → lowest < membar → (uop.isLoad ∨ uop.isStore) →
        membar ∈ (mem.setDependencies uop lowest).2.getDependencies := by
  have cleaned : (mem.clean lowest).membar = mem.membar := rfl
  rw [setDependencies]
  cases load : uop.isLoad with
  | true =>
    have notFence : uop.microOp.isFence = false := by
      simp only [MicroOp.isFence, show uop.microOp.isLoad = true from load]
      simp
    refine ⟨?_, by simp [notFence, cleaned], ?_⟩
    · rw [if_pos rfl, addMembar_identity]
      split
      · exact uop.addDependency_identity _
      · rfl
    · intro membar last above _
      exact membar_mem (cleaned.trans last) above _
  | false =>
    cases store : uop.isStore with
    | true =>
      have notFence : uop.microOp.isFence = false := by
        simp only [MicroOp.isFence, show uop.microOp.isStore = true from store]
        simp
      refine ⟨addMembar_identity _ _ _, by simp [notFence, add, cleaned], ?_⟩
      intro membar last above _
      exact membar_mem (cleaned.trans last) above _
    | false =>
      have fence : uop.microOp.isFence = uop.isMemBarrier := by
        simp only [MicroOp.isFence, show uop.microOp.isLoad = false from load,
          show uop.microOp.isStore = false from store, isMemBarrier]
        simp
      rw [fence]
      cases barrier : uop.isMemBarrier with
      | true => exact ⟨addMembar_identity _ _ _, rfl, by simp⟩
      | false => exact ⟨rfl, rfl, by simp⟩

variable {uop uop' : DynamicMicroOp}

lemma forward_spec (numbered : Numbered first rob)
    (ran : forward rob uop dependencies = some uop') :
    uop'.identity = uop.identity ∧
      ∀ (k : ℕ) entry, rob[k]? = some entry → entry.uop.isStore = false →
        entry.number ∈ uop.getDependencies → entry.number ∈ uop'.getDependencies := by
  induction dependencies with
  | nil =>
    cases ran
    exact ⟨rfl, fun _ _ _ _ mem => mem⟩
  | cons dependency rest ih =>
    obtain ⟨producer, lookup, ran⟩ := bind_eq_some_iff.mp ran
    split at ran
    · next store =>
      cases ran
      obtain ⟨p, found, named⟩ := findEntry_position numbered lookup
      have adds : ∀ (numbers : List ℕ) (u : DynamicMicroOp),
          (numbers.foldl .addDependency u).identity = u.identity ∧ ∀ number ∈ u.getDependencies,
              number ∈ (numbers.foldl .addDependency u).getDependencies := by
        intro numbers
        induction numbers with
        | nil => exact fun u => ⟨rfl, fun _ mem => mem⟩
        | cons number numbers ih =>
          intro u
          obtain ⟨identity, kept⟩ := ih (u.addDependency number)
          exact ⟨identity.trans (u.addDependency_identity number),
            fun other mem => kept other (mem_addDependency number mem)⟩
      obtain ⟨identity, kept⟩ := adds producer.uop.getDependencies (uop.removeDependency dependency)
      refine ⟨identity.trans (uop.removeDependency_identity dependency), ?_⟩
      intro k entry there notStore mem
      refine kept _ (mem_removeDependency mem fun same => ?_)
      rw [numbered.unique there found (same.trans named.symm), store] at notStore
      cases notStore
    · exact ih ran

structure Enters (s : RobTimer μ σ) (uop : DynamicMicroOp) (linked : Linked) : Prop where
  changed : Pointwise (fun _ before after => ∃ n,
      (before.done = ⊤ → linked.entry.pending.count before.number ≤ n) ∧
      after = { before with
        dependants := before.dependants ++ replicate n s.nextSequenceNumber })
    s.rob linked.rob
  identity : linked.entry.uop.identity = (uop.microOp, s.nextSequenceNumber)
  unissued : linked.entry.done = ⊤
  dependants : linked.entry.dependants = []
  pending : ∀ dependency ∈ linked.entry.pending, ∃ k : ℕ, ∃ producer,
    s.rob[k]? = some producer ∧ producer.number = dependency ∧ producer.done = ⊤
  ready : linked.entry.ready = if linked.entry.pending = [] then linked.entry.readyMax else ⊤
  readyMax : ∀ bound : ℕ, (∀ (k : ℕ) producer, s.rob[k]? = some producer →
    producer.done ≠ ⊤ → producer.done ≤ bound) → linked.entry.readyMax ≤ bound
  membar : linked.mem.membar =
    if uop.microOp.isFence then some s.nextSequenceNumber else s.memoryDependencies.membar
  fenced : ∀ (k : ℕ) fence, s.rob[k]? = some fence → fence.done = ⊤ →
    fence.uop.isStore = false → s.memoryDependencies.membar = some fence.number →
    s.rob.head?.elim s.nextSequenceNumber RobEntry.number < fence.number →
    (uop.isLoad ∨ uop.isStore) → fence.number ∈ linked.entry.pending

lemma forwarded_spec (numbered : Numbered first rob)
    (ran : forwarded core rob uop = some uop') :
    uop'.identity = uop.identity ∧
      ∀ (k : ℕ) entry, rob[k]? = some entry → entry.uop.isStore = false →
        entry.number ∈ uop.getDependencies → entry.number ∈ uop'.getDependencies := by
  rw [forwarded] at ran
  split at ran
  · exact forward_spec numbered ran
  · cases ran
    exact ⟨rfl, fun _ _ _ _ mem => mem⟩

lemma numbered_identity {number : ℕ}
    (ran : uop.numbered number = some uop') : uop'.identity = (uop.microOp, number) := by
  rw [numbered] at ran
  split at ran
  · cases ran
  · cases ran
    rfl

/-- A new uop waits for the producers that have not been issued, and each of them is to wake it. -/
lemma link_enters {s : RobTimer μ σ} {linked : Linked}
    (numbered : Numbered first s.rob) (ran : link core s uop = some linked) :
    Enters s uop linked := by
  obtain ⟨uop₁, numbering, ran⟩ := bind_eq_some_iff.mp ran
  obtain ⟨entry, address, ran⟩ := bind_eq_some_iff.mp ran
  obtain ⟨uop₂, forwarding, ran⟩ := bind_eq_some_iff.mp ran
  obtain ⟨⟨rob', entry'⟩, folded, rfl⟩ := map_eq_some_iff.mp ran
  obtain ⟨_, _, _, rfl⟩ := setAddressProducers_frame address
  have identity₁ := numbered_identity numbering
  generalize lowestEq : s.rob.head?.elim s.nextSequenceNumber number = lowest at *
  have registers := registers_identity s.registerDependencies uop₁ lowest
  generalize s.registerDependencies.setDependencies uop₁ lowest = regs at *
  obtain ⟨memory, membar, fenced⟩ := memory_spec s.memoryDependencies regs.2 lowest
  obtain ⟨forwards, kept⟩ := forwarded_spec numbered forwarding
  have links := links_of_foldlM numbered folded
  have identity₂ : regs.2.identity = (uop.microOp, s.nextSequenceNumber) :=
    registers.trans identity₁
  have microOp : regs.2.microOp = uop.microOp := congrArg Prod.fst identity₂
  have identity : entry'.uop.identity = (uop.microOp, s.nextSequenceNumber) :=
    links.identity.trans (forwards.trans (memory.trans identity₂))
  -- what is left are the dependencies that wait
  have left : ∀ dependency, ¬ IssuedNumber s.rob dependency →
      entry'.pending.count dependency = uop₂.getDependencies.count dependency := links.waiting
  have gone : ∀ dependency, IssuedNumber s.rob dependency → dependency ∉ entry'.pending := by
    intro dependency issued mem
    have none := links.issued dependency issued
    have some := count_pos_iff.mpr mem
    simp only [pending] at none some
    omega
  refine ⟨⟨links.length, ?_⟩, identity, links.same.1, links.same.2.2, ?_, ?_, ?_, ?_, ?_⟩
  · intro k after there
    obtain ⟨before, old, rfl⟩ := links.entries k after there
    refine ⟨before, old, _, fun waits => ?_, rfl⟩
    rw [if_pos waits]
    exact le_of_eq (left before.number (numbered.unissued old waits))
  · intro dependency mem
    have unissued := fun issued => gone dependency issued mem
    have mem' : dependency ∈ uop₂.getDependencies := by
      rw [← count_pos_iff, ← left dependency unissued]
      exact count_pos_iff.mpr mem
    obtain ⟨k, producer, found, named⟩ := links.known dependency mem'
    refine ⟨k, producer, found, named, ?_⟩
    by_contra issued
    exact unissued ⟨k, producer, found, named, issued⟩
  · show (if entry'.pending = [] then entry'.readyMax else entry'.ready) = _
    rw [links.same.2.1]
    rfl
  · intro bound all
    exact links.readyMax ↑bound (WithTop.coe_le_coe.mpr (Nat.zero_le bound)) all
  · rw [membar, microOp, show regs.2.sequenceNumber = s.nextSequenceNumber from
      congrArg Prod.snd identity₂]
  · intro k fence found waits notStore last above memoryOp
    have accesses : regs.2.isLoad = true ∨ regs.2.isStore = true := by
      rw [isLoad, isStore, microOp]
      exact memoryOp
    rw [lowestEq] at above
    have mem := kept k fence found notStore (fenced fence.number last above accesses)
    show fence.number ∈ entry'.pending
    rw [← count_pos_iff, left fence.number (numbered.unissued found waits)]
    exact count_pos_iff.mpr mem

end Sniper.Rob
