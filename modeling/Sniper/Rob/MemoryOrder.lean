import Sniper.Lib.Sorted
import Sniper.Rob.Wakeup

/-!
# What the memory tracker finds

`MemoryDependencies` is called once for each uop, in program order, with the lowest sequence number
that is still in the window. The queue of stores is pruned at its front and searched from its back,
which finds exactly that. For the barrier the test is stricter than for stores: a barrier that is
itself the oldest uop of the window is not found.
-/

namespace Sniper.Rob

open List Option DynamicMicroOp Pruned

/-- A call of `MemoryDependencies::setDependencies`. -/
structure TrackerCall where
  uop : DynamicMicroOp
  lowestValidSequenceNumber : ℕ

def TrackerCall.number (call : TrackerCall) : ℕ := call.uop.sequenceNumber

namespace MemoryDependencies

def handle (mem : MemoryDependencies) (call : TrackerCall) : MemoryDependencies :=
  (mem.setDependencies call.uop call.lowestValidSequenceNumber).1

def after (calls : List TrackerCall) : MemoryDependencies := calls.foldl handle .clear

lemma after_concat (calls : List TrackerCall) (call : TrackerCall) :
    after (calls ++ [call]) = (after calls).handle call :=
  foldl_concat ..

end MemoryDependencies

/-! ## What should be found -/

variable (calls : List TrackerCall)

def storesOf : List Producer :=
  (calls.filter (·.uop.isStore)).map fun call => ⟨call.number, call.uop.address⟩

def barriersOf : List ℕ :=
  (calls.filter (·.uop.microOp.isFence)).map (·.number)

def latestStore (address : ℕ) : Option ℕ :=
  ((storesOf calls).filter (·.address = address)).getLast?.map (·.seqnr)

def latestBarrier : Option ℕ := (barriersOf calls).getLast?

def MicroOp.isMemory (uop : MicroOp) : Bool := uop.isLoad || uop.isStore || uop.memBarrier

def due (earlier : List TrackerCall) (call : TrackerCall) : List ℕ :=
  let valid := fun number => decide (call.lowestValidSequenceNumber ≤ number)
  (if call.uop.isLoad then
    ((latestStore earlier call.uop.address).filter valid).toList else []) ++
  (if call.uop.microOp.isMemory then ((latestBarrier earlier).filter valid).toList else [])

def AddsExactly (earlier : List TrackerCall) (call : TrackerCall) : Prop :=
  ((MemoryDependencies.after earlier).setDependencies call.uop call.lowestValidSequenceNumber).2 =
    (due earlier call).foldl .addDependency call.uop

instance (earlier : List TrackerCall) (call : TrackerCall) : Decidable (AddsExactly earlier call) :=
  inferInstanceAs (Decidable (_ = _))

/-- The last barrier is the oldest uop of the window, and the uop should depend on it. -/
def MeetsOldest (earlier : List TrackerCall) (call : TrackerCall) : Prop :=
  call.uop.microOp.isMemory ∧ latestBarrier earlier = some call.lowestValidSequenceNumber ∧
    call.lowestValidSequenceNumber ∉ call.uop.dependencies

instance (earlier : List TrackerCall) (call : TrackerCall) : Decidable (MeetsOldest earlier call) :=
  inferInstanceAs (Decidable (_ ∧ _ ∧ _))

/-! ## The queue of stores -/

/-- The tracker holds the stores from the last bound on and the last barrier. Only what is at or
above a later bound counts: a store below its own bound is taken and dropped at the next call. -/
structure Tracks (bound : ℕ) (calls : List TrackerCall) (mem : MemoryDependencies) : Prop where
  producers : ∀ bound', bound ≤ bound' →
    (mem.clean bound').producers = Pruned.above Producer.seqnr bound' (storesOf calls)
  membar : mem.membar = latestBarrier calls

section Queue

variable {calls : List TrackerCall} {call : TrackerCall} {bound : ℕ} {mem : MemoryDependencies}

lemma storesOf_concat (calls : List TrackerCall) (call : TrackerCall) : storesOf (calls ++ [call]) =
      storesOf calls ++ if call.uop.isStore then [⟨call.number, call.uop.address⟩] else [] := by
  rw [storesOf, filter_append, map_append]
  cases store : call.uop.isStore <;> simp [storesOf, store]

lemma latestBarrier_concat (calls : List TrackerCall) (call : TrackerCall) :
    latestBarrier (calls ++ [call]) =
      if call.uop.microOp.isFence then some call.number else latestBarrier calls := by
  rw [latestBarrier, barriersOf, filter_append, map_append]
  cases fence : call.uop.microOp.isFence <;> simp [latestBarrier, barriersOf, fence]

lemma storesOf_sorted (numbers : calls.Pairwise fun a b => a.number < b.number) :
    (storesOf calls).Pairwise fun a b => a.seqnr ≤ b.seqnr :=
  pairwise_map.mpr ((numbers.filter _).imp le_of_lt)

open MemoryDependencies

lemma handle_producers (mem : MemoryDependencies) (call : TrackerCall) :
    (mem.handle call).producers = (mem.clean call.lowestValidSequenceNumber).producers ++
      if call.uop.isStore then [⟨call.number, call.uop.address⟩] else [] := by
  rw [handle, setDependencies]
  cases type : call.uop.microOp.type <;>
    simp [isLoad, isStore, MicroOp.isLoad, MicroOp.isStore, type,
      add, TrackerCall.number, apply_ite]

lemma Tracks.handle (tracks : Tracks bound calls mem)
    (numbers : (calls ++ [call]).Pairwise fun a b => a.number < b.number)
    (later : bound ≤ call.lowestValidSequenceNumber) :
    Tracks call.lowestValidSequenceNumber (calls ++ [call]) (mem.handle call) where
  producers bound' later' := by
    have sorted := storesOf_sorted numbers
    rw [storesOf_concat] at sorted
    obtain ⟨old, new, between⟩ := pairwise_append.mp sorted
    have kept : (mem.handle call).producers.Pairwise fun a b => a.seqnr ≤ b.seqnr := by
      rw [handle_producers, tracks.producers _ later]
      exact pairwise_append.mpr ⟨old.filter _, new, fun a mem => between a (mem_of_mem_filter mem)⟩
    rw [MemoryDependencies.clean, dropWhile_eq kept, handle_producers, tracks.producers _ later,
      storesOf_concat, above_append, above_append, above_above later']
  membar := by
    rw [MemoryDependencies.handle, (memory_spec mem call.uop _).2.1, tracks.membar,
      latestBarrier_concat]
    rfl

lemma tracks_after (numbers : calls.Pairwise fun a b => a.number < b.number)
    (bounds : calls.Pairwise fun a b => a.lowestValidSequenceNumber ≤ b.lowestValidSequenceNumber)
    (later : ∀ call ∈ calls, call.lowestValidSequenceNumber ≤ bound) :
    Tracks bound calls (.after calls) := by
  induction calls using reverseRecOn generalizing bound with
  | nil => exact ⟨fun _ _ => rfl, rfl⟩
  | append_singleton calls call ih =>
    obtain ⟨earlier, -, below⟩ := pairwise_append.mp bounds
    have tracks := ih (pairwise_append.mp numbers).1 earlier
      fun a mem => below a mem call mem_cons_self
    have handled := tracks.handle numbers le_rfl
    have reached : call.lowestValidSequenceNumber ≤ bound := later call (by simp)
    rw [after_concat]
    exact ⟨fun bound' higher => handled.producers bound' (reached.trans higher), handled.membar⟩

lemma find_clean (tracks : Tracks bound calls mem)
    (numbers : calls.Pairwise fun a b => a.number < b.number) (address : ℕ) :
    (mem.clean bound).find address = (latestStore calls address).filter (bound ≤ ·) := by
  rw [find, ← getLast?_filter, tracks.producers bound le_rfl,
    getLast?_filter_above (storesOf_sorted numbers), latestStore, Option.filter_map]
  rfl

end Queue

/-! ## What is added -/

section Added

variable {calls : List TrackerCall} {call : TrackerCall} {uop : DynamicMicroOp} {number number' : ℕ}

lemma addDependency_eq_self : uop.addDependency number = uop ↔ number ∈ uop.dependencies := by
  rw [addDependency]
  split
  · next mem => exact iff_of_true rfl mem
  · next absent =>
    refine iff_of_false (fun same => ?_) absent
    have longer := congrArg (fun uop => uop.dependencies.length) same
    simp at longer

lemma mem_dependencies_addDependency : number ∈ (uop.addDependency number').dependencies ↔
      number ∈ uop.dependencies ∨ number = number' := by
  rw [addDependency]
  split
  · next mem => exact ⟨.inl, fun either => either.elim id fun same => same ▸ mem⟩
  · simp

lemma setDependencies_adds (mem : MemoryDependencies) (uop : DynamicMicroOp) (lowest : ℕ) :
    (mem.setDependencies uop lowest).2 =
      ((if uop.isLoad then ((mem.clean lowest).find uop.address).toList else []) ++
        (if uop.microOp.isMemory then (mem.membar.filter (lowest < ·)).toList else [])).foldl
          .addDependency uop := by
  have barrier : ∀ uop : DynamicMicroOp, (mem.clean lowest).addMembar uop lowest =
      (mem.membar.filter (lowest < ·)).toList.foldl .addDependency uop := by
    intro uop
    rw [MemoryDependencies.addMembar, MemoryDependencies.clean]
    cases mem.membar with
    | none => rfl
    | some membar => by_cases above : lowest < membar <;> simp [above, filter_some]
  rw [MemoryDependencies.setDependencies, foldl_append]
  cases type : uop.microOp.type with
  | load =>
    have load : uop.isLoad = true := by simp [isLoad, MicroOp.isLoad, type]
    have memory : uop.microOp.isMemory = true := by simp [MicroOp.isMemory, MicroOp.isLoad, type]
    simp only [load, memory, if_true, barrier]
    cases (mem.clean lowest).find uop.address <;> rfl
  | store =>
    have load : uop.isLoad = false := by simp [isLoad, MicroOp.isLoad, type]
    have store : uop.isStore = true := by simp [isStore, MicroOp.isStore, type]
    have memory : uop.microOp.isMemory = true := by simp [MicroOp.isMemory, MicroOp.isStore, type]
    simp [load, store, memory, barrier]
  | execute =>
    have load : uop.isLoad = false := by simp [isLoad, MicroOp.isLoad, type]
    have store : uop.isStore = false := by simp [isStore, MicroOp.isStore, type]
    have memory : uop.microOp.isMemory = uop.isMemBarrier := by
      simp [MicroOp.isMemory, MicroOp.isLoad, MicroOp.isStore, type, isMemBarrier]
    rw [memory]
    cases isBarrier : uop.isMemBarrier <;> simp [load, store, barrier]

lemma latestStore_ne (numbers : calls.Pairwise fun a b => a.number < b.number) {address : ℕ}
    (store : latestStore calls address = some number)
    (barrier : latestBarrier calls = some number') : number ≠ number' := by
  obtain ⟨producer, found, rfl⟩ := Option.map_eq_some_iff.mp store
  obtain ⟨a, stored, rfl⟩ := List.mem_map.mp (mem_of_mem_filter (mem_of_getLast? found))
  obtain ⟨b, fenced, rfl⟩ := List.mem_map.mp (mem_of_getLast? barrier)
  obtain ⟨memA, isStore⟩ := mem_filter.mp stored
  obtain ⟨memB, isFence⟩ := mem_filter.mp fenced
  intro same
  have distinct : (calls.map TrackerCall.number).Nodup :=
    pairwise_map.mpr (numbers.imp ne_of_lt)
  obtain rfl := inj_on_of_nodup_map distinct memA memB same
  have notStore : a.uop.isStore = false := by
    simpa [MicroOp.isFence, DynamicMicroOp.isStore] using (Bool.and_eq_true_iff.mp isFence).2
  rw [notStore] at isStore
  cases isStore

lemma mem_foldl_addDependency (uop : DynamicMicroOp) {found : Option ℕ}
    (other : ∀ store, found = some store → number ≠ store) (isLoad : Bool) (valid : ℕ → Bool) :
    number ∈ ((if isLoad then (found.filter valid).toList else []).foldl .addDependency
      uop).dependencies ↔ number ∈ uop.dependencies := by
  cases isLoad with
  | false => exact Iff.rfl
  | true =>
    cases found with
    | none => exact Iff.rfl
    | some store =>
      cases isValid : valid store with
      | false => simp [filter_some, isValid]
      | true => simp [filter_some, isValid, mem_dependencies_addDependency, other store rfl]

lemma addsExactly_iff (tracks : Tracks call.lowestValidSequenceNumber calls (.after calls))
    (numbers : calls.Pairwise fun a b => a.number < b.number) :
    AddsExactly calls call ↔ ¬ MeetsOldest calls call := by
  rw [AddsExactly, setDependencies_adds, due, find_clean tracks numbers, tracks.membar,
    foldl_append, foldl_append, MeetsOldest]
  cases memory : call.uop.microOp.isMemory with
  | false => simp
  | true =>
    cases barrier : latestBarrier calls with
    | none => simp
    | some membar =>
      rcases Nat.lt_trichotomy call.lowestValidSequenceNumber membar with above | rfl | below
      · simp [filter_some, above, above.le, above.ne']
      · -- the barrier is missing, which matters unless the uop depends on it already
        have other : ∀ store, latestStore calls call.uop.address = some store →
            call.lowestValidSequenceNumber ≠ store :=
          fun store found => (latestStore_ne numbers found barrier).symm
        have kept := mem_foldl_addDependency call.uop other call.uop.isLoad
          fun number => call.lowestValidSequenceNumber ≤ number
        simp only [if_true, filter_some, lt_self_iff_false, le_refl, decide_true,
          decide_false, Bool.false_eq_true, if_false, toList_none, toList_some,
          foldl_nil, foldl_cons, true_and, not_not]
        rw [← kept, ← addDependency_eq_self]
        exact eq_comm
      · simp [filter_some, below.not_ge, below.not_gt, below.ne]

end Added

/-- For uops with increasing numbers and a window that does not go back: every call adds exactly
the last store to the address of a load and the last barrier, as far as they are in the window, if
and only if no uop that has to wait for the last barrier meets it as the oldest uop of the
window. -/
theorem dependencies_exact_iff (calls : List TrackerCall)
    (numbers : calls.Pairwise fun a b => a.number < b.number) (bounds : calls.Pairwise fun a b =>
      a.lowestValidSequenceNumber ≤ b.lowestValidSequenceNumber) :
    (∀ (i : ℕ) (inside : i < calls.length), AddsExactly (calls.take i) calls[i]) ↔
      ∀ (i : ℕ) (inside : i < calls.length), ¬ MeetsOldest (calls.take i) calls[i] := by
  refine forall_congr' fun i => forall_congr' fun inside => ?_
  have earlier := numbers.sublist (take_sublist i calls)
  refine addsExactly_iff ?_ earlier
  refine tracks_after earlier (bounds.sublist (take_sublist i calls)) fun call mem => ?_
  obtain ⟨j, before, rfl⟩ := mem_take_iff_getElem.mp mem
  exact pairwise_iff_getElem.mp bounds j i _ inside (by omega)

def fenceThenLoad (lowest : ℕ) : List TrackerCall :=
  [⟨{ DynamicMicroOp.ofMicroOp { MicroOp.makeExecute 0 0 false with memBarrier := true } 0 1 with
      sequenceNumber := 7 }, 7⟩,
    ⟨{ DynamicMicroOp.ofMicroOp (.makeLoad 0) 64 1 with sequenceNumber := 8 }, lowest⟩]

/-- The fence is the oldest uop of the window, and the load behind it does not wait for it. -/
theorem fenceThenLoad_misses : (fenceThenLoad 7).Pairwise (fun a b => a.number < b.number) ∧
      latestBarrier ((fenceThenLoad 7).take 1) = some 7 ∧
      ((fenceThenLoad 7)[1]?.map fun call => due ((fenceThenLoad 7).take 1) call) = some [7] ∧
      ((fenceThenLoad 7)[1]?.map fun call =>
        ((MemoryDependencies.after ((fenceThenLoad 7).take 1)).setDependencies call.uop 7).2
          |>.dependencies) = some [] ∧
      ¬ ∀ (i : ℕ) (inside : i < (fenceThenLoad 7).length),
        AddsExactly ((fenceThenLoad 7).take i) (fenceThenLoad 7)[i] := by
  decide

def storeFenceLoads : List TrackerCall :=
  [⟨{ DynamicMicroOp.ofMicroOp (.makeStore 0 0) 64 1 with sequenceNumber := 3 }, 2⟩,
    ⟨{ DynamicMicroOp.ofMicroOp { MicroOp.makeExecute 0 0 false with memBarrier := true } 0 1 with
      sequenceNumber := 4 }, 2⟩,
    ⟨{ DynamicMicroOp.ofMicroOp (.makeLoad 0) 64 1 with sequenceNumber := 5 }, 3⟩,
    ⟨{ DynamicMicroOp.ofMicroOp (.makeLoad 0) 8 1 with sequenceNumber := 6 }, 5⟩]

theorem storeFenceLoads_exact :
    due (storeFenceLoads.take 2) ⟨.ofMicroOp (.makeLoad 0) 64 1, 3⟩ = [3, 4] ∧
      ∀ (i : ℕ) (inside : i < storeFenceLoads.length),
        AddsExactly (storeFenceLoads.take i) storeFenceLoads[i] :=
  ⟨by decide, (dependencies_exact_iff storeFenceLoads (by decide) (by decide)).mpr (by decide)⟩

end Sniper.Rob
