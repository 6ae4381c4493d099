import Sniper.Rob.Wakeup

/-!
# What the buffer keeps

Three groups of facts about the entries hold between all operations on the buffer: the
dependencies an entry waits for are on earlier entries that will wake it; an entry is ready
no later than what it waited for allows; and barriers are issued in order, with later memory
operations waiting for fences. Each operation keeps them: dispatch, issue, commit, and taking
a uop.
-/

namespace Sniper.Rob

open List DynamicMicroOp Nat

variable {μ σ : Type} {core : Core μ σ}

/-! ## The invariants -/

structure Linkage (first : ℕ) (rob : List RobEntry) : Prop where
  numbered : Numbered first rob
  /-- An entry waits for earlier ones that have not been issued. -/
  pending : ∀ (j : ℕ) entry, rob[j]? = some entry → ∀ number ∈ entry.pending,
    ∃ (k : ℕ) (producer : RobEntry), k < j ∧ rob[k]? = some producer ∧
      producer.number = number ∧ producer.done = ⊤
  /-- Issuing those removes the dependencies on them. -/
  woken : ∀ (k : ℕ) producer (j : ℕ) entry, rob[k]? = some producer →
    rob[j]? = some entry → producer.done = ⊤ →
    entry.pending.count producer.number ≤ producer.dependants.count entry.number
  later : ∀ (k : ℕ) producer, rob[k]? = some producer →
    ∀ number ∈ producer.dependants, producer.number < number

/-- When the entries become ready: `limit` is the earliest time for those dispatched last. -/
structure Timed (now limit : ℕ) (rob : List RobEntry) : Prop where
  unready : ∀ (j : ℕ) entry, rob[j]? = some entry → entry.pending ≠ [] →
    entry.ready = ⊤
  bounded : ∀ (j : ℕ) entry, rob[j]? = some entry → ∀ bound : ℕ, now ≤ bound →
    (∀ (k : ℕ) producer, k < j → rob[k]? = some producer → producer.done ≠ ⊤ →
      producer.done ≤ bound) → entry.readyMax ≤ bound
  settled : ∀ (j : ℕ) entry, rob[j]? = some entry → entry.pending = [] →
    entry.ready ≤ max entry.readyMax limit

/-- The order that barriers keep. `membar` is the last fence the tracker has seen. -/
structure Barred (membar : Option ℕ) (rob : List RobEntry) : Prop where
  inOrder : ∀ (j : ℕ) entry, rob[j]? = some entry → entry.done ≠ ⊤ →
    (entry.uop.isStore ∨ entry.uop.isMemBarrier) →
    ∀ (k : ℕ) before, k < j → rob[k]? = some before → before.done ≠ ⊤
  /-- Loads and stores wait for a fence after any that has not been issued, unless this one
  is at the front. -/
  fences : ∀ (k : ℕ) fence (j : ℕ) entry, k < j →
    rob[k]? = some fence → rob[j]? = some entry → fence.uop.microOp.isFence → fence.done = ⊤ →
    (entry.uop.isLoad ∨ entry.uop.isStore) →
    k = 0 ∨ ∃ (m : ℕ) (last : RobEntry), k ≤ m ∧ rob[m]? = some last ∧
      last.uop.microOp.isFence ∧ last.number ∈ entry.pending
  tracker : ∀ (k : ℕ) fence, rob[k]? = some fence → fence.uop.microOp.isFence →
    ∃ (m : ℕ) (last : RobEntry), k ≤ m ∧ rob[m]? = some last ∧ last.uop.microOp.isFence ∧
      membar = some last.number

/-! ## Dispatching, and adding dependants -/

/-- `after` is `before`, perhaps ready later, and perhaps with further dependants. -/
structure Alike (limit : ℕ) (before after : RobEntry) : Prop where
  uop : after.uop = before.uop
  done : after.done = before.done
  readyMax : after.readyMax = before.readyMax
  notEarlier : before.ready ≤ after.ready
  notLater : after.ready ≤ max before.ready ↑limit
  dependants : ∃ more, after.dependants = before.dependants ++ more ∧
    ∀ number ∈ more, before.number < number

section Alike

variable {first now limit limit' : ℕ} {membar : Option ℕ} {rob rob' : List RobEntry}

lemma Alike.refl (limit : ℕ) (entry : RobEntry) : Alike limit entry entry :=
  ⟨rfl, rfl, rfl, le_rfl, le_max_left _ _, [], by simp, by simp⟩

lemma Alike.number {before after : RobEntry} (alike : Alike limit before after) :
    after.number = before.number := congrArg sequenceNumber alike.uop

lemma Alike.pending {before after : RobEntry} (alike : Alike limit before after) :
    after.pending = before.pending := congrArg getDependencies alike.uop

lemma Linkage.alike (linkage : Linkage first rob)
    (changed : Pointwise (fun _ => Alike limit) rob rob') : Linkage first rob' where
  numbered k after there := by
    obtain ⟨before, old, same⟩ := changed.entries k after there
    rw [same.number]
    exact linkage.numbered k before old
  pending j after there number mem := by
    obtain ⟨before, old, same⟩ := changed.entries j after there
    rw [same.pending] at mem
    obtain ⟨k, producer, earlier, found, named, waits⟩ := linkage.pending j before old number mem
    obtain ⟨producer', found', same'⟩ := changed.forth found
    exact ⟨k, producer', earlier, found', same'.number.trans named, same'.done.trans waits⟩
  woken k producer' j after found' there waits := by
    obtain ⟨producer, found, same'⟩ := changed.entries k producer' found'
    obtain ⟨before, old, same⟩ := changed.entries j after there
    obtain ⟨more, dependants, -⟩ := same'.dependants
    have counted := linkage.woken k producer j before found old (same'.done.symm.trans waits)
    rw [same.pending, same'.number, dependants, same.number, count_append]
    omega
  later k producer' found' number mem := by
    obtain ⟨producer, found, same⟩ := changed.entries k producer' found'
    obtain ⟨more, dependants, larger⟩ := same.dependants
    rw [dependants] at mem
    rw [same.number]
    rcases mem_append.mp mem with mem | mem
    · exact linkage.later k producer found number mem
    · exact larger number mem

lemma Timed.alike (timed : Timed now limit rob) (notEarlier : limit ≤ limit')
    (changed : Pointwise (fun _ => Alike limit') rob rob') : Timed now limit' rob' where
  unready j after there waits := by
    obtain ⟨before, old, same⟩ := changed.entries j after there
    rw [same.pending] at waits
    have notEarlier := same.notEarlier
    rw [timed.unready j before old waits] at notEarlier
    exact top_le_iff.mp notEarlier
  bounded j after there bound late all := by
    obtain ⟨before, old, same⟩ := changed.entries j after there
    rw [same.readyMax]
    refine timed.bounded j before old bound late fun k producer earlier found issued => ?_
    obtain ⟨producer', found', same'⟩ := changed.forth found
    rw [← same'.done] at issued ⊢
    exact all k producer' earlier found' issued
  settled j after there free := by
    obtain ⟨before, old, same⟩ := changed.entries j after there
    rw [same.pending] at free
    rw [same.readyMax]
    have limits : (limit : Time) ≤ limit' := WithTop.coe_le_coe.mpr notEarlier
    calc after.ready ≤ max before.ready ↑limit' := same.notLater
      _ ≤ max (max before.readyMax ↑limit) ↑limit' :=
        max_le_max_right _ (timed.settled j before old free)
      _ = max before.readyMax ↑limit' := by rw [max_assoc, max_eq_right limits]

lemma Barred.alike (barred : Barred membar rob)
    (changed : Pointwise (fun _ => Alike limit) rob rob') : Barred membar rob' where
  inOrder j after there issued kind k before' earlier found' := by
    obtain ⟨entry, old, same⟩ := changed.entries j after there
    obtain ⟨before, found, same'⟩ := changed.entries k before' found'
    rw [same.done] at issued
    rw [same.uop] at kind
    rw [same'.done]
    exact barred.inOrder j entry old issued kind k before earlier found
  fences k fence' j after earlier found' there isFence waits kind := by
    obtain ⟨fence, found, same'⟩ := changed.entries k fence' found'
    obtain ⟨entry, old, same⟩ := changed.entries j after there
    rw [same'.uop] at isFence
    rw [same'.done] at waits
    rw [same.uop] at kind
    refine (barred.fences k fence j entry earlier found old isFence waits kind).imp_right ?_
    rintro ⟨m, last, between, placed, lastFence, mem⟩
    obtain ⟨last', placed', sameLast⟩ := changed.forth placed
    refine ⟨m, last', between, placed', ?_, ?_⟩
    · rw [sameLast.uop]
      exact lastFence
    · rw [sameLast.number, same.pending]
      exact mem
  tracker k fence' found' isFence := by
    obtain ⟨fence, found, same'⟩ := changed.entries k fence' found'
    rw [same'.uop] at isFence
    obtain ⟨m, last, between, placed, lastFence, tracked⟩ := barred.tracker k fence found isFence
    obtain ⟨last', placed', sameLast⟩ := changed.forth placed
    refine ⟨m, last', between, placed', ?_, ?_⟩
    · rw [sameLast.uop]
      exact lastFence
    · rw [sameLast.number]
      exact tracked

end Alike

/-! ## Issuing -/

section Issue

variable {first now limit cycle finish i k : ℕ} {membar : Option ℕ} {entry before after : RobEntry}
  {rob rob' : List RobEntry}

section

variable (effect : Effect now cycle finish i entry k before after)

include effect

lemma Effect.identity : after.uop.identity = before.uop.identity := by
  cases effect with
  | woken other woken => exact woken.identity
  | done here same done => exact done.identity

lemma Effect.number : after.number = before.number := congrArg Prod.snd effect.identity

lemma Effect.microOp : after.uop.microOp = before.uop.microOp := congrArg Prod.fst effect.identity

lemma Effect.dependants : after.dependants = before.dependants := by
  cases effect with
  | woken other woken => exact woken.dependants
  | done here same done => exact done.dependants

lemma Effect.count_le (number : ℕ) : after.pending.count number ≤ before.pending.count number := by
  cases effect with
  | woken other woken =>
    rw [woken.pending]
    exact sub_le _ _
  | done here same done => rw [done.pending]

lemma Effect.mem {number : ℕ} (mem : number ∈ after.pending) : number ∈ before.pending := by
  have := effect.count_le number
  have := count_pos_iff.mpr mem
  exact count_pos_iff.mp (by omega)

lemma Effect.waits (waits : after.done = ⊤) : k ≠ i ∧ before.done = ⊤ := by
  cases effect with
  | woken other woken => exact ⟨other, woken.done.symm.trans waits⟩
  | done here same done =>
    rw [done.done] at waits
    exact absurd waits WithTop.coe_ne_top

lemma Effect.issued (issued : before.done ≠ ⊤) : after.done ≠ ⊤ :=
  fun waits => issued (effect.waits waits).2

lemma Effect.done_of_ne (other : k ≠ i) : after.done = before.done := by
  cases effect with
  | woken _ woken => exact woken.done
  | done here same done => exact absurd here other

lemma Effect.finish_of_eq (here : k = i) : after.done = ↑finish := by
  cases effect with
  | woken other woken => exact absurd here other
  | done here same done => exact done.done

end

lemma Linkage.issue (linkage : Linkage first rob) (found : rob[i]? = some entry)
    (issues : Issues now cycle finish i entry rob rob') : Linkage first rob' where
  numbered k after there := by
    obtain ⟨before, old, effect⟩ := issues.changed.entries k after there
    rw [effect.number]
    exact linkage.numbered k before old
  pending j after there number mem := by
    obtain ⟨before, old, effect⟩ := issues.changed.entries j after there
    obtain ⟨k, producer, earlier, placed, named, waits⟩ :=
      linkage.pending j before old number (effect.mem mem)
    obtain ⟨producer', placed', effect'⟩ := issues.changed.forth placed
    have other : k ≠ i := by
      rintro rfl
      -- the entry that is issued has woken all that waited for it
      obtain rfl := Option.some.inj (placed.symm.trans found)
      cases effect with
      | woken other woken =>
        have counted := linkage.woken k producer j before placed old waits
        have left := woken.pending number
        have := count_pos_iff.mpr mem
        rw [if_pos named, ← named] at left
        rw [← named] at this
        omega
      | done here => exact absurd here (ne_of_gt earlier)
    exact ⟨k, producer', earlier, placed', effect'.number.trans named,
      (effect'.done_of_ne other).trans waits⟩
  woken k producer' j after placed' there waits := by
    obtain ⟨producer, placed, effect'⟩ := issues.changed.entries k producer' placed'
    obtain ⟨before, old, effect⟩ := issues.changed.entries j after there
    rw [effect'.number, effect'.dependants, effect.number]
    exact (effect.count_le _).trans
      (linkage.woken k producer j before placed old (effect'.waits waits).2)
  later k producer' placed' number mem := by
    obtain ⟨producer, placed, effect⟩ := issues.changed.entries k producer' placed'
    rw [effect.dependants] at mem
    rw [effect.number]
    exact linkage.later k producer placed number mem

lemma Linkage.silent (linkage : Linkage first rob) (found : rob[i]? = some entry)
    (old : rob[k]? = some before) (notLater : k ≤ i) :
    entry.dependants.count before.number = 0 := by
  refine count_eq_zero_of_not_mem fun mem => ?_
  have later := linkage.later i entry found _ mem
  rw [linkage.numbered i entry found, linkage.numbered k before old] at later
  omega

lemma Timed.issue (timed : Timed now limit rob) (linkage : Linkage first rob)
    (found : rob[i]? = some entry) (waiting : entry.done = ⊤)
    (issues : Issues now cycle finish i entry rob rob') : Timed now limit rob' where
  unready j after there waits := by
    obtain ⟨before, old, effect⟩ := issues.changed.entries j after there
    have waited : before.pending ≠ [] := by
      obtain ⟨number, mem⟩ := exists_mem_of_ne_nil _ waits
      exact ne_nil_of_mem (effect.mem mem)
    cases effect with
    | woken other woken =>
      rw [woken.ready, if_neg fun both => waits both.1]
      exact timed.unready j before old waited
    | done here same done =>
      rw [done.ready]
      exact timed.unready j before old waited
  bounded j after there bound late all := by
    obtain ⟨before, old, effect⟩ := issues.changed.entries j after there
    have kept : before.readyMax ≤ bound := by
      refine timed.bounded j before old bound late fun k producer earlier placed issued => ?_
      obtain ⟨producer', placed', effect'⟩ := issues.changed.forth placed
      have other : k ≠ i := by
        rintro rfl
        cases placed.symm.trans found
        exact issued waiting
      rw [← effect'.done_of_ne other] at issued ⊢
      exact all k producer' earlier placed' issued
    cases effect with
    | woken other woken =>
      rw [woken.readyMax]
      split
      · next wakes =>
        have later : i < j := by
          by_contra notLater
          rw [linkage.silent found old (by omega)] at wakes
          exact lt_irrefl _ wakes
        obtain ⟨issued, placed, effect'⟩ := issues.changed.forth found
        have finished : issued.done = ↑finish := effect'.finish_of_eq rfl
        have ends := all i issued later placed (by rw [finished]; exact WithTop.coe_ne_top)
        rw [finished] at ends
        exact max_le kept ((WithTop.coe_le_coe.mpr issues.result).trans ends)
      · exact kept
    | done here same done =>
      rw [done.readyMax]
      exact kept
  settled j after there free := by
    obtain ⟨before, old, effect⟩ := issues.changed.entries j after there
    cases effect with
    | woken other woken =>
      rcases Nat.eq_zero_or_pos (entry.dependants.count before.number) with none | wakes
      · obtain ⟨readyMax, ready, waited⟩ := woken.silent none
        rw [ready, readyMax]
        exact timed.settled j before old (waited free)
      · rw [woken.ready, if_pos ⟨free, wakes⟩]
        exact le_max_left _ _
    | done here same done =>
      rw [done.ready, done.readyMax]
      rw [done.pending] at free
      exact timed.settled j before old free

lemma Barred.issue (barred : Barred membar rob) (linkage : Linkage first rob)
    (found : rob[i]? = some entry) (head : entry.uop.isStore ∨ entry.uop.isMemBarrier →
      ∀ (k : ℕ) before, k < i → rob[k]? = some before → before.done ≠ ⊤)
    (issues : Issues now cycle finish i entry rob rob') : Barred membar rob' where
  inOrder j after there issued kind k before' earlier placed' := by
    obtain ⟨old, there, effect⟩ := issues.changed.entries j after there
    obtain ⟨before, placed, effect'⟩ := issues.changed.entries k before' placed'
    refine effect'.issued ?_
    rw [isStore, isMemBarrier, effect.microOp] at kind
    by_cases here : j = i
    · subst here
      cases there.symm.trans found
      exact head kind k before earlier placed
    · rw [effect.done_of_ne here] at issued
      exact barred.inOrder j old there issued kind k before earlier placed
  fences k fence' j after earlier placed' there isFence waits kind := by
    obtain ⟨fence, placed, effect'⟩ := issues.changed.entries k fence' placed'
    obtain ⟨old, there, effect⟩ := issues.changed.entries j after there
    obtain ⟨other, waits⟩ := effect'.waits waits
    rw [effect'.microOp] at isFence
    rw [isLoad, isStore, effect.microOp] at kind
    refine (barred.fences k fence j old earlier placed there isFence waits kind).imp_right ?_
    rintro ⟨m, last, between, last_placed, lastFence, mem⟩
    obtain ⟨last', last_placed', effectLast⟩ := issues.changed.forth last_placed
    refine ⟨m, last', between, last_placed', by rw [effectLast.microOp]; exact lastFence, ?_⟩
    rw [effectLast.number]
    cases effect with
    | woken _ woken =>
      -- a fence is issued at the head of the queue, but the earlier one still waits
      have different : entry.number ≠ last.number := by
        intro same
        obtain rfl := linkage.numbered.unique found last_placed same
        have here : m = i := by
          have := linkage.numbered i entry found
          have := linkage.numbered m entry last_placed
          omega
        exact head (.inr (isMemBarrier_of_isFence lastFence)) k fence (by omega) placed waits
      exact woken.mem different mem
    | done here same done =>
      rw [done.pending]
      exact mem
  tracker k fence' placed' isFence := by
    obtain ⟨fence, placed, effect'⟩ := issues.changed.entries k fence' placed'
    rw [effect'.microOp] at isFence
    obtain ⟨m, last, between, placed, lastFence, tracked⟩ := barred.tracker k fence placed isFence
    obtain ⟨last', placed', effectLast⟩ := issues.changed.forth placed
    refine ⟨m, last', between, placed', ?_, ?_⟩
    · rw [effectLast.microOp]
      exact lastFence
    · rw [effectLast.number]
      exact tracked

end Issue

/-! ## Committing -/

section Commit

variable {first now limit : ℕ} {membar : Option ℕ} {front : RobEntry} {rob : List RobEntry}

lemma Linkage.commit (linkage : Linkage first rob) (found : rob[0]? = some front)
    (issued : front.done ≠ ⊤) : Linkage (first + 1) rob.tail where
  numbered k entry placed := by
    rw [getElem?_tail] at placed
    rw [linkage.numbered (k + 1) entry placed]
    omega
  pending j entry placed number mem := by
    rw [getElem?_tail] at placed
    obtain ⟨k, producer, earlier, there, named, waits⟩ :=
      linkage.pending (j + 1) entry placed number mem
    cases k with
    | zero =>
      cases found.symm.trans there
      exact absurd waits issued
    | succ k => exact ⟨k, producer, by omega, by rw [getElem?_tail]; exact there, named, waits⟩
  woken k producer j entry there placed := by
    rw [getElem?_tail] at there placed
    exact linkage.woken (k + 1) producer (j + 1) entry there placed
  later k producer there := by
    rw [getElem?_tail] at there
    exact linkage.later (k + 1) producer there

lemma Timed.commit (timed : Timed now limit rob) (found : rob[0]? = some front)
    (finished : front.done ≤ now) : Timed now limit rob.tail where
  unready j entry placed := by
    rw [getElem?_tail] at placed
    exact timed.unready (j + 1) entry placed
  bounded j entry placed bound late all := by
    rw [getElem?_tail] at placed
    refine timed.bounded (j + 1) entry placed bound late fun k producer earlier there issued => ?_
    cases k with
    | zero =>
      cases found.symm.trans there
      exact finished.trans (WithTop.coe_le_coe.mpr late)
    | succ k => exact all k producer (by omega) (by rw [getElem?_tail]; exact there) issued
  settled j entry placed := by
    rw [getElem?_tail] at placed
    exact timed.settled (j + 1) entry placed

lemma Barred.commit (barred : Barred membar rob) : Barred membar rob.tail where
  inOrder j entry placed issued kind k before earlier there := by
    rw [getElem?_tail] at placed there
    exact barred.inOrder (j + 1) entry placed issued kind (k + 1) before (by omega) there
  fences k fence j entry earlier there placed isFence waits kind := by
    rw [getElem?_tail] at placed there
    rcases barred.fences (k + 1) fence (j + 1) entry (by omega) there placed isFence waits kind
      with none | ⟨m, last, between, lastPlaced, lastFence, mem⟩
    · cases none
    · refine .inr ⟨m - 1, last, by omega, ?_, lastFence, mem⟩
      rw [getElem?_tail, Nat.sub_add_cancel (by omega)]
      exact lastPlaced
  tracker k fence there isFence := by
    rw [getElem?_tail] at there
    obtain ⟨m, last, between, placed, rest⟩ := barred.tracker (k + 1) fence there isFence
    refine ⟨m - 1, last, by omega, ?_, rest⟩
    rw [getElem?_tail, Nat.sub_add_cancel (by omega)]
    exact placed

end Commit

/-! ## Taking uops -/

section Append

variable {first now limit : ℕ} {membar membar' : Option ℕ} {entry : RobEntry} {rob : List RobEntry}

lemma getElem?_kept {k : ℕ} {old : RobEntry} (found : rob[k]? = some old) :
    (rob ++ [entry])[k]? = some old := by
  rw [getElem?_append_left (List.getElem?_eq_some_iff.mp found).1]
  exact found

lemma Linkage.append (linkage : Linkage first rob) (position : entry.number = first + rob.length)
    (pending : ∀ number ∈ entry.pending, ∃ (k : ℕ) (producer : RobEntry),
      rob[k]? = some producer ∧ producer.number = number ∧ producer.done = ⊤)
    (woken : ∀ (k : ℕ) producer, rob[k]? = some producer → producer.done = ⊤ →
      entry.pending.count producer.number ≤ producer.dependants.count entry.number)
    (alone : entry.dependants = []) : Linkage first (rob ++ [entry]) := by
  have inside : ∀ {k : ℕ} {old : RobEntry}, rob[k]? = some old → k < rob.length :=
    fun found => (List.getElem?_eq_some_iff.mp found).1
  have waits : ∀ (j : ℕ) other, (rob ++ [entry])[j]? = some other →
      ∀ number ∈ other.pending, ∃ (k : ℕ) (producer : RobEntry), k < j ∧
        rob[k]? = some producer ∧ producer.number = number ∧ producer.done = ⊤ := by
    intro j other there number mem
    rcases getElem?_appended there with there | ⟨rfl, rfl⟩
    · exact linkage.pending j other there number mem
    · obtain ⟨k, producer, found, rest⟩ := pending number mem
      exact ⟨k, producer, inside found, found, rest⟩
  refine ⟨?_, ?_, ?_, ?_⟩
  · intro k other there
    rcases getElem?_appended there with there | ⟨rfl, rfl⟩
    · exact linkage.numbered k other there
    · exact position
  · intro j other there number mem
    obtain ⟨k, producer, earlier, found, rest⟩ := waits j other there number mem
    exact ⟨k, producer, earlier, getElem?_kept found, rest⟩
  · intro k producer j other found there unissued
    rcases getElem?_appended found with placed | ⟨rfl, rfl⟩
    · rcases getElem?_appended there with there | ⟨rfl, rfl⟩
      · exact linkage.woken k producer j other placed there unissued
      · exact woken k producer placed unissued
    · -- nothing waits for the new entry
      have absent : producer.number ∉ other.pending := by
        intro mem
        obtain ⟨k, earlier, -, placed, named, -⟩ := waits j other there _ mem
        have := linkage.numbered k earlier placed
        have := inside placed
        omega
      rw [count_eq_zero_of_not_mem absent]
      exact zero_le _
  · intro k producer found number mem
    rcases getElem?_appended found with found | ⟨rfl, rfl⟩
    · exact linkage.later k producer found number mem
    · rw [alone] at mem
      cases mem

lemma Timed.append (timed : Timed now limit rob)
    (ready : entry.ready = if entry.pending = [] then entry.readyMax else ⊤)
    (readyMax : ∀ bound : ℕ, (∀ (k : ℕ) producer, rob[k]? = some producer →
      producer.done ≠ ⊤ → producer.done ≤ bound) → entry.readyMax ≤ bound) :
    Timed now limit (rob ++ [entry]) where
  unready j other there waits := by
    rcases getElem?_appended there with there | ⟨rfl, rfl⟩
    · exact timed.unready j other there waits
    · rw [ready, if_neg waits]
  bounded j other there bound late all := by
    rcases getElem?_appended there with there | ⟨rfl, rfl⟩
    · exact timed.bounded j other there bound late fun k producer earlier found =>
        all k producer earlier (getElem?_kept found)
    · exact readyMax bound fun k producer found =>
        all k producer (List.getElem?_eq_some_iff.mp found).1 (getElem?_kept found)
  settled j other there free := by
    rcases getElem?_appended there with there | ⟨rfl, rfl⟩
    · exact timed.settled j other there free
    · rw [ready, if_pos free]
      exact le_max_left _ _

lemma Barred.append (barred : Barred membar rob) (unissued : entry.done = ⊤)
    (fenced : ∀ (k : ℕ) fence, rob[k]? = some fence → fence.done = ⊤ →
      fence.uop.microOp.isFence → membar = some fence.number → 0 < k →
      (entry.uop.isLoad ∨ entry.uop.isStore) → fence.number ∈ entry.pending)
    (last : membar' = if entry.uop.microOp.isFence then some entry.number else membar) :
    Barred membar' (rob ++ [entry]) where
  inOrder j other there issued kind k before earlier found := by
    rcases getElem?_appended there with there | ⟨rfl, rfl⟩
    · rw [getElem?_append_left (earlier.trans (List.getElem?_eq_some_iff.mp there).1)] at found
      exact barred.inOrder j other there issued kind k before earlier found
    · exact absurd unissued issued
  fences k fence j other earlier found there isFence waits kind := by
    rcases getElem?_appended there with there | ⟨rfl, rfl⟩
    · rw [getElem?_append_left (earlier.trans (List.getElem?_eq_some_iff.mp there).1)] at found
      refine (barred.fences k fence j other earlier found there isFence waits kind).imp_right ?_
      rintro ⟨m, before, between, placed, rest⟩
      exact ⟨m, before, between, getElem?_kept placed, rest⟩
    · rw [getElem?_append_left earlier] at found
      rcases Nat.eq_zero_or_pos k with front | positive
      · exact .inl front
      obtain ⟨m, before, between, placed, beforeFence, tracked⟩ :=
        barred.tracker k fence found isFence
      -- had the last fence been issued, so had the others before it
      have unissued : before.done = ⊤ := by
        by_contra issued
        have barrier := isMemBarrier_of_isFence beforeFence
        rcases lt_or_eq_of_le between with earlier | rfl
        · exact barred.inOrder m before placed issued (.inr barrier) k fence earlier found waits
        · cases found.symm.trans placed
          exact issued waits
      exact .inr ⟨m, before, between, getElem?_kept placed, beforeFence,
        fenced m before placed unissued beforeFence tracked (by omega) kind⟩
  tracker k fence found isFence := by
    by_cases newFence : entry.uop.microOp.isFence = true
    · rw [if_pos newFence] at last
      refine ⟨rob.length, entry, ?_, by simp, newFence, last⟩
      rcases getElem?_appended found with found | ⟨rfl, -⟩
      · exact (List.getElem?_eq_some_iff.mp found).1.le
      · exact le_rfl
    · rw [if_neg newFence] at last
      rcases getElem?_appended found with found | ⟨rfl, rfl⟩
      · obtain ⟨m, before, between, placed, rest⟩ := barred.tracker k fence found isFence
        rw [last]
        exact ⟨m, before, between, getElem?_kept placed, rest⟩
      · exact absurd isFence newFence

end Append

/-! ## The timer -/

structure Sound (first limit : ℕ) (s : RobTimer μ σ) : Prop where
  fresh : Fresh s
  next : first + s.rob.length = s.nextSequenceNumber
  linkage : Linkage first s.rob
  timed : Timed s.now limit s.rob
  barred : Barred s.memoryDependencies.membar s.rob

variable {first limit : ℕ} {s s' : RobTimer μ σ}

lemma Sound.create (core : Core μ σ) (memory : μ) (contention : σ) :
    Sound 0 0 (RobTimer.create core memory contention) where
  fresh := ⟨le_rfl, by simp [RobTimer.create]⟩
  next := rfl
  linkage := ⟨by simp [RobTimer.create, Numbered], by simp [RobTimer.create],
    by simp [RobTimer.create], by simp [RobTimer.create]⟩
  timed := ⟨by simp [RobTimer.create], by simp [RobTimer.create], by simp [RobTimer.create]⟩
  barred := ⟨by simp [RobTimer.create], by simp [RobTimer.create], by simp [RobTimer.create]⟩

lemma Sound.contention (sound : Sound first limit s) (contention : σ) :
    Sound first limit { s with contention := contention } :=
  ⟨⟨sound.fresh.within, sound.fresh.waiting⟩, sound.next, sound.linkage, sound.timed, sound.barred⟩

lemma Timed.later {now now' limit limit' : ℕ} {rob : List RobEntry} (timed : Timed now limit rob)
    (nows : now ≤ now') (limits : limit ≤ limit') : Timed now' limit' rob where
  unready := timed.unready
  bounded := fun j entry found bound late => timed.bounded j entry found bound (nows.trans late)
  settled := fun j entry found free => (timed.settled j entry found free).trans
    (max_le_max_left _ (WithTop.coe_le_coe.mpr limits))

lemma dispatchEntry_alike {entry : RobEntry} (found : s.rob[s.numInRob]? = some entry) :
    Pointwise (fun _ => Alike (s.now + 1)) s.rob (dispatchEntry s entry).rob := by
  refine ⟨length_set, fun k after there => ?_⟩
  rcases getElem?_replaced found there with ⟨rfl, rfl⟩ | ⟨-, there⟩
  · exact ⟨entry, found, rfl, rfl, rfl, le_max_left _ _, le_rfl, [], by simp, by simp⟩
  · exact ⟨after, there, Alike.refl _ _⟩

lemma Sound.dispatchEntry (sound : Sound first (s.now + 1) s) {entry : RobEntry}
    (found : s.rob[s.numInRob]? = some entry) :
    Sound first (s.now + 1) (dispatchEntry s entry) := by
  have alike := dispatchEntry_alike found
  refine ⟨sound.fresh.dispatchEntry found, ?_, sound.linkage.alike alike,
    sound.timed.alike le_rfl alike, sound.barred.alike alike⟩
  rw [alike.length]
  exact sound.next

lemma Sound.issueInstruction (core : Core μ σ) (sound : Sound first limit s) {i : ℕ}
    {entry : RobEntry} (inside : i < s.numInRob) (found : s.rob[i]? = some entry)
    (waiting : entry.done = ⊤) (head : entry.uop.isStore ∨ entry.uop.isMemBarrier →
      ∀ (k : ℕ) before, k < i → s.rob[k]? = some before → before.done ≠ ⊤) :
    Sound first limit (issueInstruction core i entry s) := by
  obtain ⟨cycle, finish, issues⟩ := issueInstruction_issues core
    sound.linkage.numbered found (sound.linkage.later i entry found)
  refine ⟨sound.fresh.issueInstruction inside entry, ?_, sound.linkage.issue found issues,
    sound.timed.issue sound.linkage found waiting issues,
    sound.barred.issue sound.linkage found head issues⟩
  rw [issues.changed.length]
  exact sound.next

lemma Sound.commitEntry (sound : Sound first limit s) {entry : RobEntry}
    (front : s.rob.head? = some entry) (finished : entry.done ≤ s.now) :
    Sound (first + 1) limit (commitEntry s entry) := by
  have found : s.rob[0]? = some entry := by rw [← head?_eq_getElem?]; exact front
  have issued : entry.done ≠ ⊤ := ne_top_of_le_ne_top WithTop.coe_ne_top finished
  refine ⟨sound.fresh.commitEntry front finished, ?_, sound.linkage.commit found issued,
    sound.timed.commit found finished, sound.barred.commit⟩
  have := sound.next
  have := (List.getElem?_eq_some_iff.mp found).1
  simp only [Rob.commitEntry, length_tail]
  omega

lemma Enters.alike {uop : DynamicMicroOp} {linked : Linked} (enters : Enters s uop linked)
    (sound : Sound first limit s) : Pointwise (fun _ => Alike limit) s.rob linked.rob := by
  refine ⟨enters.changed.length, fun k after there => ?_⟩
  obtain ⟨before, old, n, -, rfl⟩ := enters.changed.entries k after there
  refine ⟨before, old, rfl, rfl, rfl, le_rfl, le_max_left _ _, _, rfl, ?_⟩
  intro number mem
  rw [eq_of_mem_replicate mem, sound.linkage.numbered k before old, ← sound.next]
  have := (List.getElem?_eq_some_iff.mp old).1
  omega

/-- A uop that enters the buffer waits for uops before it only. -/
lemma Sound.enqueue (sound : Sound first limit s) {uop : DynamicMicroOp}
    (ran : enqueue core s uop = some s') : Sound first limit s' := by
  have fresh := sound.fresh.enqueue ran
  rw [Rob.enqueue] at ran
  split at ran
  · cases ran
    exact sound
  obtain ⟨linked, links, rfl⟩ := Option.map_eq_some_iff.mp ran
  have enters := link_enters sound.linkage.numbered links
  have next := sound.next
  have alike := enters.alike sound
  have linkage := sound.linkage.alike alike
  have length := enters.changed.length
  have number : linked.entry.number = s.nextSequenceNumber := congrArg Prod.snd enters.identity
  have microOp : linked.entry.uop.microOp = uop.microOp := congrArg Prod.fst enters.identity
  refine ⟨fresh, ?_, ?_, ?_, ?_⟩
  · simp only [length_append, length_singleton, length]
    omega
  · refine linkage.append ?_ ?_ ?_ enters.dependants
    · rw [number, length, next]
    · intro dependency mem
      obtain ⟨k, producer, found, named, waits⟩ := enters.pending dependency mem
      obtain ⟨producer', found', same⟩ := alike.forth found
      exact ⟨k, producer', found', same.number.trans named, same.done.trans waits⟩
    · intro k producer' found' waits
      obtain ⟨producer, found, n, counted, rfl⟩ := enters.changed.entries k producer' found'
      have := counted waits
      simp only [count_append, number, count_replicate_self]
      exact this.trans (le_add_left _ _)
  · refine (sound.timed.alike le_rfl alike).append enters.ready fun bound all => ?_
    refine enters.readyMax bound fun k producer found issued => ?_
    obtain ⟨producer', found', same⟩ := alike.forth found
    rw [← same.done] at issued ⊢
    exact all k producer' found' issued
  · refine (sound.barred.alike alike).append enters.unissued ?_ ?_
    · intro k fence' found' waits isFence last positive kind
      obtain ⟨fence, found, same⟩ := alike.entries k fence' found'
      rw [same.number] at last ⊢
      rw [same.done] at waits
      rw [same.uop] at isFence
      refine enters.fenced k fence found waits ?_ last ?_ ?_
      · simp only [MicroOp.isFence, Bool.and_eq_true, Bool.not_eq_true'] at isFence
        exact isFence.2
      · obtain ⟨front, first_⟩ : ∃ front, s.rob[0]? = some front :=
          ⟨_, getElem?_eq_getElem (by
            have := (List.getElem?_eq_some_iff.mp found).1
            omega)⟩
        rw [head?_eq_getElem?, first_, Option.elim_some,
          sound.linkage.numbered 0 front first_, sound.linkage.numbered k fence found]
        omega
      · rw [isLoad, isStore, ← microOp]
        exact kind
    · rw [enters.membar, microOp, number]

end Sniper.Rob
