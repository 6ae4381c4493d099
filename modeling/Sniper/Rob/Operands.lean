import Sniper.Rob.Squash

/-!
# The operands of an instruction

The decoder gives loads, at most one execute uop, and stores, and the loop over the memory operands
takes the uops of a type one after the other. Whatever the addresses are, the first uop of each type
is not squashed, and the first and the last uop that are left carry the marks.
-/

namespace Sniper.Rob.Squashing

open Fallible Survivors List MicroOp Option

/-! ## What the decoder gives -/

def IsBlock (type : UopType) (dependencies : ℕ) (uops : List MicroOp) : Prop :=
  ∀ (i : ℕ) (uop : MicroOp), uops[i]? = some uop → uop.type = type ∧
    uop.microOpTypeOffset = i ∧ uop.intraInstructionDependencies = dependencies

structure Layout (loads execs stores : List MicroOp) : Prop where
  isLoad : IsBlock .load 0 loads
  isExec : IsBlock .execute loads.length execs
  isStore : IsBlock .store execs.length stores
  oneExec : execs.length ≤ 1
  nonempty : loads ++ execs ++ stores ≠ []

section Decode

variable {xed : Xed} {ins : XedInst} {uops : List MicroOp}

lemma IsBlock.serializing {type : UopType} {dependencies : ℕ}
    (block : IsBlock type dependencies uops) (last : ℕ → Prop) [DecidablePred last]
    (serializes : Bool) : IsBlock type dependencies (uops.mapIdx fun index uop =>
      if last index then { uop with serializing := serializes } else uop) := by
  intro i uop here
  rw [getElem?_mapIdx] at here
  obtain ⟨before, at', rfl⟩ := map_eq_some_iff.mp here
  split
  · exact block i before at'
  · exact block i before at'

lemma isBlock_mapIdx {β : Type*} {type : UopType} {dependencies : ℕ} {f : ℕ → β → MicroOp}
    (gives : ∀ i b, (f i b).type = type ∧ (f i b).microOpTypeOffset = i ∧
      (f i b).intraInstructionDependencies = dependencies) (l : List β) :
    IsBlock type dependencies (l.mapIdx f) := by
  intro i uop here
  rw [getElem?_mapIdx] at here
  obtain ⟨b, -, rfl⟩ := map_eq_some_iff.mp here
  exact gives i b

lemma getNumExecs_pos (ins : XedInst) : 0 < ins.getNumExecs 0 0 := by
  rw [XedInst.getNumExecs]
  split <;> simp

lemma layout_decode (decoded : ins.decode xed = some uops) : ∃ loads execs stores,
    uops = loads ++ execs ++ stores ∧ Layout loads execs stores ∧
      loads.length = ins.regsLoads.length ∧ stores.length = ins.regsStores.length := by
  rw [XedInst.decode] at decoded
  generalize numExecs : ins.getNumExecs ins.regsLoads.length ins.regsStores.length = n at decoded
  obtain ⟨-, ⟨⟩⟩ | ⟨few, made⟩ := ite_eq_iff.mp decoded
  cases made
  have loads : IsBlock .load 0
      (ins.regsLoads.mapIdx (ins.decodeLoad xed n ins.regsStores.length)) := by
    refine isBlock_mapIdx (fun i regs => ?_) _
    exact ⟨rfl, rfl, rfl⟩
  have execs : IsBlock .execute ins.regsLoads.length
      ((range n).map (ins.decodeExec xed ins.regsLoads.length)) := by
    intro i uop here
    rw [getElem?_map] at here
    obtain ⟨index, there, rfl⟩ := map_eq_some_iff.mp here
    obtain ⟨inside, rfl⟩ := List.getElem?_eq_some_iff.mp there
    exact ⟨rfl, getElem_range .., rfl⟩
  have stores : IsBlock .store n
      (ins.regsStores.mapIdx (ins.decodeStore xed ins.regsLoads.length n)) := by
    refine isBlock_mapIdx (fun i regs => ?_) _
    exact ⟨rfl, rfl, rfl⟩
  rw [mapIdx_append, mapIdx_append]
  refine ⟨_, _, _, rfl, ⟨loads.serializing _ _, ?_, ?_, ?_, ?_⟩, by simp, by simp⟩
  · simpa using execs.serializing _ _
  · simpa using stores.serializing _ _
  · simpa using few
  · intro none
    simp only [append_eq_nil_iff, mapIdx_eq_nil_iff, map_eq_nil_iff, range_eq_nil] at none
    have pos := getNumExecs_pos ins
    rw [none.1.1, none.2] at numExecs
    exact absurd (numExecs.trans none.1.2) pos.ne'

end Decode

/-! ## The loop over the operands -/

variable (current : CurrentUop)

/-- What squashing must not touch before `doSquashing`. -/
def CurrentUop.places : MicroOp × ℕ × ℕ :=
  (current.uop.microOp, current.uop.microOpTypeOffset, current.uop.intraInstructionDependencies)

lemma CurrentUop.places_setFirst : current.setFirst.places = current.places := rfl

lemma CurrentUop.places_setLast : current.setLast.places = current.places := rfl

lemma CurrentUop.places_setSquashed : current.setSquashed.places = current.places := rfl

structure Intact (uops : List MicroOp) (current : List CurrentUop) : Prop where
  places : current.map CurrentUop.places =
    uops.map fun uop => (uop, uop.microOpTypeOffset, uop.intraInstructionDependencies)
  heads : ∀ (i : ℕ) uop, current[i]? = some uop →
    uop.uop.microOp.microOpTypeOffset = 0 → uop.alive = true
  first : OnlyHead CurrentUop.first (current.filter CurrentUop.alive)
  last : OnlyHead CurrentUop.last (current.filter CurrentUop.alive).reverse

section Intact

variable {uops : List MicroOp} {current current' : List CurrentUop} {core : CoreModel}
  {fetch : Fetch}

open CurrentUop

lemma Intact.microOps (intact : Intact uops current) : current.map (·.uop.microOp) = uops := by
  have same := congrArg (map Prod.fst) intact.places
  simpa [CurrentUop.places, Function.comp_def] using same

lemma onlyHead_mapIdx_first {first : ℕ → MicroOp → CurrentUop} (nonempty : uops ≠ [])
    (marks : ∀ i uop, (first i uop).first = decide (i = 0)) :
    OnlyHead CurrentUop.first (uops.mapIdx first) := by
  cases uops with
  | nil => exact absurd rfl nonempty
  | cons uop uops =>
    rw [mapIdx_cons]
    refine ⟨by simp [marks], fun other mem => ?_⟩
    obtain ⟨i, inside, rfl⟩ := mem_mapIdx.mp mem
    simp [marks]

lemma onlyHead_mapIdx_last {last : ℕ → MicroOp → CurrentUop} (nonempty : uops ≠ [])
    (marks : ∀ i uop, (last i uop).last = decide (i + 1 = uops.length)) :
    OnlyHead CurrentUop.last (uops.mapIdx last).reverse := by
  obtain ⟨init, uop, rfl⟩ := (eq_nil_or_concat uops).resolve_left nonempty
  rw [concat_eq_append] at marks ⊢
  rw [mapIdx_append, reverse_append]
  refine ⟨by simp [marks], fun other mem => ?_⟩
  obtain ⟨i, inside, rfl⟩ := mem_mapIdx.mp (mem_reverse.mp mem)
  simp [marks, inside.ne]

lemma intact_create (nonempty : uops ≠ []) :
    Intact uops (uops.mapIdx (create core fetch uops.length)) := by
  have all : (uops.mapIdx (create core fetch uops.length)).filter alive =
      uops.mapIdx (create core fetch uops.length) := by
    refine filter_eq_self.mpr fun uop mem => ?_
    obtain ⟨i, inside, rfl⟩ := mem_mapIdx.mp mem
    rfl
  refine ⟨?_, fun i uop here _ => ?_, ?_, ?_⟩
  · refine ext_getElem (by simp) fun i inside _ => ?_
    simp only [getElem_map, getElem_mapIdx]
    rfl
  · rw [getElem?_mapIdx] at here
    obtain ⟨before, -, rfl⟩ := map_eq_some_iff.mp here
    rfl
  · rw [all]
    exact onlyHead_mapIdx_first nonempty fun i uop => rfl
  · rw [all]
    exact onlyHead_mapIdx_last nonempty fun i uop => rfl

lemma map_squash {β : Type*} {view : CurrentUop → β} (first : ∀ uop, view uop.setFirst = view uop)
    (last : ∀ uop, view uop.setLast = view uop) (i : ℕ) (current : List CurrentUop) :
    (squash i current).map view = (current.modify i setSquashed).map view := by
  rw [squash, map_mapLast last, map_mapFirst first]

lemma filter_squash (i : ℕ) (current : List CurrentUop) : (squash i current).filter alive =
      ((((current.modify i setSquashed).filter alive).modifyHead
        setFirst).reverse.modifyHead setLast).reverse := by
  rw [squash, filter_mapLast alive_setLast, filter_mapFirst alive_setFirst]

section

variable (intact : Intact uops current)

include intact

variable {i : ℕ} {uop : CurrentUop}

lemma filter_modify_ne_nil (starts : uops.head?.map microOpTypeOffset = some 0)
    (here : current[i]? = some uop) (later : uop.uop.microOp.microOpTypeOffset ≠ 0) :
    (current.modify i setSquashed).filter alive ≠ [] := by
  rw [← intact.microOps, head?_map, Option.map_map, head?_eq_getElem?] at starts
  obtain ⟨front, there, zero⟩ := map_eq_some_iff.mp starts
  have away : i ≠ 0 := by
    rintro rfl
    rw [some.inj (there.symm.trans here)] at zero
    exact later zero
  have left : (current.modify i setSquashed)[0]? = some front := by
    rw [getElem?_modify, there]
    simp [away]
  exact ne_nil_of_mem (mem_filter.mpr ⟨mem_of_getElem? left, intact.heads 0 front there zero⟩)

lemma Intact.squash (starts : uops.head?.map microOpTypeOffset = some 0)
    (here : current[i]? = some uop) (later : uop.uop.microOp.microOpTypeOffset ≠ 0) :
    Intact uops (squash i current) := by
  have fewer : ((current.modify i setSquashed).filter CurrentUop.alive).Sublist
      (current.filter CurrentUop.alive) := filter_modify_sublist alive_setSquashed _ i
  have some := filter_modify_ne_nil intact starts here later
  refine ⟨?_, ?_, ?_, ?_⟩
  · rw [map_squash places_setFirst places_setLast, map_modify places_setSquashed]
    exact intact.places
  · intro j other there zero
    have image : ((Squashing.squash i current).map
        fun uop => (uop.uop.microOp.microOpTypeOffset, uop.alive))[j]? =
          Option.some (other.uop.microOp.microOpTypeOffset, other.alive) := by
      simp [there]
    rw [map_squash (fun _ => rfl) (fun _ => rfl), getElem?_map, getElem?_modify] at image
    obtain ⟨before, changed, same⟩ := map_eq_some_iff.mp image
    obtain ⟨offset, alive⟩ := Prod.mk.inj same
    obtain ⟨old, stands, rfl⟩ := map_eq_some_iff.mp changed
    by_cases equal : i = j
    · rw [if_pos equal] at offset
      cases (equal ▸ stands).symm.trans here
      exact absurd (offset.trans zero) later
    · rw [if_neg equal] at offset alive
      exact alive.symm.trans (intact.heads j old stands (offset.trans zero))
  · rw [filter_squash]
    refine (intact.first.mark (f := setFirst) (fewer.map _) some fun _ => rfl).congr ?_
    rw [map_reverse, map_modifyHead first_setLast, map_reverse, reverse_reverse]
  · rw [filter_squash, reverse_reverse]
    refine intact.last.mark ?_ (by simpa using some) fun _ => rfl
    rw [map_reverse, map_modifyHead last_setFirst, map_reverse]
    exact (fewer.map _).reverse

lemma Intact.congr (places : current'.map CurrentUop.places = current.map CurrentUop.places)
    (heads : current'.map (fun uop => (uop.uop.microOp.microOpTypeOffset, uop.alive)) =
      current.map fun uop => (uop.uop.microOp.microOpTypeOffset, uop.alive))
    (first : current'.map (fun uop => (uop.alive, uop.first)) =
      current.map fun uop => (uop.alive, uop.first))
    (last : current'.map (fun uop => (uop.alive, uop.last)) =
      current.map fun uop => (uop.alive, uop.last)) : Intact uops current' where
  places := places.trans intact.places
  heads i uop here zero := by
    have image := congrArg (fun views => views[i]?) heads
    simp only [getElem?_map, here, map_some] at image
    obtain ⟨before, there, same⟩ := map_eq_some_iff.mp image.symm
    obtain ⟨offset, alive⟩ := Prod.mk.inj same
    exact alive.symm.trans (intact.heads i before there (offset.trans zero))
  first := intact.first.congr (map_filter_congr first)
  last := by
    refine intact.last.congr ?_
    rw [map_reverse, map_reverse, map_filter_congr last]

lemma Intact.setAccess (i : ℕ) (info : MemoryInfo) :
    Intact uops (current.modify i (setAccess core info)) := by
  have same {β : Type} {view : CurrentUop → β}
      (keeps : ∀ uop, view (uop.setAccess core info) = view uop) := map_modify keeps current i
  exact intact.congr (same fun _ => rfl) (same fun _ => rfl) (same fun _ => rfl) (same fun _ => rfl)

end

end Intact

def Found (type : UopType) (base : Option ℕ) (length : ℕ) (uops : List MicroOp) : Prop :=
  ∀ k < length, ∃ start uop, base = some start ∧ uops[start + k]? = some uop ∧
    uop.type = type ∧ uop.microOpTypeOffset = k

section Blocks

variable {type : UopType} {dependencies : ℕ} {before block behind loads execs stores : List MicroOp}

section

variable (isBlock : IsBlock type dependencies block)

include isBlock

lemma IsBlock.type_of_mem {uop : MicroOp} (mem : uop ∈ block) : uop.type = type := by
  obtain ⟨i, here⟩ := mem_iff_getElem?.mp mem
  exact (isBlock i uop here).1

lemma found_block (none : ∀ uop ∈ before, uop.type ≠ type) :
    Found type ((before ++ block ++ behind).findIdx? fun uop => uop.type = type) block.length
      (before ++ block ++ behind) := by
  intro k inside
  have first : (before ++ block ++ behind).findIdx? (fun uop => uop.type = type) =
      some before.length := by
    cases block with
    | nil => cases inside
    | cons uop block =>
      have here := isBlock.type_of_mem mem_cons_self
      have clear : before.findIdx? (fun uop => uop.type = type) = Option.none :=
        findIdx?_eq_none_iff.mpr fun uop mem => by simp [none uop mem]
      simp [findIdx?_append, findIdx?_cons, clear, here]
  have stands : block[k]? = some block[k] := getElem?_eq_getElem inside
  refine ⟨before.length, block[k], first, ?_, (isBlock k _ stands).1, (isBlock k _ stands).2.1⟩
  rw [append_assoc, getElem?_append_right (Nat.le_add_right _ _),
    Nat.add_sub_cancel_left, getElem?_append_left inside, stands]

lemma countP_block
    (none : ∀ uop ∈ before, uop.type ≠ type) (none' : ∀ uop ∈ behind, uop.type ≠ type) :
    (before ++ block ++ behind).countP (fun uop => uop.type = type) = block.length := by
  have all : block.countP (fun uop => uop.type = type) = block.length :=
    countP_eq_length.mpr fun uop mem => by simp [isBlock.type_of_mem mem]
  have clear : before.countP (fun uop => uop.type = type) = 0 :=
    countP_eq_zero.mpr fun uop mem => by simp [none uop mem]
  have clear' : behind.countP (fun uop => uop.type = type) = 0 :=
    countP_eq_zero.mpr fun uop mem => by simp [none' uop mem]
  rw [countP_append, countP_append, all, clear, clear', Nat.zero_add, Nat.add_zero]

lemma IsBlock.starts (nonempty : block ≠ []) : block.head?.map microOpTypeOffset = some 0 := by
  cases block with
  | nil => exact absurd rfl nonempty
  | cons uop block => exact congrArg some (isBlock 0 uop rfl).2.1

end

section

variable (layout : Layout loads execs stores)

include layout

lemma Layout.starts : (loads ++ execs ++ stores).head?.map microOpTypeOffset = some 0 := by
  by_cases noLoads : loads = []
  · by_cases noExecs : execs = []
    · have nonempty := layout.nonempty
      rw [noLoads, noExecs] at nonempty ⊢
      exact layout.isStore.starts nonempty
    · rw [noLoads, nil_append, head?_append_of_ne_nil _ noExecs]
      exact layout.isExec.starts noExecs
  · rw [append_assoc, head?_append_of_ne_nil _ noLoads]
    exact layout.isLoad.starts noLoads

lemma Layout.not_store : ∀ uop ∈ loads ++ execs, uop.type ≠ .store := by
  intro uop mem
  rcases mem_append.mp mem with mem | mem
  · simp [layout.isLoad.type_of_mem mem]
  · simp [layout.isExec.type_of_mem mem]

lemma Layout.not_load : ∀ uop ∈ execs ++ stores, uop.type ≠ .load := by
  intro uop mem
  rcases mem_append.mp mem with mem | mem
  · simp [layout.isExec.type_of_mem mem]
  · simp [layout.isStore.type_of_mem mem]

lemma Layout.loadsFound :
    Found .load ((loads ++ execs ++ stores).findIdx? MicroOp.isLoad) loads.length
      (loads ++ execs ++ stores) := by
  have found : Found .load (([] ++ loads ++ (execs ++ stores)).findIdx? MicroOp.isLoad)
      loads.length ([] ++ loads ++ (execs ++ stores)) := found_block layout.isLoad (by simp)
  rwa [nil_append, ← append_assoc] at found

lemma Layout.storesFound :
    Found .store ((loads ++ execs ++ stores).findIdx? MicroOp.isStore) stores.length
      (loads ++ execs ++ stores) := by
  rw [← append_nil (loads ++ execs ++ stores)]
  exact found_block layout.isStore layout.not_store

lemma Layout.countP_isLoad : (loads ++ execs ++ stores).countP MicroOp.isLoad = loads.length := by
  have count : ([] ++ loads ++ (execs ++ stores)).countP MicroOp.isLoad = loads.length :=
    countP_block layout.isLoad (by simp) layout.not_load
  rwa [nil_append, ← append_assoc] at count

lemma Layout.countP_isStore :
    (loads ++ execs ++ stores).countP MicroOp.isStore = stores.length := by
  rw [← append_nil (loads ++ execs ++ stores)]
  exact countP_block layout.isStore layout.not_store (by simp)

end

end Blocks

section Operands

variable {uops : List MicroOp} {current : List CurrentUop} {type : UopType} {base : Option ℕ}
  {length done : ℕ} {lines : List ℕ}

lemma returns_touch (core : CoreModel) (info : MemoryInfo) (intact : Intact uops current)
    (starts : uops.head?.map microOpTypeOffset = some 0)
    (found : Found type base length uops) (inside : done < length) (counted : lines.length = done) :
    Returns (touch core type base done lines info current) fun current' => Intact uops current' ∧
      (info.cacheLine ∉ lines → (∀ uop ∈ current, uop.alive = true) →
        ∀ uop ∈ current', uop.alive = true) := by
  obtain ⟨start, uop, rfl, there, isType, offset⟩ := found done inside
  rw [← intact.microOps, getElem?_map] at there
  obtain ⟨here, stands, rfl⟩ := map_eq_some_iff.mp there
  have typed : (current[start + done]?).map CurrentUop.type = some type := by
    rw [stands]
    exact congrArg some isType
  rw [touch, if_pos typed]
  refine .ok ⟨Intact.setAccess ?_ _ _, fun fresh alive uop mem => ?_⟩
  · split
    · next again =>
      refine intact.squash starts stands ?_
      rw [offset, ← counted]
      exact (length_pos_of_mem again).ne'
    · exact intact
  · rw [if_neg fresh] at mem
    have same : (current.modify (start + done) (CurrentUop.setAccess core info)).map
        CurrentUop.alive = current.map CurrentUop.alive :=
      map_modify (CurrentUop.alive_setAccess core info) current _
    have all : ∀ flag ∈ current.map CurrentUop.alive, flag = true := forall_mem_map.mpr alive
    exact all uop.alive (same ▸ mem_map_of_mem mem)

structure Underway (uops : List MicroOp) (progress : Progress) : Prop where
  intact : Intact uops progress.uops
  read : progress.cacheLinesRead.length = progress.numReadsDone
  written : progress.cacheLinesWritten.length = progress.numWritesDone
  quiet : progress.doSquashing = false → ∀ uop ∈ progress.uops, uop.alive = true

def count (direction : Direction) (infos : List MemoryInfo) : ℕ :=
  infos.countP fun info => info.direction = direction

variable {loads execs stores : List MicroOp} {progress : Progress}

lemma returns_operand (core : CoreModel) (info : MemoryInfo) (layout : Layout loads execs stores)
    (underway : Underway (loads ++ execs ++ stores) progress)
    (reads : info.direction = .read → progress.numReadsDone < loads.length)
    (writes : info.direction = .write → progress.numWritesDone < stores.length) :
    Returns (operand core ((loads ++ execs ++ stores).findIdx? MicroOp.isLoad)
        ((loads ++ execs ++ stores).findIdx? MicroOp.isStore) progress info) fun progress' =>
      Underway (loads ++ execs ++ stores) progress' ∧
        progress'.numReadsDone = progress.numReadsDone + count .read [info] ∧
        progress'.numWritesDone = progress.numWritesDone + count .write [info] := by
  rw [operand]
  cases direction : info.direction with
  | read =>
    refine (returns_touch core info underway.intact layout.starts layout.loadsFound
      (reads direction) underway.read).map fun uops held => ?_
    refine ⟨⟨held.1, by simp [underway.read], underway.written, fun quiet => ?_⟩, ?_, ?_⟩
    · obtain ⟨before, fresh⟩ := Bool.or_eq_false_iff.mp quiet
      exact held.2 (by simpa using fresh) (underway.quiet before)
    · simp [count, direction]
    · simp [count, direction]
  | write =>
    refine (returns_touch core info underway.intact layout.starts layout.storesFound
      (writes direction) underway.written).map fun uops held => ?_
    refine ⟨⟨held.1, underway.read, by simp [underway.written], fun quiet => ?_⟩, ?_, ?_⟩
    · obtain ⟨before, fresh⟩ := Bool.or_eq_false_iff.mp quiet
      exact held.2 (by simpa using fresh) (underway.quiet before)
    · simp [count, direction]
    · simp [count, direction]

lemma returns_operands (core : CoreModel) {infos : List MemoryInfo}
    (layout : Layout loads execs stores) (underway : Underway (loads ++ execs ++ stores) progress)
    (reads : progress.numReadsDone + count .read infos = loads.length)
    (writes : progress.numWritesDone + count .write infos = stores.length) :
    Returns (operands core ((loads ++ execs ++ stores).findIdx? isLoad)
        ((loads ++ execs ++ stores).findIdx? isStore) infos progress) fun progress' =>
      Underway (loads ++ execs ++ stores) progress' ∧ progress'.numReadsDone = loads.length ∧
        progress'.numWritesDone = stores.length := by
  induction infos generalizing progress with
  | nil => exact .ok ⟨underway, reads, writes⟩
  | cons info infos ih =>
    have split : ∀ direction, count direction (info :: infos) =
        count direction [info] + count direction infos := fun direction => by
      rw [count, ← singleton_append, countP_append]
      rfl
    rw [split] at reads writes
    have one : ∀ direction, info.direction = direction → count direction [info] = 1 :=
      fun direction same => by simp [count, same]
    refine (returns_operand core info layout underway (fun same => ?_) fun same => ?_).bind
      fun progress' held => ih held.1 ?_ ?_
    · have := one .read same
      omega
    · have := one .write same
      omega
    · rw [held.2.1]
      omega
    · rw [held.2.2]
      omega

end Operands

end Sniper.Rob.Squashing
