import Sniper.Rob.Operands

/-!
# The places of the uops that are left

`doSquashing` counts along the uops. Since the first uop of each type is left, the counts give each
uop its place among those of its type, and the number of uops that it depends on. When the uops
that are left get consecutive numbers, they name the right uops of the instruction.
-/

namespace Sniper.Rob.Squashing

open Fallible Survivors List Option DynamicMicroOp

/-! ## What `doSquashing` leaves -/

def dead (current : List CurrentUop) : ℕ := current.countP (·.uop.squashed)

def left (type : UopType) (current : List CurrentUop) : ℕ :=
  current.countP fun uop => uop.alive && uop.type = type

def CurrentUop.recounted (before : List CurrentUop) (current : CurrentUop) : CurrentUop :=
  if current.uop.squashed then { current with squashedCount := dead before + 1 }
  else { current with
    uop := { current.uop with microOpTypeOffset := left current.type before }
    squashedCount := dead before }

def CurrentUop.relinked (uops : List CurrentUop) (index : ℕ) (current : CurrentUop) : CurrentUop :=
  if current.uop.squashed then current
  else
    let intraDeps := current.uop.intraInstructionDependencies
    let iBase := index - current.uop.microOp.microOpTypeOffset
    { current with uop := { current.uop with
      intraInstructionDependencies :=
        intraDeps - (squashedCountAt uops iBase - squashedCountAt uops (iBase - intraDeps)) } }

def typeRank : UopType → ℕ
  | .load => 0
  | .execute => 1
  | .store => 2

lemma typeRank_injective : Function.Injective typeRank := by
  intro type type' same
  cases type <;> cases type' <;> first | rfl | cases same

section Loops

variable {before current : List CurrentUop} {type : Option UopType} {squashedCount offset : ℕ}

/-- The variables of the first loop. The offset is right for whatever type comes next. -/
structure Counted (before : List CurrentUop) (type : Option UopType) (squashedCount offset : ℕ) :
    Prop where
  squashed : squashedCount = dead before
  offset : ∀ next : UopType, (∀ uop ∈ before, typeRank uop.type ≤ typeRank next) →
    left next before = if type = some next then offset else 0

lemma counted_start : Counted [] none 0 0 := ⟨rfl, fun _ _ => rfl⟩

section

variable (counted : Counted before type squashedCount offset)

include counted

variable {uop : CurrentUop}

open CurrentUop

lemma Counted.squash (squashed : uop.uop.squashed = true) :
    Counted (before ++ [uop]) type (squashedCount + 1) offset where
  squashed := by simp [counted.squashed, dead, squashed]
  offset next ordered := by
    have same : left next (before ++ [uop]) = left next before := by simp [left, alive, squashed]
    rw [same]
    exact counted.offset next fun uop mem => ordered uop (mem_append_left _ mem)

lemma Counted.keep (stays : uop.uop.squashed = false)
    (ordered : ∀ other ∈ before, typeRank other.type ≤ typeRank uop.type) :
    Counted (before ++ [uop]) (some uop.type) squashedCount
      ((if type = some uop.type then offset else 0) + 1) where
  squashed := by simp [counted.squashed, dead, stays]
  offset next later := by
    by_cases same : uop.type = next
    · have one : left next (before ++ [uop]) = left next before + 1 := by
        simp [left, alive, stays, same]
      rw [one, ← same, counted.offset uop.type ordered, if_pos rfl]
    · -- a later type has not come yet
      have none : left next (before ++ [uop]) = 0 := by
        refine countP_eq_zero.mpr fun other mem => ?_
        have here := later uop (by simp)
        have below : typeRank other.type ≤ typeRank uop.type := by
          rcases mem_append.mp mem with mem | mem
          · exact ordered other mem
          · rw [mem_singleton.mp mem]
        have other : other.type ≠ next := fun equal => same (typeRank_injective (by
          rw [equal] at below
          omega))
        simp [other]
      rw [none, if_neg (by simpa using same)]

lemma countSquashed_eq
    (ordered : (before ++ current).Pairwise fun a b => typeRank a.type ≤ typeRank b.type) :
    countSquashed type squashedCount offset current =
      current.mapIdx fun i uop => uop.recounted (before ++ current.take i) := by
  induction current generalizing before type squashedCount offset with
  | nil => rfl
  | cons uop current ih =>
    rw [append_cons] at ordered
    have earlier : ∀ other ∈ before, typeRank other.type ≤ typeRank uop.type := by
      intro other mem
      exact (pairwise_append.mp (pairwise_append.mp ordered).1).2.2 other mem uop mem_cons_self
    have here : uop.recounted before = uop.recounted (before ++ (uop :: current).take 0) := by simp
    have rest : ∀ i, before ++ (uop :: current).take (i + 1) =
        (before ++ [uop]) ++ current.take i := fun i => by simp
    rw [countSquashed, mapIdx_cons, ← here]
    simp only [rest]
    by_cases squashed : uop.uop.squashed = true
    · rw [if_pos squashed, ih (counted.squash squashed) ordered, recounted,
        if_pos squashed, counted.squashed]
    · have stays := eq_false_of_ne_true squashed
      rw [if_neg squashed, ih (counted.keep stays earlier) ordered, recounted,
        if_neg squashed, counted.squashed, counted.offset uop.type earlier]

end

lemma recountFrom_eq (uops : List CurrentUop) (index : ℕ) (current : List CurrentUop)
    (enough : ∀ (i : ℕ) uop, current[i]? = some uop → uop.uop.intraInstructionDependencies ≠ 0 →
        uop.uop.microOp.microOpTypeOffset + uop.uop.intraInstructionDependencies ≤ index + i) :
    recountFrom uops index current =
      .ok (current.mapIdx fun i uop => uop.relinked uops (index + i)) := by
  induction current generalizing index with
  | nil => rfl
  | cons uop current ih =>
    have here : recount uops index uop = .ok (uop.relinked uops index) := by
      rw [recount, CurrentUop.relinked]
      by_cases squashed : uop.uop.squashed = true
      · rw [if_pos (.inl squashed), if_pos squashed]
      · rw [if_neg squashed]
        by_cases none : uop.uop.intraInstructionDependencies = 0
        · have same : uop = { uop with
              uop := { uop.uop with intraInstructionDependencies := 0 } } := by rw [← none]
          rw [if_pos (.inr none)]
          simp only [none, Nat.zero_sub]
          exact congrArg Except.ok same
        · have room : ¬ index < _ := Nat.not_lt.mpr (enough 0 uop rfl none)
          rw [if_neg (not_or.mpr ⟨squashed, none⟩), if_neg room]
    have later : recountFrom uops (index + 1) current =
        .ok (current.mapIdx fun i uop => uop.relinked uops (index + 1 + i)) := by
      refine ih (index + 1) fun i uop stands some => ?_
      have room := enough (i + 1) uop stands some
      omega
    rw [recountFrom, here, mapIdx_cons]
    simp only [Except.bind, later, Except.map, Nat.add_zero]
    simp only [Nat.add_assoc, Nat.add_comm 1]

end Loops

def Decoded (type : UopType) (dependencies : ℕ) (current : List CurrentUop) : Prop :=
  ∀ (i : ℕ) uop, current[i]? = some uop → uop.type = type ∧
    uop.uop.microOp.microOpTypeOffset = i ∧ uop.uop.microOpTypeOffset = i ∧
    uop.uop.intraInstructionDependencies = dependencies

def Placed (type : UopType) (dependencies : ℕ) (current : List CurrentUop) : Prop :=
  ∀ (i : ℕ) uop, current[i]? = some uop → uop.type = type ∧
    uop.uop.microOpTypeOffset = i ∧ uop.uop.intraInstructionDependencies = dependencies

/-- The uops that are left: loads, execute uops and stores, each with its place among its type and
with the number of uops before these that it depends on. -/
structure Compact (current : List CurrentUop) : Prop where
  blocks : ∃ loads execs stores, current = loads ++ execs ++ stores ∧ Placed .load 0 loads ∧
    Placed .execute loads.length execs ∧ Placed .store execs.length stores
  first : OnlyHead CurrentUop.first current
  last : OnlyHead CurrentUop.last current.reverse

section Compact

variable {loads execs stores : List MicroOp} {type : UopType} {dependencies : ℕ}
  {current before block behind cL cE cS : List CurrentUop}

lemma Decoded.placed (decoded : Decoded type dependencies block) :
    Placed type dependencies block := by
  intro i uop here
  obtain ⟨isType, -, offset, deps⟩ := decoded i uop here
  exact ⟨isType, offset, deps⟩

variable {uop : CurrentUop}

lemma Decoded.type_of_mem (decoded : Decoded type dependencies block)
    (mem : uop ∈ block) : uop.type = type := by
  obtain ⟨i, here⟩ := mem_iff_getElem?.mp mem
  exact (decoded i uop here).1

lemma IsBlock.decoded {uops : List MicroOp} (isBlock : IsBlock type dependencies uops)
    (places : block.map CurrentUop.places =
      uops.map fun uop => (uop, uop.microOpTypeOffset, uop.intraInstructionDependencies)) :
    Decoded type dependencies block := by
  intro i uop here
  have image := congrArg (fun views => views[i]?) places
  simp only [getElem?_map, here, map_some] at image
  obtain ⟨decoded, there, same⟩ := map_eq_some_iff.mp image.symm
  simp only [CurrentUop.places, Prod.mk.injEq] at same
  obtain ⟨isType, offset, deps⟩ := isBlock i decoded there
  refine ⟨?_, ?_, ?_, ?_⟩
  · rw [CurrentUop.type, ← same.1]
    exact isType
  · rw [← same.1]
    exact offset
  · exact same.2.1.symm.trans offset
  · exact same.2.2.symm.trans deps

lemma Intact.blocks (layout : Layout loads execs stores)
    (intact : Intact (loads ++ execs ++ stores) current) : ∃ cL cE cS,
      current = cL ++ cE ++ cS ∧ Decoded .load 0 cL ∧ Decoded .execute cL.length cE ∧
        Decoded .store cE.length cS ∧ cE.length ≤ 1 := by
  have places := intact.places
  rw [map_append, map_append] at places
  obtain ⟨front, cS, rfl, fronts, ofStores⟩ := map_eq_append_iff.mp places
  obtain ⟨cL, cE, rfl, ofLoads, ofExecs⟩ := map_eq_append_iff.mp fronts
  have numLoads : cL.length = loads.length := by simpa using congrArg length ofLoads
  have numExecs : cE.length = execs.length := by simpa using congrArg length ofExecs
  refine ⟨cL, cE, cS, rfl, layout.isLoad.decoded ofLoads, ?_, ?_, ?_⟩
  · rw [numLoads]
    exact layout.isExec.decoded ofExecs
  · rw [numExecs]
    exact layout.isStore.decoded ofStores
  · rw [numExecs]
    exact layout.oneExec

lemma Intact.compact (layout : Layout loads execs stores)
    (intact : Intact (loads ++ execs ++ stores) current)
    (all : ∀ uop ∈ current, uop.alive = true) : Compact (current.filter CurrentUop.alive) := by
  obtain ⟨cL, cE, cS, rfl, decoded, decoded', decoded'', -⟩ := intact.blocks layout
  refine ⟨⟨cL, cE, cS, filter_eq_self.mpr all, decoded.placed, decoded'.placed,
    decoded''.placed⟩, intact.first, intact.last⟩

variable {i : ℕ}

lemma left_take (typed : ∀ uop ∈ block, uop.type = type) (none : ∀ uop ∈ before, uop.type ≠ type)
    (inside : i ≤ block.length) :
    left type ((before ++ block ++ behind).take (i + before.length)) =
      (block.take i).countP CurrentUop.alive := by
  have taken : (before ++ block ++ behind).take (i + before.length) = before ++ block.take i := by
    rw [append_assoc, Nat.add_comm, take_length_add_append, take_append_of_le_length inside]
  have clear : left type before = 0 := countP_eq_zero.mpr fun uop mem => by simp [none uop mem]
  have same : left type (block.take i) = (block.take i).countP CurrentUop.alive :=
    countP_congr fun uop mem => by simp [typed uop (mem_of_mem_take mem)]
  rw [taken, left, countP_append, ← left, ← left, clear, same, Nat.zero_add]

lemma squashedCountAt_counted (current : List CurrentUop) (inside : i < current.length) :
    squashedCountAt (current.mapIdx fun i uop => uop.recounted (current.take i)) i =
      dead (current.take (i + 1)) := by
  have here : current[i]? = some current[i] := getElem?_eq_getElem inside
  rw [squashedCountAt, getElem?_mapIdx, here, dead, take_succ_eq_append_getElem inside,
    countP_append, ← dead]
  simp only [map_some, elim_some, CurrentUop.recounted]
  split
  · next squashed => simp [squashed]
  · next stays => simp [stays]

def settled (current : List CurrentUop) (i : ℕ) (uop : CurrentUop) : CurrentUop :=
  (uop.recounted (current.take i)).relinked
    (current.mapIdx fun i uop => uop.recounted (current.take i)) i

lemma settled_marks (current : List CurrentUop) (i : ℕ) (uop : CurrentUop) :
    (settled current i uop).alive = uop.alive ∧ (settled current i uop).first = uop.first ∧
      (settled current i uop).last = uop.last := by
  rw [settled, CurrentUop.relinked, CurrentUop.recounted]
  cases squashed : uop.uop.squashed <;> simp [CurrentUop.alive, squashed]

lemma places_settled (alive : uop.alive = true) :
    (settled current i uop).places = (uop.uop.microOp, left uop.type (current.take i),
      uop.uop.intraInstructionDependencies -
        (squashedCountAt (current.mapIdx fun i uop => uop.recounted (current.take i))
            (i - uop.uop.microOp.microOpTypeOffset) -
          squashedCountAt (current.mapIdx fun i uop => uop.recounted (current.take i))
            (i - uop.uop.microOp.microOpTypeOffset - uop.uop.intraInstructionDependencies))) := by
  have stays : uop.uop.squashed = false := by simpa [CurrentUop.alive] using alive
  simp [settled, CurrentUop.relinked, CurrentUop.recounted, CurrentUop.places, stays]

lemma intraDependencies_recounted (uop : CurrentUop) (before : List CurrentUop) :
    (uop.recounted before).uop.intraInstructionDependencies = uop.uop.intraInstructionDependencies ∧
      (uop.recounted before).uop.microOp = uop.uop.microOp := by
  rw [CurrentUop.recounted]
  split <;> exact ⟨rfl, rfl⟩

lemma pairwise_typeRank (decoded : Decoded .load 0 cL) (decoded' : Decoded .execute cL.length cE)
    (decoded'' : Decoded .store cE.length cS) :
    (cL ++ cE ++ cS).Pairwise fun a b => typeRank a.type ≤ typeRank b.type := by
  have within {type : UopType} {dependencies : ℕ} {block : List CurrentUop}
      (decoded : Decoded type dependencies block) :
      block.Pairwise fun a b => typeRank a.type ≤ typeRank b.type :=
    pairwise_of_forall_mem_list fun a mem b mem' => by
      rw [decoded.type_of_mem mem, decoded.type_of_mem mem']
  refine pairwise_append.mpr ⟨pairwise_append.mpr
    ⟨within decoded, within decoded', fun a mem b mem' => ?_⟩, within decoded'',
      fun a mem b mem' => ?_⟩
  · rw [decoded.type_of_mem mem, decoded'.type_of_mem mem']
    decide
  · rw [decoded''.type_of_mem mem']
    cases a.type <;> decide

lemma enough_decoded (decoded : Decoded .load 0 cL) (decoded' : Decoded .execute cL.length cE)
    (decoded'' : Decoded .store cE.length cS)
    (here : (cL ++ cE ++ cS)[i]? = some uop) (some : uop.uop.intraInstructionDependencies ≠ 0) :
    uop.uop.microOp.microOpTypeOffset + uop.uop.intraInstructionDependencies ≤ i := by
  rw [getElem?_append, getElem?_append, length_append] at here
  split at here
  · split at here
    · exact absurd (decoded i uop here).2.2.2 some
    · obtain ⟨-, offset, -, deps⟩ := decoded' _ uop here
      omega
  · obtain ⟨-, offset, -, deps⟩ := decoded'' _ uop here
    omega

lemma doSquashing_eq (decoded : Decoded .load 0 cL) (decoded' : Decoded .execute cL.length cE)
    (decoded'' : Decoded .store cE.length cS) : doSquashing (cL ++ cE ++ cS) =
      .ok ((cL ++ cE ++ cS).mapIdx (settled (cL ++ cE ++ cS))) := by
  have counted : countSquashed none 0 0 (cL ++ cE ++ cS) =
      (cL ++ cE ++ cS).mapIdx fun i uop => uop.recounted ((cL ++ cE ++ cS).take i) :=
    countSquashed_eq counted_start (pairwise_typeRank decoded decoded' decoded'')
  rw [doSquashing, counted, recountFrom_eq _ 0 _ fun i uop here some => ?_, mapIdx_mapIdx]
  · congr 2
    funext i uop
    rw [Function.comp_apply, Nat.zero_add]
    rfl
  · rw [getElem?_mapIdx] at here
    obtain ⟨old, there, rfl⟩ := map_eq_some_iff.mp here
    obtain ⟨deps, microOp⟩ := intraDependencies_recounted old ((cL ++ cE ++ cS).take i)
    rw [deps] at some ⊢
    rw [microOp, Nat.zero_add]
    exact enough_decoded decoded decoded' decoded'' there some

def survivors (whole : List CurrentUop) (base : ℕ) (block : List CurrentUop) : List CurrentUop :=
  (block.mapIdx fun i => settled whole (i + base)).filter CurrentUop.alive

lemma length_survivors (whole : List CurrentUop) (base : ℕ) (block : List CurrentUop) :
    (survivors whole base block).length = (block.filter CurrentUop.alive).length := by
  have views : (survivors whole base block).map (fun _ => ()) =
      (block.filter CurrentUop.alive).mapIdx fun _ _ => () :=
    filter_mapIdx_rank (fun i uop => (settled_marks _ _ uop).1) fun _ _ _ _ => rfl
  simpa using congrArg length views

variable {whole : List CurrentUop}

lemma placed_survivors (split : whole = before ++ block ++ behind)
    (decoded : Decoded type dependencies block) (none : ∀ uop ∈ before, uop.type ≠ type) {kept : ℕ}
    (keeps : block ≠ [] → dependencies - (dead (whole.take (before.length + 1)) -
      dead (whole.take (before.length - dependencies + 1))) = kept) :
    Placed type kept (survivors whole before.length block) := by
  have views : (survivors whole before.length block).map CurrentUop.places =
      (block.filter CurrentUop.alive).mapIdx fun i uop => (uop.uop.microOp, i, kept) := by
    refine filter_mapIdx_rank (fun i uop => (settled_marks _ _ uop).1) fun i uop here alive => ?_
    obtain ⟨isType, offset, -, deps⟩ := decoded i uop here
    have inside := (List.getElem?_eq_some_iff.mp here).1
    have room : before.length < whole.length := by
      simp only [split, length_append]
      omega
    have count : left type (whole.take (i + before.length)) =
        (block.take i).countP CurrentUop.alive := by
      rw [split]
      exact left_take (fun uop mem => decoded.type_of_mem mem) none inside.le
    rw [places_settled alive, isType, offset, deps, Nat.add_sub_cancel_left, count,
      squashedCountAt_counted _ room, squashedCountAt_counted _ (by omega),
      keeps (ne_nil_of_length_pos (by omega))]
  intro i uop here
  have image := congrArg (fun views => views[i]?) views
  simp only [getElem?_map, here, map_some, getElem?_mapIdx] at image
  obtain ⟨old, there, same⟩ := map_eq_some_iff.mp image.symm
  simp only [CurrentUop.places, Prod.mk.injEq] at same
  refine ⟨?_, same.2.1.symm, same.2.2.symm⟩
  rw [CurrentUop.type, ← same.1]
  exact decoded.type_of_mem (mem_of_mem_filter (mem_of_getElem? there))

lemma dead_add_alive (current : List CurrentUop) :
    dead current + (current.filter CurrentUop.alive).length = current.length := by
  have split := length_eq_countP_add_countP (fun uop : CurrentUop => uop.uop.squashed)
    (l := current)
  rw [← countP_eq_length_filter, split, dead]
  congr 1
  exact countP_congr fun uop _ => by simp [CurrentUop.alive]

lemma dead_take_succ (split : whole = before ++ block ++ behind)
    (heads : ∀ uop ∈ whole, uop.uop.microOp.microOpTypeOffset = 0 → uop.alive = true)
    (decoded : Decoded type dependencies block) (some : block ≠ []) :
    dead (whole.take (before.length + 1)) = dead before := by
  subst split
  cases block with
  | nil => exact absurd rfl some
  | cons uop block =>
    have alive := heads uop (by simp) (decoded 0 uop rfl).2.1
    have stays : uop.uop.squashed = false := by simpa [CurrentUop.alive] using alive
    have taken : (before ++ uop :: block ++ behind).take (before.length + 1) = before ++ [uop] := by
      rw [append_assoc, take_length_add_append]
      rfl
    rw [taken, dead, countP_append, ← dead]
    simp [stays]

lemma compact_survivors (decoded : Decoded .load 0 cL) (decoded' : Decoded .execute cL.length cE)
    (decoded'' : Decoded .store cE.length cS) (oneExec : cE.length ≤ 1)
    (heads : ∀ uop ∈ cL ++ cE ++ cS, uop.uop.microOp.microOpTypeOffset = 0 → uop.alive = true) :
    ∃ loads execs stores : List CurrentUop,
      ((cL ++ cE ++ cS).mapIdx (settled (cL ++ cE ++ cS))).filter CurrentUop.alive =
        loads ++ execs ++ stores ∧ Placed .load 0 loads ∧ Placed .execute loads.length execs ∧
          Placed .store execs.length stores := by
  have split : cL ++ cE ++ cS = [] ++ cL ++ (cE ++ cS) := append_assoc ..
  have split' : cL ++ cE ++ cS = (cL ++ cE) ++ cS ++ [] := (append_nil _).symm
  have behindLoads : cE ≠ [] → dead ((cL ++ cE ++ cS).take (cL.length + 1)) = dead cL :=
    dead_take_succ rfl heads decoded'
  have noExec : dead cE = 0 := by
    refine countP_eq_zero.mpr fun uop mem => ?_
    obtain ⟨i, here⟩ := mem_iff_getElem?.mp mem
    have first : i = 0 := by
      have inside := (List.getElem?_eq_some_iff.mp here).1
      omega
    have alive := heads uop (by simp [mem]) ((decoded' i uop here).2.1.trans first)
    simpa [CurrentUop.alive] using alive
  refine ⟨survivors (cL ++ cE ++ cS) 0 cL, survivors (cL ++ cE ++ cS) cL.length cE,
    survivors (cL ++ cE ++ cS) (cL ++ cE).length cS, ?_, ?_, ?_, ?_⟩
  · rw [mapIdx_append, mapIdx_append, filter_append, filter_append]
    rfl
  · exact placed_survivors split decoded (by simp) fun _ => Nat.zero_sub _
  · refine placed_survivors rfl decoded' (fun uop mem => ?_) fun some => ?_
    · simp [decoded.type_of_mem mem]
    · have all := dead_add_alive cL
      rw [behindLoads some, length_survivors, Nat.sub_self]
      by_cases noLoads : cL = []
      · simp [noLoads]
      · have front : dead ((cL ++ cE ++ cS).take (0 + 1)) = 0 :=
          dead_take_succ split heads decoded noLoads
        omega
  · refine placed_survivors split' decoded'' (fun uop mem => ?_) fun some => ?_
    · rcases mem_append.mp mem with mem | mem
      · simp [decoded.type_of_mem mem]
      · simp [decoded'.type_of_mem mem]
    · have all := dead_add_alive cE
      have both : dead (cL ++ cE) = dead cL + dead cE := countP_append ..
      rw [dead_take_succ split' heads decoded'' some, length_survivors, length_append,
        Nat.add_sub_cancel]
      by_cases none : cE = []
      · simp [none]
      · rw [behindLoads none]
        omega

lemma Intact.compact_squashed (layout : Layout loads execs stores)
    (intact : Intact (loads ++ execs ++ stores) current) :
    Returns (doSquashing current) fun current' => Compact (current'.filter CurrentUop.alive) := by
  obtain ⟨cL, cE, cS, rfl, decoded, decoded', decoded'', oneExec⟩ := intact.blocks layout
  have heads : ∀ uop ∈ cL ++ cE ++ cS, uop.uop.microOp.microOpTypeOffset = 0 →
      uop.alive = true := by
    intro uop mem
    obtain ⟨i, here⟩ := mem_iff_getElem?.mp mem
    exact intact.heads i uop here
  have flags {view : CurrentUop → Bool} (keeps : ∀ i uop,
      view (settled (cL ++ cE ++ cS) i uop) = view uop) :
      (((cL ++ cE ++ cS).mapIdx (settled (cL ++ cE ++ cS))).filter CurrentUop.alive).map view =
        ((cL ++ cE ++ cS).filter CurrentUop.alive).map view := by
    refine map_filter_congr (ext_getElem (by simp) fun i inside _ => ?_)
    simp only [getElem_map, getElem_mapIdx, settled_marks, keeps]
  rw [doSquashing_eq decoded decoded' decoded'']
  refine .ok ⟨compact_survivors decoded decoded' decoded'' oneExec heads, ?_, ?_⟩
  · exact intact.first.congr (flags (fun i uop => (settled_marks _ i uop).2.1))
  · refine intact.last.congr ?_
    rw [map_reverse, map_reverse, flags (fun i uop => (settled_marks _ i uop).2.2)]

end Compact

/-! ## The numbers -/

def numbersOf (type : UopType) (uops : List DynamicMicroOp) : List ℕ :=
  (uops.filter fun uop => uop.microOp.type = type).map DynamicMicroOp.sequenceNumber

/-- The execute uop depends on the loads, and the stores on the execute uop. -/
structure Chained (uops : List DynamicMicroOp) : Prop where
  loads : ∀ uop ∈ uops, uop.microOp.type = .load → uop.intra = []
  execs : ∀ uop ∈ uops, uop.microOp.type = .execute → uop.intra = numbersOf .load uops
  stores : ∀ uop ∈ uops, uop.microOp.type = .store → uop.intra = numbersOf .execute uops

section Numbers

variable {type : UopType} {dependencies start : ℕ} {block current : List CurrentUop}

lemma number_append (start : ℕ) (first second : List CurrentUop) :
    number start (first ++ second) = (number start first).bind fun uops =>
      (number (start + first.length) second).map (uops ++ ·) := by
  induction first generalizing start with
  | nil => simp [number]
  | cons uop first ih =>
    rw [cons_append, number, number, ih]
    have next : start + 1 + first.length = start + (uop :: first).length := by
      simp only [length_cons]
      omega
    rw [next]
    cases uop.uop.numbered start with
    | none => rfl
    | some numbered =>
      cases number (start + 1) first with
      | none => rfl
      | some uops => cases number (start + (uop :: first).length) second <;> rfl

lemma number_from (shift : ℕ) (placed : ∀ (i : ℕ) uop, block[i]? = some uop →
      uop.type = type ∧ uop.uop.microOpTypeOffset = shift + i ∧
        uop.uop.intraInstructionDependencies = dependencies) (room : dependencies ≤ start) :
    ∃ uops, number (start + shift) block = some uops ∧
      uops.map sequenceNumber = range' (start + shift) block.length ∧
      ∀ uop ∈ uops, uop.microOp.type = type ∧
        uop.intra = range' (start - dependencies) dependencies := by
  induction block generalizing shift with
  | nil => exact ⟨[], rfl, rfl, by simp⟩
  | cons current block ih =>
    obtain ⟨isType, offset, deps⟩ := placed 0 current rfl
    obtain ⟨uops, numbers, consecutive, all⟩ := ih (shift + 1) fun i uop here => by
      obtain ⟨isType, offset, deps⟩ := placed (i + 1) uop here
      exact ⟨isType, by omega, deps⟩
    have fits : ¬ (current.uop.intraInstructionDependencies ≠ 0 ∧ start + shift <
        current.uop.microOpTypeOffset + current.uop.intraInstructionDependencies) := by omega
    have base : start + shift - current.uop.microOpTypeOffset -
        current.uop.intraInstructionDependencies = start - dependencies := by omega
    rw [number, numbered, if_neg fits, bind_some, Nat.add_assoc, numbers]
    refine ⟨_, rfl, ?_, fun uop mem => ?_⟩
    · rw [map_cons, consecutive, length_cons, range'_succ]
      rfl
    · rcases mem_cons.mp mem with rfl | mem
      · refine ⟨isType, ?_⟩
        rw [range'_eq_map_range]
        rw [deps] at base ⊢
        rw [base]
      · exact all uop mem

lemma number_block (placed : Placed type dependencies block) (room : dependencies ≤ start) :
    ∃ uops, number start block = some uops ∧ uops.map sequenceNumber = range' start block.length ∧
      ∀ uop ∈ uops, uop.microOp.type = type ∧
        uop.intra = range' (start - dependencies) dependencies :=
  number_from 0 (fun i uop here => by simpa using placed i uop here) room

lemma numbersOf_block {before uops behind : List DynamicMicroOp}
    (typed : ∀ uop ∈ uops, uop.microOp.type = type) (none : ∀ uop ∈ before, uop.microOp.type ≠ type)
    (none' : ∀ uop ∈ behind, uop.microOp.type ≠ type) :
    numbersOf type (before ++ uops ++ behind) = uops.map sequenceNumber := by
  have all : uops.filter (fun uop => uop.microOp.type = type) = uops :=
    filter_eq_self.mpr fun uop mem => by simp [typed uop mem]
  have clear : before.filter (fun uop => uop.microOp.type = type) = [] :=
    filter_eq_nil_iff.mpr fun uop mem => by simp [none uop mem]
  have clear' : behind.filter (fun uop => uop.microOp.type = type) = [] :=
    filter_eq_nil_iff.mpr fun uop mem => by simp [none' uop mem]
  rw [numbersOf, filter_append, filter_append, all, clear, clear', nil_append, append_nil]

lemma Compact.chained (compact : Compact current) (start : ℕ) :
    ∃ uops, number start current = some uops ∧ Chained uops ∧
      uops.map sequenceNumber = range' start current.length := by
  obtain ⟨loads, execs, stores, rfl, placed, placed', placed''⟩ := compact.blocks
  obtain ⟨nL, numbers, consecutive, all⟩ := number_block placed (Nat.zero_le start)
  obtain ⟨nE, numbers', consecutive', all'⟩ :=
    number_block placed' (Nat.le_add_left loads.length start)
  obtain ⟨nS, numbers'', consecutive'', all''⟩ :=
    number_block placed'' (Nat.le_add_left execs.length (start + loads.length))
  have ofLoads : numbersOf .load (nL ++ nE ++ nS) = range' start loads.length := by
    have split : nL ++ nE ++ nS = [] ++ nL ++ (nE ++ nS) := append_assoc ..
    rw [← consecutive, split]
    refine numbersOf_block (fun uop mem => (all uop mem).1) (by simp) fun uop mem => ?_
    rcases mem_append.mp mem with mem | mem
    · simp [(all' uop mem).1]
    · simp [(all'' uop mem).1]
  have ofExecs : numbersOf .execute (nL ++ nE ++ nS) =
      range' (start + loads.length) execs.length := by
    rw [← consecutive']
    refine numbersOf_block (fun uop mem => (all' uop mem).1) (fun uop mem => ?_) fun uop mem => ?_
    · simp [(all uop mem).1]
    · simp [(all'' uop mem).1]
  have together : number start (loads ++ execs ++ stores) = some (nL ++ nE ++ nS) := by
    rw [number_append, number_append, numbers, bind_some, numbers', map_some,
      bind_some, length_append, ← Nat.add_assoc, numbers'', map_some]
  refine ⟨nL ++ nE ++ nS, together, ⟨?_, ?_, ?_⟩, ?_⟩
  · intro uop mem isLoad
    simp only [mem_append] at mem
    rcases mem with (mem | mem) | mem
    · exact (all uop mem).2
    · simp [(all' uop mem).1] at isLoad
    · simp [(all'' uop mem).1] at isLoad
  · intro uop mem isExec
    simp only [mem_append] at mem
    rcases mem with (mem | mem) | mem
    · simp [(all uop mem).1] at isExec
    · rw [ofLoads, (all' uop mem).2, Nat.add_sub_cancel]
    · simp [(all'' uop mem).1] at isExec
  · intro uop mem isStore
    simp only [mem_append] at mem
    rcases mem with (mem | mem) | mem
    · simp [(all uop mem).1] at isStore
    · simp [(all' uop mem).1] at isStore
    · rw [ofExecs, (all'' uop mem).2, Nat.add_sub_cancel]
  · rw [map_append, map_append, consecutive, consecutive', consecutive'', length_append,
      length_append, range'_append_1, Nat.add_assoc start, range'_append_1]

end Numbers

/-- The uops that are left of an instruction, numbered one after the other: the execute uop depends
on exactly the loads, each store on exactly the execute uop, and one uop is marked as the first
and one as the last. -/
theorem squashing_chains (xed : Xed) (ins : XedInst) {uops : List MicroOp}
    (decoded : ins.decode xed = some uops) (core : CoreModel) (fetch : Fetch)
    (infos : List MemoryInfo) (reads : count .read infos = ins.regsLoads.length)
    (writes : count .write infos = ins.regsStores.length) (next : ℕ) :
    ∃ current numbered, handleInstruction core fetch uops infos = .ok current ∧
      number next (current.filter CurrentUop.alive) = some numbered ∧
      numbered.map DynamicMicroOp.sequenceNumber = List.range' next numbered.length ∧
      Chained numbered ∧ (current.filter CurrentUop.alive).countP CurrentUop.first = 1 ∧
      (current.filter CurrentUop.alive).countP CurrentUop.last = 1 := by
  obtain ⟨loads, execs, stores, rfl, layout, numLoads, numStores⟩ := layout_decode decoded
  let uops := loads ++ execs ++ stores
  have begins : Underway uops
      ⟨uops.mapIdx (CurrentUop.create core fetch uops.length), [], [], 0, 0, false⟩ := by
    refine ⟨intact_create layout.nonempty, rfl, rfl, fun _ uop mem => ?_⟩
    obtain ⟨i, inside, rfl⟩ := mem_mapIdx.mp mem
    rfl
  have handled : Returns (handleInstruction core fetch uops infos) fun current =>
      Compact (current.filter CurrentUop.alive) := by
    refine (returns_operands core layout begins ?_ ?_).bind fun progress held => ?_
    · rw [Nat.zero_add, reads, numLoads]
    · rw [Nat.zero_add, writes, numStores]
    obtain ⟨underway, readsDone, writesDone⟩ := held
    have squashed : Returns (if progress.doSquashing then doSquashing progress.uops
        else .ok progress.uops) fun current => Compact (current.filter CurrentUop.alive) := by
      split
      · exact underway.intact.compact_squashed layout
      · next quiet =>
        exact .ok (underway.intact.compact layout (underway.quiet (eq_false_of_ne_true quiet)))
    refine squashed.bind fun current compact => ?_
    rw [layout.countP_isLoad, layout.countP_isStore, if_pos ⟨readsDone, writesDone⟩]
    exact .ok compact
  obtain ⟨current, returned, compact⟩ := handled
  obtain ⟨numbered, numbers, chained, consecutive⟩ := compact.chained next
  have same : numbered.length = (current.filter CurrentUop.alive).length := by
    simpa using congrArg length consecutive
  refine ⟨current, numbered, returned, numbers, same ▸ consecutive, chained,
    compact.first.countP, ?_⟩
  rw [← countP_reverse]
  exact compact.last.countP

/-- Two loads of one line, then an operation on both, then a store. -/
theorem gatheredLine_chains : ∃ uops current numbered,
      XedInst.decode ⟨id, 0, 0⟩ ⟨.other, .other, false, false,
        [⟨1, 2, true, false⟩, ⟨1, 3, true, false⟩, ⟨1, 4, false, true⟩], []⟩ = some uops ∧
      handleInstruction ⟨fun _ => 1, fun _ => 0⟩ ⟨false, 0⟩ uops
        [⟨.read, 64, 4, true⟩, ⟨.read, 72, 4, true⟩, ⟨.write, 128, 1, true⟩] = .ok current ∧
      number 5 (current.filter CurrentUop.alive) = some numbered ∧ Chained numbered := by
  obtain ⟨current, numbered, returned, numbers, -, chained, -⟩ :=
    squashing_chains ⟨id, 0, 0⟩ ⟨.other, .other, false, false,
      [⟨1, 2, true, false⟩, ⟨1, 3, true, false⟩, ⟨1, 4, false, true⟩], []⟩ rfl
      ⟨fun _ => 1, fun _ => 0⟩ ⟨false, 0⟩
      [⟨.read, 64, 4, true⟩, ⟨.read, 72, 4, true⟩, ⟨.write, 128, 1, true⟩] rfl rfl 5
  exact ⟨_, current, numbered, rfl, returned, numbers, chained⟩

end Sniper.Rob.Squashing
