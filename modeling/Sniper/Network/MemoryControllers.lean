import Mathlib.Data.List.GetD
import Mathlib.Data.Nat.ModEq
import Mathlib.Order.Lattice.Nat

/-!
# The places of the memory controllers

`computeMemoryControllerPositions` lists the cores along the perimeter of the mesh, clockwise from
the first one, and places the controllers at a constant spacing along it. When the mesh is a single
column, the walk goes down the column and back up through the same cores.
-/

namespace Sniper.Network.MemoryControllers

open List Nat

/-- `core_id_list_along_perimeter`, in nodes. -/
def perimeter (dimensions width height : ℕ) : List ℕ :=
  range width ++
    if dimensions > 1 ∧ height > 1 then
      ((range (height - 2)).map fun i => (i + 1) * width + (width - 1)) ++
      ((range width).reverse.map fun i => (height - 1) * width + i) ++
      ((range (height - 2)).reverse.map fun i => (i + 1) * width)
    else []

def place (length controllers offset i : ℕ) : ℕ :=
  (i * (length / controllers) + offset) % length

/-- The controllers are `length / controllers` cores apart. -/
def positions (cores : List ℕ) (concentration controllers offset : ℕ) : List ℕ :=
  (range controllers).map fun i =>
    concentration * cores.getD (place cores.length controllers offset i) 0

/-- `none` is the assertion that there are enough cores along the perimeter. The mesh has the size
that `computeMeshDimensions` found. -/
def computeMemoryControllerPositions (dimensions width height concentration controllers : ℕ) :
    Option (List ℕ) :=
  let cores := perimeter dimensions width height
  if cores.length ≥ controllers then some (positions cores concentration controllers (width / 2))
  else none

/-- As many different cores as there are controllers, each the master of a node. -/
def WellPlaced (width height concentration controllers : ℕ) (positions : List ℕ) : Prop :=
  positions.length = controllers ∧ positions.Nodup ∧
    ∀ core ∈ positions, concentration ∣ core ∧ core < concentration * width * height

/-- On a single column, the walk down and back up has a number of spacings that some two different
controllers make up together. -/
def Meets (dimensions width height controllers : ℕ) : Prop :=
  dimensions > 1 ∧ height > 1 ∧ width = 1 ∧
    (2 * height - 2) / controllers ∣ 2 * height - 2 ∧
    (2 * height - 2) / ((2 * height - 2) / controllers) ≤ 2 * controllers - 3

section Perimeter

variable {dimensions width height : ℕ}

def cells (dimensions width height : ℕ) : List (ℕ × ℕ) :=
  ((range width).map fun i => (i, 0)) ++
    if dimensions > 1 ∧ height > 1 then
      ((range (height - 2)).map fun i => (width - 1, i + 1)) ++
      ((range width).reverse.map fun i => (i, height - 1)) ++
      ((range (height - 2)).reverse.map fun i => (0, i + 1))
    else []

lemma perimeter_eq_cells : perimeter dimensions width height =
    (cells dimensions width height).map fun cell => cell.2 * width + cell.1 := by
  rw [perimeter, cells]
  split <;> simp [Function.comp_def]

lemma mem_cells {cell : ℕ × ℕ} (positive : 0 < width) (tall : 0 < height)
    (mem : cell ∈ cells dimensions width height) : cell.1 < width ∧ cell.2 < height := by
  rw [cells] at mem
  split at mem
  · simp only [mem_append, mem_map, mem_range, mem_reverse] at mem
    obtain ⟨i, _, rfl⟩ | (⟨i, _, rfl⟩ | ⟨i, _, rfl⟩) | ⟨i, _, rfl⟩ := mem
    all_goals exact ⟨by omega, by omega⟩
  · simp only [mem_append, mem_map, mem_range, not_mem_nil, or_false] at mem
    obtain ⟨i, _, rfl⟩ := mem
    exact ⟨by omega, by omega⟩

lemma perimeter_lt {core : ℕ} (positive : 0 < width) (tall : 0 < height)
    (mem : core ∈ perimeter dimensions width height) : core < width * height := by
  rw [perimeter_eq_cells] at mem
  obtain ⟨cell, there, rfl⟩ := mem_map.mp mem
  obtain ⟨column, row⟩ := mem_cells positive tall there
  calc cell.2 * width + cell.1 < cell.2 * width + width := Nat.add_lt_add_left column _
    _ = (cell.2 + 1) * width := (succ_mul _ _).symm
    _ ≤ height * width := mul_le_mul_right _ row
    _ = width * height := mul_comm _ _

lemma cells_nodup (wide : width ≠ 1 ∨ ¬ (dimensions > 1 ∧ height > 1)) (positive : 0 < width) :
    (cells dimensions width height).Nodup := by
  have row : ∀ y : ℕ, ((range width).map fun i => (i, y)).Nodup := fun y =>
    nodup_range.map fun i j same => (Prod.mk.inj same).1
  have column : ∀ x : ℕ, ((range (height - 2)).map fun i => (x, i + 1)).Nodup := fun x =>
    nodup_range.map fun i j same => succ.inj (Prod.mk.inj same).2
  rw [cells]
  split
  · next deep =>
    have broad := wide.resolve_right (not_not.mpr deep)
    simp only [map_reverse]
    refine (row 0).append (((column _).append (nodup_reverse.mpr (row _)) ?_).append
      (nodup_reverse.mpr (column 0)) ?_) ?_
    all_goals
      rw [disjoint_left]
      intro cell here there
      simp only [mem_append, mem_reverse, mem_map, mem_range, Prod.ext_iff] at here there
    · obtain ⟨i, _, _⟩ := here
      obtain ⟨j, _, _⟩ := there
      omega
    · obtain ⟨j, _, _⟩ := there
      obtain ⟨i, _, _⟩ | ⟨i, _, _⟩ := here
      all_goals omega
    · obtain ⟨i, _, _⟩ := here
      obtain (⟨j, _, _⟩ | ⟨j, _, _⟩) | ⟨j, _, _⟩ := there
      all_goals omega
  · rw [append_nil]
    exact row 0

lemma perimeter_nodup (wide : width ≠ 1 ∨ ¬ (dimensions > 1 ∧ height > 1)) (positive : 0 < width)
    (tall : 0 < height) : (perimeter dimensions width height).Nodup := by
  rw [perimeter_eq_cells]
  refine (cells_nodup wide positive).map_on fun a here b there same => ?_
  have columns := (mem_cells positive tall here).1
  have columns' := (mem_cells positive tall there).1
  have first : a.1 = b.1 := by
    have mods := congrArg (· % width) same
    simpa [mod_eq_of_lt columns, mod_eq_of_lt columns'] using mods
  have rows : a.2 * width = b.2 * width := by omega
  exact Prod.ext first (eq_of_mul_eq_mul_right positive rows)

lemma length_perimeter (deep : dimensions > 1 ∧ height > 1) :
    (perimeter dimensions width height).length = 2 * (width + height - 2) := by
  rw [perimeter, if_pos deep]
  simp
  omega

def downAndUp (length : ℕ) : List ℕ := (range length).map fun j => min j (length - j)

lemma perimeter_column (deep : dimensions > 1 ∧ height > 1) :
    perimeter dimensions 1 height = downAndUp (2 * height - 2) := by
  rw [perimeter, if_pos deep, downAndUp]
  refine ext_getElem (by simp; omega) fun j inside _ => ?_
  simp only [length_append, length_map, length_range, length_reverse] at inside
  simp only [getElem_append, getElem_map, getElem_reverse, getElem_range,
    length_append, length_map, length_range, length_reverse]
  split_ifs <;> omega

end Perimeter

section Positions

variable {length controllers offset : ℕ}

lemma around (enough : controllers ≤ length) {i : ℕ} (less : i < controllers) :
    i * (length / controllers) < length := by
  have spacing : 0 < length / controllers := div_pos enough (zero_lt_of_lt less)
  exact (Nat.mul_lt_mul_of_pos_right less spacing).trans_le (mul_div_le _ _)

lemma place_injective (enough : controllers ≤ length) {i j : ℕ} (first : i < controllers)
    (second : j < controllers)
    (same : place length controllers offset i = place length controllers offset j) : i = j := by
  have spacing : 0 < length / controllers := div_pos enough (zero_lt_of_lt first)
  have steps : i * (length / controllers) ≡ j * (length / controllers) [MOD length] :=
    Nat.ModEq.add_right_cancel' offset same
  exact eq_of_mul_eq_mul_right spacing
    (Nat.ModEq.eq_of_lt_of_lt steps (around enough first) (around enough second))

lemma place_column (enough : controllers ≤ length) {i : ℕ} (less : i < controllers) :
    place length controllers 0 i = i * (length / controllers) :=
  mod_eq_of_lt (around enough less)

lemma nodup_iff {concentration : ℕ} (positive : 0 < concentration) (cores : List ℕ) :
    (positions cores concentration controllers offset).Nodup ↔ ∀ i < controllers, ∀ j < controllers,
      cores.getD (place cores.length controllers offset i) 0 =
        cores.getD (place cores.length controllers offset j) 0 → i = j := by
  rw [positions, nodup_map_iff_inj_on nodup_range]
  simp only [mem_range, Nat.mul_left_cancel_iff positive]

lemma apart_of_nodup {cores : List ℕ} (once : cores.Nodup) (enough : controllers ≤ cores.length)
    {i j : ℕ} (first : i < controllers) (second : j < controllers)
    (same : cores.getD (place cores.length controllers offset i) 0 =
      cores.getD (place cores.length controllers offset j) 0) : i = j := by
  have inside : ∀ k, place cores.length controllers offset k < cores.length := fun k =>
    mod_lt _ (by omega)
  rw [getD_eq_getElem _ _ (inside i), getD_eq_getElem _ _ (inside j)] at same
  exact place_injective enough first second ((once.getElem_inj_iff).mp same)

lemma getD_column {k : ℕ} (inside : k < length) :
    (downAndUp length).getD k 0 = min k (length - k) := by
  rw [downAndUp, getD_eq_getElem _ _ (by simpa using inside)]
  simp

lemma apart_column_iff (some' : 0 < controllers) (enough : controllers ≤ length) :
    (∀ i < controllers, ∀ j < controllers,
        (downAndUp length).getD (place length controllers 0 i) 0 =
          (downAndUp length).getD (place length controllers 0 j) 0 → i = j) ↔
      ¬ (length / controllers ∣ length ∧
        length / (length / controllers) ≤ 2 * controllers - 3) := by
  have spacing : 0 < length / controllers := div_pos enough some'
  have same : ∀ i < controllers, ∀ j < controllers,
      (downAndUp length).getD (place length controllers 0 i) 0 =
          (downAndUp length).getD (place length controllers 0 j) 0 ↔
        i = j ∨ (i + j) * (length / controllers) = length := by
    intro i first j second
    have below := around enough first
    have below' := around enough second
    have cancel : i = j ↔ i * (length / controllers) = j * (length / controllers) :=
      (Nat.mul_left_inj spacing.ne').symm
    rw [place_column enough first, place_column enough second, getD_column below,
      getD_column below', cancel, add_mul]
    omega
  constructor
  · rintro apart ⟨⟨total, whole⟩, few⟩
    rw [Nat.div_eq_of_eq_mul_right spacing whole] at few
    have many : controllers ≤ total := by
      refine Nat.le_of_mul_le_mul_right ?_ spacing
      rw [Nat.mul_comm total, ← whole]
      exact mul_div_le length controllers
    -- The last controller meets the one that makes up the walk with it.
    have meets := apart (total - (controllers - 1)) (by omega) (controllers - 1) (by omega)
      ((same _ (by omega) _ (by omega)).mpr (.inr ?_))
    · omega
    · rw [show total - (controllers - 1) + (controllers - 1) = total by omega, mul_comm]
      exact whole.symm
  · intro separate i first j second equal
    by_contra different
    have whole := ((same i first j second).mp equal).resolve_left different
    refine separate ⟨⟨i + j, by rw [mul_comm]; exact whole.symm⟩, ?_⟩
    rw [Nat.div_eq_of_eq_mul_left spacing whole.symm]
    omega

end Positions

/-- The controllers are well placed unless the mesh is a column on which two of them meet. -/
theorem wellPlaced_iff {dimensions width height concentration controllers : ℕ}
    (wide : 0 < width) (tall : 0 < height) (positive : 0 < concentration) (some' : 0 < controllers)
    (enough : controllers ≤ (perimeter dimensions width height).length) :
    (∃ positions,
      computeMemoryControllerPositions dimensions width height concentration controllers =
        some positions ∧ WellPlaced width height concentration controllers positions) ↔
      ¬ Meets dimensions width height controllers := by
  have masters : ∀ core ∈ positions (perimeter dimensions width height) concentration controllers
      (width / 2), concentration ∣ core ∧ core < concentration * width * height := by
    intro core mem
    obtain ⟨i, -, rfl⟩ := mem_map.mp mem
    refine ⟨dvd_mul_right _ _, ?_⟩
    have inside := mod_lt (i * ((perimeter dimensions width height).length / controllers) +
      width / 2) (some'.trans_le enough)
    rw [mul_assoc, place, getD_eq_getElem _ _ inside]
    exact Nat.mul_lt_mul_of_pos_left (perimeter_lt wide tall (getElem_mem inside)) positive
  have placed : (∃ positions, computeMemoryControllerPositions dimensions width height
      concentration controllers = some positions ∧
        WellPlaced width height concentration controllers positions) ↔
      (positions (perimeter dimensions width height) concentration controllers
        (width / 2)).Nodup := by
    rw [computeMemoryControllerPositions, if_pos enough]
    constructor
    · rintro ⟨positions, found, -, once, -⟩
      rwa [Option.some.inj found]
    · exact fun once => ⟨_, rfl, by simp [positions], once, masters⟩
  rw [placed, nodup_iff positive]
  by_cases column : width = 1 ∧ dimensions > 1 ∧ height > 1
  · obtain ⟨rfl, deep⟩ := column
    have walk := perimeter_column deep
    have length : (perimeter dimensions 1 height).length = 2 * height - 2 := by
      rw [length_perimeter deep]
      omega
    rw [length] at enough ⊢
    rw [walk, apart_column_iff some' enough, Meets]
    simp [deep]
  · have once : (perimeter dimensions width height).Nodup :=
      perimeter_nodup (by omega) wide tall
    refine iff_of_true (fun i first j second => apart_of_nodup once enough first second) ?_
    exact fun meets => column ⟨meets.2.2.1, meets.1, meets.2.1⟩

theorem fourByTwo_wellPlaced :
    4 ≤ (perimeter 2 4 2).length ∧ ∃ positions,
      computeMemoryControllerPositions 2 4 2 2 4 = some positions ∧
        WellPlaced 4 2 2 4 positions :=
  ⟨by decide, (wellPlaced_iff (by decide) (by decide) (by decide) (by decide) (by decide)).mpr
    fun meets => absurd meets.2.2.1 (by decide)⟩

/-- On a column of four nodes, two of three controllers are placed at the same one. -/
theorem column_meets :
    computeMemoryControllerPositions 2 1 4 1 3 = some [0, 2, 2] ∧ ¬ WellPlaced 1 4 1 3 [0, 2, 2] :=
  ⟨by decide, fun placed => absurd placed.2.1 (by decide)⟩

end Sniper.Network.MemoryControllers
