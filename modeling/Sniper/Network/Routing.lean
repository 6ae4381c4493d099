import Sniper.Lib.Cyclic

/-!
# Routes through the mesh

`NetworkModelEMeshHopByHop` sends a packet through a mesh of nodes, one hop at a time. A node
holds as many cores as the concentration says, and the first of them is its master. The mesh may
have links that wrap around its borders. Every node on the way computes the next hop from its
own position and the receiver's, first along the row and then along the column.

`getNextDest` decides the direction anew at every node, while `computeDistance` is a closed formula.
The route is as short unless the mesh wraps around and a row or column of odd size is crossed by
just over half: there `getNextDest` stays on the direct way, which is one link longer than the one
around the border.
-/

namespace Sniper.Network

open Int

abbrev CoreId := ℤ

inductive OutputDirection where
  | up
  | down
  | left
  | right
  | self
  | peer
  | destination
  deriving DecidableEq, Repr

def OutputDirection.isLink : OutputDirection → Bool
  | up | down | left | right => true
  | self | peer | destination => false

structure Position where
  x : ℤ
  y : ℤ
  deriving DecidableEq, Repr

structure Hop where
  nextDest : CoreId
  direction : OutputDirection
  deriving DecidableEq, Repr

structure Mesh where
  width : ℤ
  height : ℤ
  concentration : ℤ
  wrapAround : Bool
  width_pos : 0 < width
  height_pos : 0 < height
  concentration_pos : 0 < concentration

namespace Mesh

variable (mesh : Mesh)

/-- `computeMeshDimensions` allows no other number. -/
def applicationCores : ℤ := mesh.concentration * mesh.height * mesh.width

/-- `m_fake_node`: the core is not the master of a node. -/
def fakeNode (core : CoreId) : Bool :=
  decide (core.tmod mesh.concentration ≠ 0) ||
    decide (core ≥ mesh.concentration * mesh.width * mesh.height)

def computePosition (core : CoreId) : Position where
  x := (core.tdiv mesh.concentration).tmod mesh.width
  y := (core.tdiv mesh.concentration).tdiv mesh.width

def computeCoreId (x y : ℤ) : CoreId :=
  ((y + mesh.height).tmod mesh.height * mesh.width + (x + mesh.width).tmod mesh.width) *
    mesh.concentration

def computeDistance (sender receiver : CoreId) : ℤ :=
  let s := mesh.computePosition sender
  let d := mesh.computePosition receiver
  if mesh.wrapAround = true then
    min |s.x - d.x| (mesh.width - |s.x - d.x|) + min |s.y - d.y| (mesh.height - |s.y - d.y|)
  else |s.x - d.x| + |s.y - d.y|

/-- The test of `getNextDest` for a way along a row or column of that size, from one place to
another: whether the way goes to lower places. -/
def goesDown (size source dest : ℤ) : Bool :=
  decide (source > dest) ^^ (mesh.wrapAround && decide (|source - dest| > (size + 1).tdiv 2))

def getNextDest (core finalDest : CoreId) : Hop :=
  if finalDest ≥ mesh.applicationCores then ⟨finalDest, .destination⟩
  else if core.tdiv mesh.concentration = finalDest.tdiv mesh.concentration then
    ⟨finalDest, .destination⟩
  else if mesh.fakeNode core = true then ⟨core - core.tmod mesh.concentration, .peer⟩
  else
    let s := mesh.computePosition core
    let d := mesh.computePosition finalDest
    if mesh.goesDown mesh.width s.x d.x = true then ⟨mesh.computeCoreId (s.x - 1) s.y, .left⟩
    else if s.x ≠ d.x then ⟨mesh.computeCoreId (s.x + 1) s.y, .right⟩
    else if mesh.goesDown mesh.height s.y d.y = true then
      ⟨mesh.computeCoreId s.x (s.y - 1), .down⟩
    else if s.y ≠ d.y then ⟨mesh.computeCoreId s.x (s.y + 1), .up⟩
    else ⟨core, .self⟩

/-- `routePacket`, for a packet with one receiver. -/
def routePacket (core receiver : CoreId) : Hop :=
  if mesh.fakeNode core = true then ⟨receiver, .destination⟩ else mesh.getNextDest core receiver

/-- `Network::netSend`: the packet is routed anew at every core it comes to. -/
def netSend (receiver : CoreId) : ℕ → CoreId → Option (List Hop)
  | 0, _ => none
  | fuel + 1, core =>
    let hop := mesh.routePacket core receiver
    if hop.nextDest = receiver then some [hop]
    else (netSend receiver fuel hop.nextDest).map (hop :: ·)

end Mesh

def linkHops (route : List Hop) : ℕ := route.countP fun hop => hop.direction.isLink

open Links Int

namespace Mesh

variable (mesh : Mesh)

structure Master (core : CoreId) : Prop where
  nonneg : 0 ≤ core
  application : core < mesh.applicationCores
  first : core.tmod mesh.concentration = 0

@[ext] structure Node where
  x : ℤ
  y : ℤ
  column : OnLane mesh.width x
  row : OnLane mesh.height y

variable {mesh}

def Node.core (node : mesh.Node) : CoreId := mesh.computeCoreId node.x node.y

/-! ## Nodes and cores -/

section Nodes

lemma tmod_onLane {n a : ℤ} (on : OnLane n a) : (a + n).tmod n = a := by
  obtain ⟨nonneg, less⟩ := on
  rw [tmod_eq_emod_of_nonneg (by omega), add_emod_right, emod_eq_of_lt nonneg less]

variable (node : mesh.Node)

lemma core_eq : node.core = (node.y * mesh.width + node.x) * mesh.concentration := by
  rw [Node.core, computeCoreId, tmod_onLane node.row, tmod_onLane node.column]

lemma core_tdiv : node.core.tdiv mesh.concentration = node.y * mesh.width + node.x := by
  rw [core_eq, mul_tdiv_cancel _ mesh.concentration_pos.ne']

lemma number_nonneg : 0 ≤ node.y * mesh.width + node.x :=
  Int.add_nonneg (Int.mul_nonneg node.row.1 mesh.width_pos.le) node.column.1

lemma computePosition_core : mesh.computePosition node.core = ⟨node.x, node.y⟩ := by
  have nonneg := number_nonneg node
  rw [computePosition, core_tdiv, tmod_eq_emod_of_nonneg nonneg,
    tdiv_eq_ediv_of_nonneg nonneg, add_comm, add_mul_emod_self_right,
    add_mul_ediv_right _ _ mesh.width_pos.ne', emod_eq_of_lt node.column.1 node.column.2,
    ediv_eq_zero_of_lt node.column.1 node.column.2, zero_add]

lemma core_injective {node other : mesh.Node} (same : node.core = other.core) : node = other := by
  have positions := computePosition_core node
  rw [same, computePosition_core] at positions
  rw [Position.mk.injEq] at positions
  exact Node.ext positions.1.symm positions.2.symm

lemma number_lt : node.y * mesh.width + node.x < mesh.height * mesh.width :=
  calc
    node.y * mesh.width + node.x < node.y * mesh.width + mesh.width :=
      Int.add_lt_add_left node.column.2 _
    _ = (node.y + 1) * mesh.width := by rw [add_mul, one_mul]
    _ ≤ mesh.height * mesh.width := Int.mul_le_mul_of_nonneg_right node.row.2 mesh.width_pos.le

lemma core_lt : node.core < mesh.applicationCores := by
  rw [core_eq, applicationCores, mul_assoc, mul_comm]
  exact Int.mul_lt_mul_of_pos_left (number_lt node) mesh.concentration_pos

lemma master_core : mesh.Master node.core where
  nonneg := by
    rw [core_eq]
    exact Int.mul_nonneg (number_nonneg node) mesh.concentration_pos.le
  application := core_lt node
  first := by
    rw [core_eq]
    exact mul_tmod_left _ _

lemma fakeNode_core : mesh.fakeNode node.core = false := by
  have inside := core_lt node
  rw [applicationCores, mul_right_comm] at inside
  simp [fakeNode, (master_core node).first, inside]

lemma Master.exists_node {core : CoreId} (master : mesh.Master core) :
    ∃ node : mesh.Node, node.core = core := by
  obtain ⟨nonneg, application, first⟩ := master
  have number : core = core / mesh.concentration * mesh.concentration := by
    rw [tmod_eq_emod_of_nonneg nonneg] at first
    exact (ediv_mul_cancel_of_emod_eq_zero first).symm
  have less : core / mesh.concentration < mesh.height * mesh.width := by
    rw [applicationCores, mul_assoc, mul_comm] at application
    exact Int.ediv_lt_of_lt_mul mesh.concentration_pos application
  have positive : 0 ≤ core / mesh.concentration := ediv_nonneg nonneg mesh.concentration_pos.le
  refine ⟨⟨core / mesh.concentration % mesh.width, core / mesh.concentration / mesh.width,
    ⟨emod_nonneg _ mesh.width_pos.ne', emod_lt_of_pos _ mesh.width_pos⟩,
    ⟨ediv_nonneg positive mesh.width_pos.le, Int.ediv_lt_of_lt_mul mesh.width_pos less⟩⟩, ?_⟩
  rw [core_eq, mul_comm _ mesh.width, mul_ediv_add_emod, ← number]

end Nodes

/-! ## Along a row or column -/

section Lanes

variable (mesh)

def GoesAround (size source dest : ℤ) : Prop :=
  mesh.wrapAround = true ∧ |source - dest| > (size + 1) / 2

instance (size source dest : ℤ) : Decidable (mesh.GoesAround size source dest) :=
  inferInstanceAs (Decidable (_ ∧ _))

def laneHops (size source dest : ℤ) : ℤ :=
  if mesh.GoesAround size source dest then size - |source - dest| else |source - dest|

structure Closer (size source dest next : ℤ) : Prop where
  on : OnLane size next
  linked : LaneLink mesh.wrapAround size source next
  hops : mesh.laneHops size next dest + 1 = mesh.laneHops size source dest

variable {mesh} {size source dest : ℤ}

lemma tmod_below (on : OnLane size source) :
    0 < source ∧ (source - 1 + size).tmod size = source - 1 ∨
      source = 0 ∧ (source - 1 + size).tmod size = size - 1 := by
  obtain ⟨nonneg, less⟩ := on
  by_cases first : source = 0
  · refine .inr ⟨first, ?_⟩
    rw [tmod_eq_of_lt (by omega) (by omega)]
    omega
  · exact .inl ⟨by omega, tmod_onLane ⟨by omega, by omega⟩⟩

lemma tmod_above (on : OnLane size source) :
    source < size - 1 ∧ (source + 1 + size).tmod size = source + 1 ∨
      source = size - 1 ∧ (source + 1 + size).tmod size = 0 := by
  obtain ⟨nonneg, less⟩ := on
  by_cases last : source = size - 1
  · refine .inr ⟨last, ?_⟩
    rw [last, sub_add_cancel, tmod_eq_emod_of_nonneg (by omega), add_emod_right, emod_self]
  · exact .inl ⟨by omega, tmod_onLane ⟨by omega, by omega⟩⟩

lemma goesDown_iff (source_on : OnLane size source) : mesh.goesDown size source dest = true ↔
    mesh.GoesAround size source dest ∧ source ≤ dest ∨
      ¬ mesh.GoesAround size source dest ∧ dest < source := by
  obtain ⟨_, _⟩ := source_on
  rw [goesDown, GoesAround, tdiv_eq_ediv_of_nonneg (by omega)]
  cases mesh.wrapAround with
  | false => simp
  | true =>
    by_cases above : dest < source
    · simp [above, not_le.mpr above]
    · simp [above, not_lt.mp above]

lemma goesAround_of_wraps (wraps : mesh.wrapAround = true) :
    mesh.GoesAround size source dest ↔ ((source - dest).natAbs : ℤ) > (size + 1) / 2 := by
  rw [GoesAround, abs_eq_natAbs, and_iff_right wraps]

lemma laneHops_of_wraps (wraps : mesh.wrapAround = true) : mesh.laneHops size source dest =
      if ((source - dest).natAbs : ℤ) > (size + 1) / 2 then size - (source - dest).natAbs
      else (source - dest).natAbs := by
  simp only [laneHops, goesAround_of_wraps wraps, abs_eq_natAbs]

lemma closer_of_moves {next : ℤ} (source_on : OnLane size source) (dest_on : OnLane size dest)
    (moves : (mesh.GoesAround size source dest ∧ source ≤ dest ∨
        ¬ mesh.GoesAround size source dest ∧ dest < source) ∧
        (0 < source ∧ next = source - 1 ∨ source = 0 ∧ next = size - 1) ∨
      (mesh.GoesAround size source dest ∧ dest < source ∨
        ¬ mesh.GoesAround size source dest ∧ source < dest) ∧
        (source < size - 1 ∧ next = source + 1 ∨ source = size - 1 ∧ next = 0)) :
    mesh.Closer size source dest next := by
  obtain ⟨_, _⟩ := source_on
  obtain ⟨_, _⟩ := dest_on
  cases wraps : mesh.wrapAround with
  | false =>
    simp only [GoesAround, wraps, Bool.false_eq_true, false_and, false_or, not_false_iff,
      true_and] at moves
    constructor
    · exact ⟨by omega, by omega⟩
    · rw [LaneLink, abs_eq_natAbs]
      omega
    · simp only [laneHops, GoesAround, wraps, Bool.false_eq_true, false_and, if_false,
        abs_eq_natAbs]
      omega
  | true =>
    simp only [goesAround_of_wraps wraps] at moves
    constructor
    · exact ⟨by omega, by omega⟩
    · rw [LaneLink, abs_eq_natAbs, and_iff_right wraps]
      omega
    · rw [laneHops_of_wraps wraps, laneHops_of_wraps wraps]
      obtain ⟨way, place⟩ | ⟨way, place⟩ := moves
      · omega
      · omega

lemma closer_down (source_on : OnLane size source) (dest_on : OnLane size dest)
    (down : mesh.goesDown size source dest = true) :
    mesh.Closer size source dest ((source - 1 + size).tmod size) :=
  closer_of_moves source_on dest_on (.inl ⟨(goesDown_iff source_on).mp down, tmod_below source_on⟩)

lemma closer_up (source_on : OnLane size source) (dest_on : OnLane size dest)
    (up : ¬ mesh.goesDown size source dest = true) (different : source ≠ dest) :
    mesh.Closer size source dest ((source + 1 + size).tmod size) := by
  refine closer_of_moves source_on dest_on (.inr ⟨?_, tmod_above source_on⟩)
  rw [goesDown_iff source_on] at up
  by_cases around : mesh.GoesAround size source dest
  · exact .inl ⟨around, not_le.mp fun below => up (.inl ⟨around, below⟩)⟩
  · refine .inr ⟨around, lt_of_le_of_ne (not_lt.mp fun above => up (.inr ⟨around, above⟩)) ?_⟩
    exact different

lemma laneHops_self (on : OnLane size source) : mesh.laneHops size source source = 0 := by
  obtain ⟨_, _⟩ := on
  have near : ¬ mesh.GoesAround size source source := by
    rw [GoesAround, sub_self, abs_zero]
    omega
  rw [laneHops, if_neg near, sub_self, abs_zero]

lemma laneHops_nonneg (source_on : OnLane size source) (dest_on : OnLane size dest) :
    0 ≤ mesh.laneHops size source dest := by
  obtain ⟨_, _⟩ := source_on
  obtain ⟨_, _⟩ := dest_on
  rw [laneHops, abs_eq_natAbs]
  split <;> omega

lemma laneHops_lt (source_on : OnLane size source) (dest_on : OnLane size dest) :
    mesh.laneHops size source dest < size := by
  obtain ⟨_, _⟩ := source_on
  obtain ⟨_, _⟩ := dest_on
  by_cases around : mesh.GoesAround size source dest
  · rw [laneHops, if_pos around]
    have := around.2
    omega
  · rw [laneHops, if_neg around, abs_eq_natAbs]
    omega

variable (mesh) in
lemma laneHops_le (source_on : OnLane size source) (dest_on : OnLane size dest) :
    mesh.laneHops size source dest ≤ laneDist mesh.wrapAround size source dest + 1 := by
  obtain ⟨_, _⟩ := source_on
  obtain ⟨_, _⟩ := dest_on
  cases wraps : mesh.wrapAround with
  | false => simp [laneHops, GoesAround, laneDist, wraps]
  | true =>
    rw [laneHops_of_wraps wraps, laneDist, if_pos rfl, abs_eq_natAbs]
    split <;> omega

variable (mesh) in
lemma laneHops_eq_iff (source_on : OnLane size source) (dest_on : OnLane size dest) :
    laneDist mesh.wrapAround size source dest ≤ mesh.laneHops size source dest ∧
    (mesh.laneHops size source dest = laneDist mesh.wrapAround size source dest ↔
      (mesh.wrapAround = true → 2 * |source - dest| ≠ size + 1)) := by
  obtain ⟨_, _⟩ := source_on
  obtain ⟨_, _⟩ := dest_on
  cases wraps : mesh.wrapAround with
  | false => simp [laneHops, laneDist, GoesAround, wraps]
  | true =>
    simp only [laneHops, laneDist, GoesAround, wraps, abs_eq_natAbs, true_and, if_true,
      forall_const]
    omega

end Lanes

/-! ## Through the mesh -/

section Routes

variable (mesh)

def Linked (node other : mesh.Node) : Prop :=
  LaneLink mesh.wrapAround mesh.width node.x other.x ∧ node.y = other.y ∨
    node.x = other.x ∧ LaneLink mesh.wrapAround mesh.height node.y other.y

/-- The hops of the route lead from the one node to the other: each goes to a node, by a link of the
mesh, or, where its direction is none, stays where it is. -/
def Follows : List Hop → mesh.Node → mesh.Node → Prop
  | [], node, dest => node = dest
  | hop :: route, node, dest => ∃ next : mesh.Node, hop.nextDest = next.core ∧
      (if hop.direction.isLink then mesh.Linked node next else next = node) ∧
      Follows route next dest

variable {mesh}

def Node.hops (node dest : mesh.Node) : ℤ :=
  mesh.laneHops mesh.width node.x dest.x + mesh.laneHops mesh.height node.y dest.y

variable {node dest : mesh.Node}

lemma computeDistance_core : mesh.computeDistance node.core dest.core =
    laneDist mesh.wrapAround mesh.width node.x dest.x +
      laneDist mesh.wrapAround mesh.height node.y dest.y := by
  rw [computeDistance, computePosition_core, computePosition_core, laneDist, laneDist]
  split <;> rfl

lemma routePacket_self : mesh.routePacket node.core node.core = ⟨node.core, .destination⟩ := by
  rw [routePacket, fakeNode_core, getNextDest, if_neg (not_le.mpr (core_lt node))]
  simp

structure Node.Advances (node dest : mesh.Node) (hop : Hop) (next : mesh.Node) : Prop where
  nextDest : hop.nextDest = next.core
  isLink : hop.direction.isLink = true
  linked : mesh.Linked node next
  hops : next.hops dest + 1 = node.hops dest

variable {direction : OutputDirection}

lemma advances_row {x : ℤ}
    (closer : mesh.Closer mesh.width node.x dest.x ((x + mesh.width).tmod mesh.width))
    (isLink : direction.isLink = true) :
    ∃ next, node.Advances dest ⟨mesh.computeCoreId x node.y, direction⟩ next := by
  refine ⟨⟨_, node.y, closer.on, node.row⟩, ?_, isLink, .inl ⟨closer.linked, rfl⟩, ?_⟩
  · rw [Node.core, computeCoreId, computeCoreId, tmod_onLane closer.on]
  · rw [Node.hops, Node.hops, ← closer.hops]
    dsimp only
    omega

lemma advances_column {y : ℤ}
    (closer : mesh.Closer mesh.height node.y dest.y ((y + mesh.height).tmod mesh.height))
    (isLink : direction.isLink = true) :
    ∃ next, node.Advances dest ⟨mesh.computeCoreId node.x y, direction⟩ next := by
  refine ⟨⟨node.x, _, node.column, closer.on⟩, ?_, isLink, .inr ⟨rfl, closer.linked⟩, ?_⟩
  · rw [Node.core, computeCoreId, computeCoreId, tmod_onLane closer.on]
  · rw [Node.hops, Node.hops, ← closer.hops]
    dsimp only
    omega

lemma routePacket_of_ne (different : node ≠ dest) :
    ∃ next, node.Advances dest (mesh.routePacket node.core dest.core) next := by
  have apart : ¬ node.core.tdiv mesh.concentration = dest.core.tdiv mesh.concentration := by
    intro same
    rw [core_tdiv, core_tdiv] at same
    exact different (core_injective (by rw [core_eq, core_eq, same]))
  rw [routePacket, fakeNode_core, if_neg Bool.false_ne_true, getNextDest,
    if_neg (not_le.mpr (core_lt dest)), if_neg apart, fakeNode_core,
    if_neg Bool.false_ne_true, computePosition_core, computePosition_core]
  dsimp only
  split
  · next left => exact advances_row (closer_down node.column dest.column left) rfl
  · next right =>
    split
    · next moves => exact advances_row (closer_up node.column dest.column right moves) rfl
    · next there =>
      split
      · next down => exact advances_column (closer_down node.row dest.row down) rfl
      · next up =>
        split
        · next moves => exact advances_column (closer_up node.row dest.row up moves) rfl
        · next here =>
          exact absurd (Node.ext (Decidable.not_not.mp there) (Decidable.not_not.mp here)) different

lemma hops_self : node.hops node = 0 := by
  rw [Node.hops, laneHops_self node.column, laneHops_self node.row, add_zero]

lemma hops_nonneg : 0 ≤ node.hops dest :=
  add_nonneg (laneHops_nonneg node.column dest.column) (laneHops_nonneg node.row dest.row)

lemma hops_lt : node.hops dest < mesh.width + mesh.height :=
  add_lt_add (laneHops_lt node.column dest.column) (laneHops_lt node.row dest.row)

lemma linkHops_cons {hop : Hop} (isLink : hop.direction.isLink = true) (route : List Hop) :
    linkHops (hop :: route) = linkHops route + 1 := by
  simp [linkHops, isLink]

lemma Node.Advances.follows {hop : Hop} {next : mesh.Node} {route : List Hop}
    (advances : node.Advances dest hop next) (rest : mesh.Follows route next dest) :
    mesh.Follows (hop :: route) node dest := by
  refine ⟨next, advances.nextDest, ?_, rest⟩
  rw [if_pos advances.isLink]
  exact advances.linked

/-- With enough fuel the packet arrives, along links. Every hop brings it one nearer, so the fuel it
takes is the number of hops that are left. -/
lemma netSend_core {fuel : ℕ} (enough : node.hops dest < fuel) :
    ∃ route, mesh.netSend dest.core fuel node.core = some route ∧
      mesh.Follows route node dest ∧ linkHops route = node.hops dest := by
  induction fuel generalizing node with
  | zero => exact absurd enough (not_lt.mpr hops_nonneg)
  | succ fuel ih =>
    by_cases here : node = dest
    · subst here
      refine ⟨[⟨node.core, .destination⟩], ?_, ⟨node, rfl, rfl, rfl⟩, hops_self.symm⟩
      rw [netSend, routePacket_self, if_pos rfl]
    · obtain ⟨next, advances⟩ := routePacket_of_ne here
      have hops := advances.hops
      rw [netSend, advances.nextDest]
      by_cases last : next = dest
      · subst last
        rw [hops_self] at hops
        refine ⟨_, if_pos rfl, advances.follows rfl, ?_⟩
        rw [linkHops_cons advances.isLink, ← hops]
        rfl
      · have fewer : next.hops dest < fuel := by omega
        obtain ⟨route, sent, follows, rest⟩ := ih fewer
        rw [if_neg fun same => last (core_injective same), sent]
        refine ⟨_, rfl, advances.follows follows, ?_⟩
        rw [linkHops_cons advances.isLink, ← hops, ← rest]
        rfl

lemma computeDistance_le {k : ℕ} (path : Path mesh.Linked k node dest) :
    mesh.computeDistance node.core dest.core ≤ k := by
  let rank (other : mesh.Node) : ℤ := mesh.computeDistance other.core dest.core
  have near : ∀ a b, mesh.Linked a b → rank a ≤ rank b + 1 := by
    intro a b linked
    simp only [rank, computeDistance_core]
    obtain ⟨row, same⟩ | ⟨same, column⟩ := linked
    · have closer := laneDist_link a.column b.column dest.column row
      rw [same]
      omega
    · have closer := laneDist_link a.row b.row dest.row column
      rw [same]
      omega
  have bound := path.rank_le near
  have arrived : rank dest = 0 := by
    simp only [rank, computeDistance_core, laneDist_self mesh.width_pos.le,
      laneDist_self mesh.height_pos.le, add_zero]
  rwa [arrived, zero_add] at bound

/-- The packet arrives: its hops follow links from node to node, and these are at most two more than
any path to the destination has. -/
theorem route_nearly_shortest (node dest : mesh.Node) :
    ∃ route, mesh.netSend dest.core (mesh.width + mesh.height).toNat node.core = some route ∧
      mesh.Follows route node dest ∧
      ∀ k, Path mesh.Linked k node dest → linkHops route ≤ k + 2 := by
  have enough : node.hops dest < (mesh.width + mesh.height).toNat :=
    lt_of_lt_of_le hops_lt (self_le_toNat _)
  obtain ⟨route, sent, follows, hops⟩ := netSend_core enough
  refine ⟨route, sent, follows, fun k other => ?_⟩
  have shortest := computeDistance_le other
  have row := mesh.laneHops_le node.column dest.column
  have column := mesh.laneHops_le node.row dest.row
  rw [computeDistance_core] at shortest
  rw [Node.hops] at hops
  omega

end Routes

/-- No row or column of odd size is crossed by just more than half in a mesh that wraps around. -/
def Shortest (mesh : Mesh) (sender receiver : CoreId) : Prop :=
  let s := mesh.computePosition sender
  let d := mesh.computePosition receiver
  mesh.wrapAround = true → 2 * |s.x - d.x| ≠ mesh.width + 1 ∧ 2 * |s.y - d.y| ≠ mesh.height + 1

end Mesh

/-- Between any two masters the packet arrives, and it takes as many links as `computeDistance`
says exactly when the way is not just more than half of an odd size that wraps around. -/
theorem route_shortest_iff (mesh : Mesh) {sender receiver : CoreId} (sends : mesh.Master sender)
    (receives : mesh.Master receiver) {fuel : ℕ} (enough : mesh.width + mesh.height ≤ fuel) :
    ∃ route, mesh.netSend receiver fuel sender = some route ∧
      (linkHops route = mesh.computeDistance sender receiver ↔ mesh.Shortest sender receiver) := by
  obtain ⟨node, rfl⟩ := sends.exists_node
  obtain ⟨dest, rfl⟩ := receives.exists_node
  obtain ⟨route, sent, -, hops⟩ := Mesh.netSend_core (lt_of_lt_of_le Mesh.hops_lt enough)
  refine ⟨route, sent, ?_⟩
  obtain ⟨rowLe, row⟩ := mesh.laneHops_eq_iff node.column dest.column
  obtain ⟨columnLe, column⟩ := mesh.laneHops_eq_iff node.row dest.row
  rw [hops, Mesh.Node.hops, Mesh.computeDistance_core, Mesh.Shortest, Mesh.computePosition_core,
    Mesh.computePosition_core, forall_and, ← row, ← column]
  omega

def threeRing : Mesh := ⟨3, 1, 1, true, by decide, by decide, by decide⟩

theorem threeRing_next : threeRing.Shortest 0 1 ∧ ∃ route,
    threeRing.netSend 1 4 0 = some route ∧ (linkHops route = threeRing.computeDistance 0 1 ↔
      threeRing.Shortest 0 1) := by
  refine ⟨fun _ => ⟨by decide, by decide⟩, ?_⟩
  exact route_shortest_iff threeRing ⟨by decide, by decide, by decide⟩
    ⟨by decide, by decide, by decide⟩ (by decide)

/-- From one end to the other: two links, where one would do. -/
theorem threeRing_detour : ∃ route, threeRing.netSend 2 4 0 = some route ∧
    route = [⟨1, .right⟩, ⟨2, .right⟩] ∧ linkHops route = 2 ∧ threeRing.computeDistance 0 2 = 1 :=
  ⟨_, rfl, by decide, by decide, by decide⟩

end Sniper.Network
