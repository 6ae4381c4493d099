import Sniper.Lib.Runs
import Sniper.Network.Routing

/-!
# The broadcast tree

With the broadcast tree, every node that gets a broadcast packet forwards it along the sender's row
and, from there, along the columns. A node looks only at its position relative to the sender's: it
does not check for the border of the mesh, where `computeCoreId` wraps around. So there is always
another packet under way.
-/

namespace Sniper.Network

/-- A packet that is handed to a core. Its receiver is `BROADCAST`, or the core itself. -/
structure BroadcastPacket where
  dest : CoreId
  isBroadcast : Bool
  deriving DecidableEq, Repr

namespace Mesh

variable (mesh : Mesh)

/-- `routePacket` of a core, for a broadcast packet with the broadcast tree enabled. -/
def routeBroadcast (totalCores : ℕ) (sender core : CoreId) : List BroadcastPacket :=
  if mesh.fakeNode core = true then (List.range totalCores).map fun i => ⟨i, false⟩
  else
    let s := mesh.computePosition sender
    let c := mesh.computePosition core
    (if c.y ≥ s.y then [⟨mesh.computeCoreId c.x (c.y + 1), true⟩] else []) ++
    (if c.y ≤ s.y then [⟨mesh.computeCoreId c.x (c.y - 1), true⟩] else []) ++
    if c.y = s.y then
      (if c.x ≥ s.x then [⟨mesh.computeCoreId (c.x + 1) c.y, true⟩] else []) ++
      (if c.x ≤ s.x then [⟨mesh.computeCoreId (c.x - 1) c.y, true⟩] else []) ++
      if c.x = s.x then [⟨core, false⟩] else []
    else []

structure BroadcastState where
  inFlight : List BroadcastPacket
  delivered : List CoreId
  deriving DecidableEq, Repr

def startBroadcast (totalCores : ℕ) (sender : CoreId) : BroadcastState :=
  ⟨mesh.routeBroadcast totalCores sender sender, []⟩

/-- `netPullFromTransport`, by the core that some packet in flight was handed to: a broadcast packet
is forwarded and delivered, a packet for the core itself is delivered. -/
def pull (totalCores : ℕ) (sender : CoreId) (s : BroadcastState) (i : ℕ) : BroadcastState :=
  match s.inFlight[i]? with
  | none => s
  | some packet =>
    { inFlight := s.inFlight.eraseIdx i ++
        if packet.isBroadcast = true then mesh.routeBroadcast totalCores sender packet.dest else []
      delivered := s.delivered ++ [packet.dest] }

/-- In some order of the deliveries the broadcast comes to its end, with one delivery to every
node. -/
def Completes (totalCores : ℕ) (sender : CoreId) : Prop :=
  ∃ order, (Runs.run (mesh.pull totalCores sender) (mesh.startBroadcast totalCores sender)
      order).inFlight = [] ∧
    ∀ node : mesh.Node, (Runs.run (mesh.pull totalCores sender)
      (mesh.startBroadcast totalCores sender) order).delivered.count node.core = 1

def Unfinished (packets : List BroadcastPacket) : Prop :=
  ∃ node : mesh.Node, ⟨node.core, true⟩ ∈ packets

variable {mesh} (totalCores : ℕ) (sender : CoreId)

lemma exists_node_column {x y : ℤ} (column : Links.OnLane mesh.width x) (above : -1 ≤ y) :
    ∃ node : mesh.Node, node.core = mesh.computeCoreId x y := by
  have height := mesh.height_pos
  have nonneg : 0 ≤ y + mesh.height := by omega
  have row : Links.OnLane mesh.height ((y + mesh.height).tmod mesh.height) := by
    rw [Int.tmod_eq_emod_of_nonneg nonneg]
    exact ⟨Int.emod_nonneg _ height.ne', Int.emod_lt_of_pos _ height⟩
  refine ⟨⟨x, _, column, row⟩, ?_⟩
  rw [Node.core, computeCoreId, computeCoreId, tmod_onLane row]

lemma unfinished_routeBroadcast (node : mesh.Node) :
    mesh.Unfinished (mesh.routeBroadcast totalCores sender node.core) := by
  rw [routeBroadcast, fakeNode_core, if_neg Bool.false_ne_true, computePosition_core]
  dsimp only
  have row := node.row.1
  by_cases up : node.y ≥ (mesh.computePosition sender).y
  · obtain ⟨next, same⟩ := exists_node_column (y := node.y + 1) node.column (by omega)
    exact ⟨next, by rw [if_pos up, same]; simp⟩
  · obtain ⟨next, same⟩ := exists_node_column (y := node.y - 1) node.column (by omega)
    have down : node.y ≤ (mesh.computePosition sender).y := by omega
    exact ⟨next, by rw [if_pos down, same]; simp⟩

lemma unfinished_pull (s : BroadcastState) (i : ℕ) (unfinished : mesh.Unfinished s.inFlight) :
    mesh.Unfinished (mesh.pull totalCores sender s i).inFlight := by
  obtain ⟨node, waiting⟩ := unfinished
  rw [pull]
  cases found : s.inFlight[i]? with
  | none => exact ⟨node, waiting⟩
  | some packet =>
    by_cases same : packet = ⟨node.core, true⟩
    · subst same
      obtain ⟨next, forwarded⟩ := unfinished_routeBroadcast totalCores sender node
      exact ⟨next, List.mem_append_right _ forwarded⟩
    · refine ⟨node, List.mem_append_left _ (List.mem_eraseIdx_iff_getElem?.mpr ?_)⟩
      obtain ⟨j, there⟩ := List.mem_iff_getElem?.mp waiting
      refine ⟨j, ?_, there⟩
      rintro rfl
      exact same (Option.some.inj (found.symm.trans there))

/-- On no mesh and from no sender does a broadcast come to its end. -/
theorem broadcast_incomplete (mesh : Mesh) (totalCores : ℕ) {sender : CoreId}
    (sends : mesh.Master sender) : ¬ mesh.Completes totalCores sender := by
  obtain ⟨node, rfl⟩ := sends.exists_node
  have start : mesh.Unfinished (mesh.startBroadcast totalCores node.core).inFlight :=
    unfinished_routeBroadcast totalCores _ node
  rintro ⟨order, finished, -⟩
  obtain ⟨next, waiting⟩ := Runs.run_invariant
    (I := fun s : BroadcastState => mesh.Unfinished s.inFlight)
    (unfinished_pull totalCores node.core) start order
  rw [finished] at waiting
  exact absurd waiting (by simp)

def twoNodes : Mesh := ⟨2, 1, 1, false, by decide, Int.one_pos, Int.one_pos⟩

theorem twoNodes_sends : twoNodes.Master 0 ∧ ¬ twoNodes.Completes 2 0 := by
  have sends : twoNodes.Master 0 := ⟨by decide, by decide, by decide⟩
  exact ⟨sends, broadcast_incomplete twoNodes 2 sends⟩

/-- On a mesh of two nodes the sender gets its own broadcast twice, and the other node twice as
well; each of them goes on with it. -/
theorem twoNodes_twice : (twoNodes.startBroadcast 2 0).inFlight =
        [⟨0, true⟩, ⟨0, true⟩, ⟨1, true⟩, ⟨1, true⟩, ⟨0, false⟩] ∧
      (Runs.run (twoNodes.pull 2 0) (twoNodes.startBroadcast 2 0) [2, 2]).delivered = [1, 1] ∧
      (Runs.run (twoNodes.pull 2 0) (twoNodes.startBroadcast 2 0) [2, 2]).inFlight.length = 9 := by
  decide

end Mesh

end Sniper.Network
