import Sniper.Network.Routing

/-!
# The delay that a packet carries

`netSend` routes a packet through the whole mesh before it hands it to the transport. Each hop over
a link takes the hop latency and waits in a queue. What is handed over is a copy that was made after
the first hop: its time is set to the time of the last hop, but the delay it carries is the one of
the first.
-/

namespace Sniper.Network

structure NetPacket where
  startTime : ℕ
  time : ℕ
  queueDelay : ℕ
  sender : CoreId
  receiver : CoreId
  /-- The sender, or who asked for the memory access that the packet is a part of. -/
  requester : CoreId
  length : ℕ

/-- The models of all cores, with one clock. The queue models answer with a delay, and may remember
what they were asked. -/
structure HopByHop (σ : Type) where
  mesh : Mesh
  hopLatency : ℕ
  enabled : Bool
  queueModelEnabled : Bool
  linkDelay : CoreId → OutputDirection → ℕ → ℕ → σ → ℕ × σ
  injectionDelay : CoreId → ℕ → ℕ → σ → ℕ × σ

structure Routed (σ : Type) where
  nextDest : CoreId
  time : ℕ
  packet : NetPacket
  charged : ℕ
  queues : σ

namespace HopByHop

variable {σ : Type} (net : HopByHop σ)

/-- `computeInjectionPortQueueDelay`, for the packets that a core sends itself. -/
def injection (core : CoreId) (packet : NetPacket) (s : σ) : ℕ × σ :=
  if net.mesh.fakeNode core = true ∨ packet.sender ≠ core then (0, s)
  else if net.queueModelEnabled = false ∨ packet.receiver = core then (0, s)
  else net.injectionDelay core packet.time packet.length s

/-- `computeLatency` charges no others. -/
def charges (packet : NetPacket) : Bool :=
  net.enabled && decide (packet.requester < net.mesh.applicationCores)

def link (core : CoreId) (direction : OutputDirection) (time : ℕ) (packet : NetPacket) (s : σ) :
    ℕ × σ :=
  if net.queueModelEnabled = true then net.linkDelay core direction time packet.length s
  else (0, s)

/-- `routePacket` of a core, with `addHop` and `computeLatency`, for a packet with one receiver. -/
def routePacket (core : CoreId) (packet : NetPacket) (s : σ) : Routed σ :=
  let injected := net.injection core packet s
  let time := packet.time + injected.1
  let hop := net.mesh.routePacket core packet.receiver
  if (hop.direction.isLink && net.charges packet) = true then
    let queued := net.link core hop.direction time packet injected.2
    { nextDest := hop.nextDest
      time := time + (net.hopLatency + queued.1)
      packet := { packet with queueDelay := packet.queueDelay + injected.1 + queued.1 }
      charged := 1
      queues := queued.2 }
  else
    { nextDest := hop.nextDest
      time := time
      packet := { packet with queueDelay := packet.queueDelay + injected.1 }
      charged := 0
      queues := injected.2 }

/-- The loop of `netSend` over the cores on the way. -/
def sendOn : ℕ → Routed σ → Option (Routed σ)
  | 0, _ => none
  | fuel + 1, hop =>
    if hop.nextDest = hop.packet.receiver then some hop
    else
      let next := net.routePacket hop.nextDest { hop.packet with time := hop.time } hop.queues
      sendOn fuel { next with charged := hop.charged + next.charged }

/-- `netSend` by the sender: the packet that is handed to the transport, with the number of hop
latencies on its route. `makeBuffer` copies the packet after the first hop. -/
def netSend (fuel : ℕ) (packet : NetPacket) (s : σ) : Option (NetPacket × ℕ) :=
  let first := net.routePacket packet.sender packet s
  (net.sendOn fuel first).map fun last =>
    ({ first.packet with startTime := packet.time, time := last.time }, last.charged)

def Idle (packet : NetPacket) : ℕ → CoreId → ℕ → σ → Prop
  | 0, _, _, _ => True
  | fuel + 1, core, time, s =>
    core ≠ packet.receiver → net.charges packet = true →
      let hop := net.mesh.routePacket core packet.receiver
      let queued := net.link core hop.direction time packet s
      queued.1 = 0 ∧ Idle packet fuel hop.nextDest (time + net.hopLatency) queued.2

def RestIdle (fuel : ℕ) (packet : NetPacket) (s : σ) : Prop :=
  let first := net.routePacket packet.sender packet s
  net.Idle packet fuel first.nextDest first.time first.queues

variable {net}

structure Same (packet other : NetPacket) : Prop where
  sender : packet.sender = other.sender
  receiver : packet.receiver = other.receiver
  requester : packet.requester = other.requester
  length : packet.length = other.length

section Sending

open Mesh

variable {packet other : NetPacket} {s : σ} {core : CoreId} {time fuel : ℕ}

lemma Same.charges (same : Same other packet) : net.charges other = net.charges packet := by
  rw [HopByHop.charges, HopByHop.charges, same.requester]

lemma Same.link (same : Same other packet) (direction : OutputDirection) :
    net.link core direction time other s = net.link core direction time packet s := by
  rw [HopByHop.link, HopByHop.link, same.length]

lemma idle_of_free (free : net.charges packet = false) : net.Idle packet fuel core time s := by
  cases fuel with
  | zero => exact trivial
  | succ fuel => exact fun _ charged => absurd charged (by rw [free]; exact Bool.false_ne_true)

lemma routePacket_foreign (same : Same other packet) (foreign : other.sender ≠ core)
    (isLink : (net.mesh.routePacket core packet.receiver).direction.isLink = true) :
    ∃ next, net.routePacket core other s = next ∧ Same next.packet packet ∧
      next.nextDest = (net.mesh.routePacket core packet.receiver).nextDest ∧
      (net.charges packet = false → next.time = other.time ∧ next.charged = 0) ∧
      (net.charges packet = true → ∃ queued, queued = net.link core
          (net.mesh.routePacket core packet.receiver).direction other.time packet s ∧
        next.time = other.time + (net.hopLatency + queued.1) ∧ next.charged = 1 ∧
        next.queues = queued.2) := by
  have injected : net.injection core other s = (0, s) := if_pos (.inr foreign)
  simp only [routePacket, injected, same.receiver, isLink, same.charges, same.link, Bool.true_and,
    Nat.add_zero]
  cases net.charges packet with
  | true =>
    exact ⟨_, rfl, ⟨same.sender, rfl, same.requester, same.length⟩, rfl, nofun,
      fun _ => ⟨_, rfl, rfl, rfl, rfl⟩⟩
  | false =>
    exact ⟨_, rfl, ⟨same.sender, rfl, same.requester, same.length⟩, rfl, fun _ => ⟨rfl, rfl⟩, nofun⟩

/-- By induction on the hops that remain, each of which may add a wait. -/
lemma sendOn_spec {sender node dest : net.mesh.Node} {hop : Routed σ}
    (same : Same hop.packet packet) (sends : packet.sender = sender.core)
    (receives : packet.receiver = dest.core) (here : hop.nextDest = node.core)
    (closer : node.hops dest < sender.hops dest ∨ node = dest) (enough : node.hops dest < fuel) :
    ∃ last charged delay, net.sendOn fuel hop = some last ∧ last.charged = hop.charged + charged ∧
      last.time = hop.time + charged * net.hopLatency + delay ∧
      (delay = 0 ↔ net.Idle packet fuel node.core hop.time hop.queues) := by
  induction fuel generalizing node hop with
  | zero => exact absurd enough (Int.not_lt.mpr hops_nonneg)
  | succ fuel ih =>
    rw [sendOn, here, same.receiver, receives]
    by_cases arrived : node = dest
    · subst arrived
      refine ⟨hop, 0, 0, if_pos rfl, rfl, by omega, iff_of_true rfl ?_⟩
      exact fun away => absurd receives.symm away
    have away : node.core ≠ dest.core := fun equal => arrived (core_injective equal)
    rw [if_neg away]
    obtain ⟨next, advances⟩ := routePacket_of_ne arrived
    have hops := advances.hops
    have fewer : next.hops dest < fuel := by omega
    have less : node.hops dest < sender.hops dest := closer.resolve_right arrived
    have foreign : hop.packet.sender ≠ node.core := by
      rw [same.sender, sends]
      rintro equal
      rw [core_injective equal] at less
      exact lt_irrefl _ less
    have same' : Same { hop.packet with time := hop.time } packet :=
      ⟨same.sender, same.receiver, same.requester, same.length⟩
    obtain ⟨routed, routing, kept, goes, free, charges⟩ := routePacket_foreign (s := hop.queues)
      same' foreign (by rw [receives]; exact advances.isLink)
    rw [receives] at goes charges
    obtain ⟨last, charged, delay, sent, count, arrival, idle⟩ := @ih next
      { routed with charged := hop.charged + routed.charged } kept
      (goes.trans advances.nextDest) (.inl (by omega)) fewer
    rw [routing]
    dsimp only at sent count arrival idle charges free
    cases charging : net.charges packet with
    | false =>
      obtain ⟨time, none'⟩ := free charging
      refine ⟨last, charged, delay, sent, by omega, by rw [arrival, time], ?_⟩
      exact iff_of_true (idle.mpr (idle_of_free charging)) (idle_of_free charging)
    | true =>
      obtain ⟨queued, asked, time, one, queues⟩ := charges charging
      refine ⟨last, charged + 1, queued.1 + delay, sent, by omega, ?_, ?_⟩
      · rw [arrival, time, Nat.succ_mul]
        omega
      · rw [Nat.add_eq_zero_iff, idle, Idle, time, queues, receives]
        dsimp only
        rw [← asked, advances.nextDest]
        constructor
        · rintro ⟨none', rest⟩ - -
          rw [none'] at rest
          exact ⟨none', rest⟩
        · intro all
          obtain ⟨none', rest⟩ := all away charging
          rw [none']
          exact ⟨rfl, rest⟩

lemma routePacket_nextDest : (net.routePacket core packet s).nextDest =
    (net.mesh.routePacket core packet.receiver).nextDest := by
  rw [routePacket]
  split <;> rfl

lemma routePacket_accounts (fresh : packet.queueDelay = 0) :
    Same (net.routePacket core packet s).packet packet ∧
      (net.routePacket core packet s).time = packet.time +
        ((net.routePacket core packet s).charged * net.hopLatency +
          (net.routePacket core packet s).packet.queueDelay) := by
  rw [routePacket]
  dsimp only
  split
  all_goals
    refine ⟨⟨rfl, rfl, rfl, rfl⟩, ?_⟩
    dsimp only
    omega

lemma exists_next {sender dest : net.mesh.Node} (sends : sender.core = packet.sender)
    (receives : dest.core = packet.receiver) :
    ∃ next : net.mesh.Node, (net.routePacket packet.sender packet s).nextDest = next.core ∧
      (next.hops dest < sender.hops dest ∨ next = dest) := by
  rw [routePacket_nextDest, ← sends, ← receives]
  by_cases here : sender = dest
  · subst here
    exact ⟨sender, by rw [routePacket_self], .inr rfl⟩
  · obtain ⟨next, advances⟩ := routePacket_of_ne here
    have hops := advances.hops
    exact ⟨next, advances.nextDest, .inl (by omega)⟩

end Sending

/-- The delay that is handed over with the packet accounts for the time it took, exactly when no
link after the first one makes it wait. -/
theorem queueDelay_complete_iff (net : HopByHop σ) (packet : NetPacket) (s : σ) {fuel : ℕ}
    (sends : net.mesh.Master packet.sender) (receives : net.mesh.Master packet.receiver)
    (fresh : packet.queueDelay = 0) (enough : net.mesh.width + net.mesh.height ≤ fuel) :
    ∃ sent charged, net.netSend fuel packet s = some (sent, charged) ∧
      (sent.time = sent.startTime + (charged * net.hopLatency + sent.queueDelay) ↔
        net.RestIdle fuel packet s) := by
  obtain ⟨sender, sends⟩ := sends.exists_node
  obtain ⟨dest, receives⟩ := receives.exists_node
  obtain ⟨next, here, closer⟩ := exists_next (s := s) sends receives
  have accounts : Same (net.routePacket packet.sender packet s).packet packet ∧ _ :=
    routePacket_accounts fresh
  obtain ⟨same, time⟩ := accounts
  obtain ⟨last, more, delay, sent, total, arrival, idle⟩ := sendOn_spec same sends.symm
    receives.symm here closer (Mesh.hops_lt.trans_le enough)
  refine ⟨_, _, by rw [netSend]; dsimp only; rw [sent]; rfl, ?_⟩
  rw [RestIdle]
  dsimp only
  rw [here, ← idle, arrival, total, time, Nat.add_mul]
  omega

def ring (delay : ℕ) : HopByHop Unit where
  mesh := threeRing
  hopLatency := 2
  enabled := true
  queueModelEnabled := true
  linkDelay := fun core _ _ _ s => (if core = 1 then delay else 0, s)
  injectionDelay := fun _ _ _ s => (3, s)

def across : NetPacket := ⟨0, 10, 0, 0, 2, 0, 8⟩

theorem ring_idle : (ring 0).RestIdle 4 across () ∧
    ∃ sent charged, (ring 0).netSend 4 across () = some (sent, charged) ∧
      (sent.time = sent.startTime + (charged * (ring 0).hopLatency + sent.queueDelay) ↔
        (ring 0).RestIdle 4 across ()) :=
  ⟨fun _ _ => ⟨rfl, fun away => absurd rfl away⟩,
    queueDelay_complete_iff (ring 0) across () ⟨by decide, by decide, by decide⟩
      ⟨by decide, by decide, by decide⟩ rfl (by decide)⟩

/-- The packet takes two hops of two cycles, waits three cycles for the injection port and then five
cycles at the second node. It arrives after twelve cycles with a delay of three. -/
theorem ring_waits :
    ((ring 5).netSend 4 across ()).map
        (fun sent => (sent.1.startTime, sent.1.time, sent.1.queueDelay, sent.2)) =
      some (10, 22, 3, 2) ∧ 22 - 10 ≠ 2 * (ring 5).hopLatency + 3 := by
  decide

end HopByHop

end Sniper.Network
