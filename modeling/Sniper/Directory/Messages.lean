import Sniper.Directory.Addresses

/-!
# What the messages keep

One pass over the handlers carries both invariants of the directory. Its addresses stay settled, and
the entries of a full-map directory stay consistent. A handler serves the first request in the queue
of its line, and leaves that request in front until it is completed.
-/

namespace Sniper.DirCntlr

open Fallible DirectoryEntry DramDirectoryCache Option List

variable {n : Nat} {D N : Type} {cfg : DirConfig n D N} {s s' : DirCntlr n D N} {a : IntPtr}
  {r : EntryRef} {e e' : DirectoryEntry n} {type : Option ReqType} {data : Option D}
  {req : ShmemReq n D} {rest : List (ShmemReq n D)}

structure Kept (cfg : DirConfig n D N) (s : DirCntlr n D N) (a : IntPtr)
    (type : Option ReqType) : Prop extends Serves cfg s a type where
  sane : cfg.maxHwSharers = n → s.Sane cfg

/-- The handler of line `a` works on the entry `e` at `r`, and all other entries of a full map are
consistent. -/
structure Held (cfg : DirConfig n D N) (s : DirCntlr n D N) (a : IntPtr) (type : Option ReqType)
    (r : EntryRef) (e : DirectoryEntry n) : Prop extends Serves cfg s a type where
  found : s.directory.Found cfg.layout a r
  here : s.directory.get? r = some e
  holds : cfg.maxHwSharers = n → s.Holds cfg a r e

lemma front_cons (queue : s.queues a = req :: rest) : s.front a = some req.type := by
  rw [front, queue]
  rfl

lemma Kept.congr (kept : s.Kept cfg a type) (directory : s'.directory = s.directory)
    (front : s'.front = s.front) : s'.Kept cfg a type :=
  ⟨kept.toServes.congr ⟨by rw [directory], front⟩, fun full => (kept.sane full).congr directory⟩

open DirCntlr

lemma Kept.written (kept : s.Kept cfg a type)
    (same : s'.directory = s.directory ∧ s'.queues = s.queues) : s'.Kept cfg a type :=
  kept.congr same.1 (funext fun b => by rw [front, same.2, front])

lemma Held.kept (held : s.Held cfg a type r e)
    (consistent : cfg.maxHwSharers = n → e.Consistent cfg.protocol) : s.Kept cfg a type :=
  ⟨held.toServes, fun full => (held.holds full).sane (consistent full)⟩

lemma Held.setEntry (held : s.Held cfg a type r e) (same : e'.address = e.address) :
    (s.setEntry r e').Held cfg a type r e' :=
  ⟨held.toServes.congr (alike_setEntry held.here same), held.found.set held.here same,
    get?_set_self held.here, fun full => (held.holds full).setEntry same⟩

/-! ## Lookups -/

lemma lookup_cases (cfg : DirConfig n D N) (s : DirCntlr n D N) (a : IntPtr) :
    (∃ c r e, s.lookup cfg a = ({ s with directory := c }, some (r, e)) ∧
      s.directory.getDirectoryEntry cfg.layout a = (c, some r) ∧ c.get? r = some e) ∨
    (s.lookup cfg a = (s, none) ∧
      s.directory.getDirectoryEntry cfg.layout a = (s.directory, none)) := by
  cases looked : s.directory.getDirectoryEntry cfg.layout a with
  | mk c ref =>
    cases ref with
    | some r =>
      obtain ⟨e, here⟩ := (getDirectoryEntry_found looked).get?
      exact .inl ⟨c, r, e, by simp [lookup, looked, here], rfl, here⟩
    | none =>
      obtain ⟨rfl, -⟩ := getDirectoryEntry_none looked
      exact .inr ⟨by simp [lookup, looked], rfl⟩

lemma Held.lookup (held : s.Held cfg a type r e) : s.lookup cfg a = (s, some (r, e)) := by
  have found : s.directory.getDirectoryEntry cfg.layout a = (s.directory, some r) := held.found
  simp [DirCntlr.lookup, found, held.here]

lemma Kept.lookup (kept : s.Kept cfg a type) (valid : a ≠ invalidAddress) {c : DramDirectoryCache n}
    (looked : s.directory.getDirectoryEntry cfg.layout a = (c, some r)) (here : c.get? r = some e) :
    Held cfg { s with directory := c } a type r e ∧
      (cfg.maxHwSharers = n → e.Consistent cfg.protocol) := by
  have settled := lookup_settled kept.settled valid
  rw [DirCntlr.lookup, looked] at settled
  have found := getDirectoryEntry_found looked
  have holds (full : cfg.maxHwSharers = n) : c.Holds cfg.layout cfg.protocol a r e ∧
      e.Consistent cfg.protocol := by
    have sane := (kept.sane full).getDirectoryEntry a
    rw [looked] at sane
    exact sane.holds found here
  exact ⟨⟨⟨settled, kept.front⟩, found, here, fun full => (holds full).1⟩,
    fun full => (holds full).2⟩

lemma Kept.getEntry (kept : s.Kept cfg a type) (valid : a ≠ invalidAddress) :
    Ensures (s.getEntry cfg a) fun (s', r, e) => (s'.Held cfg a type r e ∧
      (cfg.maxHwSharers = n → e.Consistent cfg.protocol)) ∧ s' = (s.lookup cfg a).1 := by
  unfold DirCntlr.getEntry
  rcases lookup_cases cfg s a with ⟨c, r, e, eq, looked, here⟩ | ⟨eq, -⟩ <;> rw [eq]
  · exact .ok ⟨kept.lookup valid looked here, rfl⟩
  · exact .error

/-- What holds between messages. -/
def Fine (cfg : DirConfig n D N) (s : DirCntlr n D N) : Prop :=
  s.Settled cfg ∧ (cfg.maxHwSharers = n → s.Sane cfg)

lemma Kept.fine (kept : s.Kept cfg a type) : s.Fine cfg := ⟨kept.settled, kept.sane⟩

lemma Fine.kept (fine : s.Fine cfg) (a : IntPtr) : s.Kept cfg a (s.front a) :=
  ⟨⟨fine.1, rfl⟩, fine.2⟩

/-- A completed request to nullify a line leaves nothing of it. All slots keep their lines. -/
lemma processNullifyReq_keeps (fine : s.Fine cfg) (valid : a ≠ invalidAddress)
    (requester : Fin n) : Ensures (s.processNullifyReq cfg requester a) fun r =>
      ((if r.2 = true then r.1.Done cfg a else r.1.Settled cfg) ∧
        (cfg.maxHwSharers = n → r.1.Sane cfg)) ∧ r.1.queues = s.queues ∧
      ∀ b i, b ≠ invalidAddress → s.directory.slotOf cfg.layout b b = some i →
        r.1.directory.slotOf cfg.layout b b = some i := by
  refine ((fine.kept a).getEntry valid).bind ?_
  rintro ⟨_, r, e⟩ ⟨⟨held, consistent⟩, rfl⟩
  have kept := held.kept consistent
  have slots (b : IntPtr) (i : ℕ) (valid : b ≠ invalidAddress)
      (found : s.directory.slotOf cfg.layout b b = some i) :
      (s.lookup cfg a).1.directory.slotOf cfg.layout b b = some i :=
    getDirectoryEntry_slot valid found a
  dsimp only
  cases e.dstate with
  | exclusive | modified | shared =>
    exact .ok ⟨⟨kept.settled.congr ⟨rfl, rfl⟩, kept.sane⟩, rfl, slots⟩
  | uncached =>
    have erases : Ensures ((s.lookup cfg a).1.directory.invalidateDirectoryEntry a) _ :=
      fun c done => And.intro (kept.settled.sound.invalidateDirectoryEntry a c done)
        (invalidateDirectoryEntry_spec _ a c done)
    refine erases.bind ?_
    rintro c ⟨⟨sound, erased⟩, same, sane⟩
    refine .ok ⟨⟨⟨sound, fun b other => ?_, ?_⟩, fun full => sane _ _ (kept.sane full)⟩, rfl,
      fun b i valid found => (slotOf_congr fun k _ => ?_).trans (slots b i valid found)⟩
    · rw [erased, mem_erase_of_ne other]
      exact kept.settled.served b
    · rw [erased]
      exact kept.settled.sound.nodup.not_mem_erase
    · rw [same]
  | owned => exact .error

/-- The entry that gives way is nullified first, which leaves the others consistent. -/
lemma processDirectoryEntryAllocationReq_keeps (kept : s.Kept cfg a type)
    (valid : a ≠ invalidAddress)
    (looked : s.directory.getDirectoryEntry cfg.layout a = (s.directory, none))
    (requester : Fin n) :
    Ensures (s.processDirectoryEntryAllocationReq cfg requester a) fun (s', r, e) =>
      s'.Held cfg a type r e ∧ (cfg.maxHwSharers = n → e.Consistent cfg.protocol) := by
  obtain ⟨-, missing, full, unlisted⟩ := getDirectoryEntry_none looked
  refine processDirectoryEntryAllocationReq_ensures fun i candidate idle => ?_
  have hi := mem_candidates candidate
  have other : a ≠ (s.directory.entries i).address := Ne.symm (slotOf_none missing hi)
  have used : (s.directory.entries i).address ≠ invalidAddress := slotOf_none full hi
  have replaces : Ensures (replaceDirectoryEntry cfg.layout
      (s.directory.getReplacementCandidates cfg.layout a).1 _ a) _ := fun c done =>
    And.intro (DramDirectoryCache.Sound.replaceDirectoryEntry
      (c := (s.directory.getReplacementCandidates cfg.layout a).1) kept.settled.sound valid missing
      full unlisted hi c done)
      (replaceDirectoryEntry_spec
        (c := (s.directory.getReplacementCandidates cfg.layout a).1) kept.settled.sound.homed
        missing full hi c done)
  refine replaces.mono ?_
  rintro ⟨c, _⟩ ⟨⟨sound, displaced⟩, j, uninit, rfl, found, hj, entries, replaced⟩
  have sane (full : cfg.maxHwSharers = n) : c.Sane cfg.layout cfg.protocol :=
    replaced_sane ⟨(kept.sane full).homed, all_iff.mpr
      (all_iff.mp (kept.sane full).consistent)⟩ hj entries replaced
  refine (processNullifyReq_keeps
    ⟨kept.settled.displace sound displaced idle requester, sane⟩ used requester).mono ?_
  rintro ⟨s₃, completed⟩ ⟨⟨after, sane₃⟩, queues, slots⟩ e here
  have found₃ := DramDirectoryCache.Found.of_slot (slots a j valid found)
  have same : s₃.front a = type := by
    rw [front, queues]
    exact (front_setQueue_other other _).trans kept.front
  cases completed with
  | true =>
    have holds (full : cfg.maxHwSharers = n) := (sane₃ full).holds found₃ here
    exact ⟨⟨⟨Done.setQueue after (by simp), (front_setQueue_other other _).trans same⟩, found₃,
      here, fun full => (holds full).1⟩, fun full => (holds full).2⟩
  | false =>
    have holds (full : cfg.maxHwSharers = n) := (sane₃ full).holds found₃ here
    exact ⟨⟨⟨after, same⟩, found₃, here, fun full => (holds full).1⟩, fun full => (holds full).2⟩

lemma Kept.findOrAllocate (kept : s.Kept cfg a type) (valid : a ≠ invalidAddress)
    (requester : Fin n) : Ensures (s.findOrAllocate cfg requester a) fun (s', r, e) =>
      s'.Held cfg a type r e ∧ (cfg.maxHwSharers = n → e.Consistent cfg.protocol) := by
  unfold DirCntlr.findOrAllocate
  rcases lookup_cases cfg s a with ⟨c, r, e, eq, looked, here⟩ | ⟨eq, looked⟩ <;> rw [eq]
  · exact .ok (kept.lookup valid looked here)
  · exact processDirectoryEntryAllocationReq_keeps kept valid looked requester

/-! ## Requests -/

lemma fetchData_keeps (s : DirCntlr n D N) (reply : CacheMsg) (receiver : Fin n) (a : IntPtr)
    (e : DirectoryEntry n) : Ensures (s.fetchData cfg reply receiver a e) fun r =>
      r.1.directory = s.directory ∧ r.1.front = s.front := by
  obtain ⟨same, queues⟩ := readNuca_keeps cfg s a
  have read : (s.readNuca cfg a).2.front = s.front := funext fun b => by rw [front, queues, front]
  unfold fetchData
  split
  · rename_i result
    rw [result] at same read
    exact .ok ⟨same, read⟩
  · rename_i s' result
    rw [result] at same read
    split
    · exact .error
    · rename_i req rest queue
      have kept (req' : ShmemReq n D) (type : req'.type = req.type) :
          (s'.setFront a req').front = s.front := (alike_setFront queue type).front.trans read
      split <;> exact .ok ⟨same, kept _ rfl⟩

lemma Held.retrieve (held : s.Held cfg a type r e)
    {receiver : Fin n} (tracked : cfg.maxHwSharers = n → e.Tracks ∧ receiver ∈ e.sharers ∧
      (data = none → e.Forwards cfg.protocol)) (reply : CacheMsg) :
    Ensures (s.retrieveDataAndSendToL2Cache cfg reply receiver a data) fun r =>
      r.1.Kept cfg a type := by
  have again : Ensures (s.getEntry cfg a) fun x => x = (s, r, e) := by
    rw [getEntry, held.lookup]
    exact .ok rfl
  refine again.bind ?_
  rintro _ rfl
  cases data with
  | some d =>
    have stored : (s.setEntry r { e with forwarder := receiver }).Held cfg a _ r _ :=
      held.setEntry rfl
    have forwarded := stored.kept fun full => (tracked full).1.forward (tracked full).2.1
    exact .ok (forwarded.congr rfl rfl)
  | none =>
    have kept := held.kept fun full => ⟨(tracked full).1, (tracked full).2.2 rfl⟩
    exact (fetchData_keeps s reply receiver a e).mono fun _ after => kept.congr after.1 after.2

lemma Held.uncached (held : s.Held cfg a type r e) (none : e.getNumSharers = 0) :
    (s.setEntry r { e with dstate := .uncached }).Kept cfg a type :=
  Held.kept (e := { e with dstate := .uncached }) (held.setEntry rfl) fun _ =>
    consistent_uncached none

lemma Held.occupy (held : s.Held cfg a type r e)
    (alone : cfg.maxHwSharers = n → e.sharers = ∅) (requester : Fin n) {st : DState}
    (hst : st ≠ .uncached ∧ st ≠ .owned) (unshared : cfg.protocol = .mesif → st ≠ .shared)
    (reply : CacheMsg) (data : Option D) :
    Ensures (e.occupy requester cfg.maxHwSharers st >>= fun e' =>
      (s.setEntry r e').retrieveDataAndSendToL2Cache cfg reply requester a data)
      fun r => r.1.Kept cfg a type := by
  refine ((occupy_address requester cfg.maxHwSharers st).andIf fun full =>
    occupy_spec (alone full) requester cfg.maxHwSharers hst).bind ?_
  rintro e' ⟨same, tracked⟩
  refine (held.setEntry same).retrieve (fun full => ?_) reply
  obtain ⟨tracks, sharer, rfl, -⟩ := tracked full
  exact ⟨tracks, sharer, fun _ mesif shared => absurd shared (unshared mesif)⟩

lemma processShReqFromL2Cache_keeps (req : ShmemReq n D)
    (found : Ensures (s.findOrAllocate cfg req.requester a)
      fun (s', r, e) => s'.Held cfg a type r e ∧ (cfg.maxHwSharers = n →
        e.Tracks ∧ (data = none → e.Forwards cfg.protocol))) :
    Ensures (s.processShReqFromL2Cache cfg req a data) fun r => r.1.Kept cfg a type := by
  refine found.bind ?_
  rintro ⟨s', r, e⟩ ⟨held, tracked⟩
  have unanswered (none : data.isNone = true) : s'.Kept cfg a type := held.kept fun full =>
    ⟨(tracked full).1, (tracked full).2 (by simpa using none)⟩
  dsimp only
  cases state : e.dstate with
  | exclusive => exact .require fun _ => .require fun none => .ok ((unanswered none).congr rfl rfl)
  | modified => exact .require fun none => .ok ((unanswered none).congr rfl rfl)
  | shared =>
    dsimp only
    split
    · rename_i sharer
      exact held.retrieve (fun full => ⟨(tracked full).1, sharer, (tracked full).2⟩) _
    · refine ((addSharer_address req.requester cfg.maxHwSharers).andIf
        (addSharer_full e req.requester)).bind ?_
      rintro ⟨e', added⟩ ⟨same, joined⟩
      dsimp only
      split
      · refine (held.setEntry same).retrieve (fun full => ?_) _
        obtain ⟨tracks, forwards⟩ := tracked full
        cases joined full
        exact ⟨tracks.join state _, by simp, fun none => (forwards none).join _⟩
      · rename_i missed
        split
        · refine .ok ⟨held.toServes.congr (alike_send _ _), fun full => ?_⟩
          exact absurd (Prod.mk.inj (joined full)).2 missed
        · exact .error
  | uncached =>
    have alone (full : cfg.maxHwSharers = n) := (tracked full).1.uncached.mp state
    dsimp only
    split
    · rename_i msi
      exact held.occupy alone req.requester (by simp) (by simp [msi]) _ _
    · exact held.occupy alone req.requester (by simp) (by simp) _ _
  | owned => exact .error

section

variable (valid : a ≠ invalidAddress) (req : ShmemReq n D)

include valid

lemma processExReqFromL2Cache_keeps (kept : s.Kept cfg a type) (data : Option D) :
    Ensures (s.processExReqFromL2Cache cfg req a data) fun r => r.1.Kept cfg a type := by
  refine (kept.findOrAllocate valid req.requester).bind ?_
  rintro ⟨s', r, e⟩ ⟨held, consistent⟩
  have kept' := held.kept consistent
  dsimp only
  cases state : e.dstate with
  | exclusive | modified | shared => exact .require fun _ => .ok (kept'.congr rfl rfl)
  | uncached =>
    exact held.occupy (fun full => (consistent full).uncached.mp state) req.requester
      (by simp) (by simp) _ _
  | owned => exact .error

lemma processShReqFromL2Cache_kept (kept : s.Kept cfg a type) (data : Option D) :
    Ensures (s.processShReqFromL2Cache cfg req a data) fun r => r.1.Kept cfg a type := by
  refine processShReqFromL2Cache_keeps req ((kept.findOrAllocate valid req.requester).mono ?_)
  rintro _ ⟨held, consistent⟩
  exact ⟨held, fun full => ⟨(consistent full).toTracks, fun _ => (consistent full).forwards⟩⟩

lemma processUpgradeReqFromL2Cache_keeps (kept : s.Kept cfg a type) (data : Option D) :
    Ensures (s.processUpgradeReqFromL2Cache cfg req a data) fun r => r.1.Kept cfg a type := by
  refine (kept.findOrAllocate valid req.requester).bind ?_
  rintro ⟨s', r, e⟩ ⟨held, consistent⟩
  have kept' := held.kept consistent
  have upgraded {e' : DirectoryEntry n} (same : e'.address = e.address)
      (modified : e'.dstate = .modified) (tracks : cfg.maxHwSharers = n → e'.Tracks) :
      (s'.setEntry r e').Kept cfg a type :=
    (held.setEntry same).kept fun full => (tracks full).consistent (by simp [modified])
  dsimp only
  cases state : e.dstate with
  | exclusive | modified =>
    dsimp only
    split
    · have tracks (full : cfg.maxHwSharers = n) : Tracks { e with dstate := .modified } := by
        obtain ⟨c, sole, owner⟩ := (consistent full).sole (by simp [state])
        exact ⟨by simp, by simp [sole], fun _ => ⟨c, sole, owner⟩⟩
      exact .require fun _ => .ok ((upgraded (by rfl) rfl tracks).congr rfl rfl)
    · exact .ok (kept'.congr rfl rfl)
  | shared =>
    dsimp only
    split
    · rename_i list
      refine (setOwner_spec e req.requester).bind ?_
      rintro _ rfl
      have tracks := tracks_upgrade (getSharersList_eq_singleton list)
      exact .ok ((upgraded (by rfl) rfl fun _ => tracks).congr rfl rfl)
    · exact .ok (kept'.congr rfl rfl)
  | uncached =>
    exact .require fun _ => held.occupy (fun full => (consistent full).uncached.mp state)
      req.requester (by simp) (by simp) _ _
  | owned => exact .error

lemma processReq_keeps (kept : s.Kept cfg a type) :
    Ensures (s.processReq cfg req a) fun r => r.1.Kept cfg a type := by
  unfold processReq
  cases req.type with
  | exReq => exact processExReqFromL2Cache_keeps valid req kept none
  | shReq => exact processShReqFromL2Cache_kept valid req kept none
  | upgradeReq => exact processUpgradeReqFromL2Cache_keeps valid req kept none
  | nullifyReq => exact .error

end

/-! ## The requests that wait -/

section

variable (valid : a ≠ invalidAddress)

include valid

lemma processNext_keeps (rounds : Nat) (done : s.Done cfg a)
    (sane : cfg.maxHwSharers = n → s.Sane cfg) :
    Ensures (processNext cfg rounds s a) (Fine cfg) := by
  induction rounds generalizing s with
  | zero => exact .error
  | succ rounds ih =>
    unfold processNext
    split
    · exact .error
    · rename_i first rest queue
      dsimp only
      split
      · exact .ok ⟨done.setQueue (by simp), sane⟩
      · rename_i req rest
        by_cases nullify : req.type = .nullifyReq
        · rw [processReq, nullify]
          exact .error
        · have other : some req.type ≠ some .nullifyReq := fun same =>
            nullify (some.inj same)
          have kept : (s.setQueue a (req :: rest)).Kept cfg a (some req.type) :=
            ⟨⟨done.setQueue other, front_setQueue_self s a _⟩, sane⟩
          refine (processReq_keeps valid req kept).bind ?_
          rintro ⟨s', completed⟩ kept'
          dsimp only
          split
          · exact ih (kept'.settled.done (kept'.front ▸ other)) kept'.sane
          · exact .ok kept'.fine

variable {m : Except DirFault (DirCntlr n D N × Bool)}

lemma goOn_keeps (first : Ensures m fun r =>
      (if r.2 = true then r.1.Done cfg a else r.1.Settled cfg) ∧
        (cfg.maxHwSharers = n → r.1.Sane cfg)) : Ensures (goOn cfg a m) (Fine cfg) := by
  refine first.bind ?_
  rintro ⟨s, completed⟩ ⟨after, sane⟩
  cases completed with
  | true => exact processNext_keeps valid _ after sane
  | false => exact .ok ⟨after, sane⟩

lemma goOn_served {type : ReqType} (first : Ensures m fun r => r.1.Kept cfg a (some type))
    (other : type ≠ .nullifyReq) : Ensures (goOn cfg a m) (Fine cfg) := by
  refine goOn_keeps valid (first.mono ?_)
  rintro ⟨s, completed⟩ kept
  have served : s.front a ≠ some .nullifyReq := by
    rw [kept.front]
    exact fun same => other (some.inj same)
  cases completed with
  | true => exact ⟨kept.settled.done served, kept.sane⟩
  | false => exact kept.fine

lemma Kept.nullify (kept : s.Kept cfg a type) (requester : Fin n) :
    Ensures (goOn cfg a (s.processNullifyReq cfg requester a)) (Fine cfg) :=
  goOn_keeps valid ((processNullifyReq_keeps kept.fine valid requester).mono fun _ after => after.1)

/-! ## Replies -/

variable (fine : s.Fine cfg)

include fine

lemma processDRAMReply_keeps (data : D) : Ensures (s.processDRAMReply cfg a data) (Fine cfg) := by
  unfold processDRAMReply
  split
  · exact .error
  · rename_i req rest queue
    refine ((fine.kept a).getEntry valid).bind ?_
    rintro ⟨s', r, e⟩ ⟨⟨held, consistent⟩, -⟩
    have replied : Ensures (dramReplyType req.type e.dstate) fun _ =>
        req.type ≠ .nullifyReq := by
      intro reply replied nullify
      rw [nullify] at replied
      cases replied
    refine replied.bind fun reply other => ?_
    have kept := (held.kept consistent).written (sendDataToNUCA_keeps cfg (s'.send (.toCache reply
      req.requester req.requester.val a (some data))) a data false)
    refine processNext_keeps valid _ (kept.settled.done ?_) kept.sane
    rw [kept.front, front_cons queue]
    exact fun same => other (some.inj same)

lemma processInvRepFromL2Cache_keeps (sender : Fin n) :
    Ensures (s.processInvRepFromL2Cache cfg sender a) (Fine cfg) := by
  refine ((fine.kept a).getEntry valid).bind ?_
  rintro ⟨s₁, r, e⟩ ⟨⟨held, consistent⟩, -⟩
  refine ((invalidated_address sender).andIf fun full =>
    invalidated_spec (consistent full) sender).bind ?_
  rintro e' ⟨same, consistent'⟩
  have held' := held.setEntry same
  have kept := held'.kept fun full => (consistent' full).1
  dsimp only
  split
  · exact .ok kept.fine
  · rename_i req rest queue
    have served := held'.front.symm.trans (front_cons queue)
    rw [served] at held' kept
    cases type : req.type with
    | exReq =>
      dsimp only
      split
      · exact goOn_served valid (processExReqFromL2Cache_keeps valid req kept none) (by simp [type])
      · exact .ok kept.fine
    | upgradeReq =>
      dsimp only
      split
      · split
        · exact goOn_served valid (processUpgradeReqFromL2Cache_keeps valid req kept none)
            (by simp [type])
        · exact .ok kept.fine
      · split
        · rename_i none
          exact goOn_served valid
            (processUpgradeReqFromL2Cache_keeps valid req (held'.uncached none) _) (by simp [type])
        · exact .ok kept.fine
    | shReq =>
      dsimp only
      split
      · exact .ok kept.fine
      · split
        · exact .ok kept.fine
        · exact goOn_served valid
            (processShReqFromL2Cache_kept valid req kept none) (by simp [type])
    | nullifyReq =>
      dsimp only
      split
      · exact kept.nullify valid req.requester
      · exact .ok kept.fine

lemma processFlushRepFromL2Cache_keeps (sender requester : Fin n) (data : D) :
    Ensures (s.processFlushRepFromL2Cache cfg sender requester a data) (Fine cfg) := by
  refine ((fine.kept a).getEntry valid).bind ?_
  rintro ⟨s₁, r, e⟩ ⟨⟨held, consistent⟩, -⟩
  refine ((flushed_address sender).andIf fun full =>
    flushed_spec cfg.protocol (consistent full).toTracks sender).bind ?_
  rintro e' ⟨same, consistent'⟩
  have held' := held.setEntry same
  have kept := held'.kept fun full => (consistent' full).1
  have written := kept.written (sendDataToDram_keeps cfg _ a requester data)
  dsimp only
  split
  · exact .ok written.fine
  · rename_i req rest queue
    have served := held'.front.symm.trans (front_cons queue)
    rw [served] at held' kept written
    cases type : req.type with
    | exReq =>
      exact goOn_served valid (processExReqFromL2Cache_keeps valid req kept _) (by simp [type])
    | shReq =>
      exact goOn_served valid (processShReqFromL2Cache_kept valid req written _) (by simp [type])
    | upgradeReq =>
      dsimp only
      split
      · rename_i none
        exact goOn_served valid
          (processUpgradeReqFromL2Cache_keeps valid req (held'.uncached none) _) (by simp [type])
      · refine .ok (Kept.fine (kept.congr ?_ ?_))
        · rfl
        · exact (alike_setFront queue type.symm).front
    | nullifyReq => exact written.nullify valid req.requester

lemma processWbRepFromL2Cache_keeps (sender : Fin n) (data : D) :
    Ensures (s.processWbRepFromL2Cache cfg sender a data) (Fine cfg) := by
  refine ((fine.kept a).getEntry valid).bind ?_
  rintro ⟨s₁, r, e⟩ ⟨⟨held, -⟩, -⟩
  refine (writtenBack_spec e sender).bind ?_
  rintro e' ⟨tracks, -, same⟩
  have held' := held.setEntry same
  dsimp only
  split
  · exact .error
  · rename_i req rest queue
    rw [held'.front.symm.trans (front_cons queue)] at held'
    refine .require fun type => ?_
    have other : req.type ≠ .nullifyReq := by simp [type]
    refine goOn_served valid (processShReqFromL2Cache_keeps req ?_) other
    rw [findOrAllocate, held'.lookup]
    exact .ok ⟨held', fun _ => ⟨tracks, fun none => absurd none (some_ne_none _)⟩⟩

end

/-! ## Messages -/

lemma Settled.enqueue (settled : s.Settled cfg) (a : IntPtr) (req : ShmemReq n D)
    (other : req.type ≠ .nullifyReq) : (s.enqueue a req).Settled cfg := by
  refine ⟨settled.sound, fun b => (settled.served b).trans ?_⟩
  by_cases here : b = a
  · rw [here, DirCntlr.enqueue, front_setQueue_self, front]
    cases s.queues a with
    | nil => exact iff_of_false (by simp) fun same => other (some.inj same)
    | cons first rest => exact Iff.rfl
  · rw [DirCntlr.enqueue, front_setQueue_other here]

lemma handleMsg_keeps (fine : s.Fine cfg) (m : DirMsg n D) :
    Ensures (s.handleMsg cfg m) (Fine cfg) := by
  have touched (a : LineAddress) : (s.lookup cfg a).1.Fine cfg :=
    ⟨lookup_settled fine.1 a.2, fun full => (fine.2 full).getDirectoryEntry a⟩
  cases m with
  | request type requester a =>
    have waiting := (touched a).1.enqueue a (.new type.val requester) type.2
    unfold handleMsg
    dsimp only
    split
    · next alone =>
      have idle : s.queues a = [] := by
        rw [enqueue, setQueue_self, length_append] at alone
        exact length_eq_zero_iff.mp (Nat.add_right_cancel alone)
      have first : ((s.lookup cfg a).1.enqueue a (.new type.val requester)).front a =
          some type.val := by
        rw [enqueue, front_setQueue_self, lookup_queues, idle]
        rfl
      exact goOn_served a.2 (processReq_keeps a.2 _ ⟨⟨waiting, first⟩, (touched a).2⟩) type.2
    · exact .ok ⟨waiting, (touched a).2⟩
  | invRep sender a => exact processInvRepFromL2Cache_keeps a.2 (touched a) sender
  | flushRep sender requester a data =>
    exact processFlushRepFromL2Cache_keeps a.2 (touched a) sender requester data
  | wbRep sender a data => exact processWbRepFromL2Cache_keeps a.2 (touched a) sender data
  | dramReadRep a data => exact processDRAMReply_keeps a.2 fine data

lemma run_keeps (cfg : DirConfig n D N) (replacementPtrs : Nat → Nat) (nuca : Option N)
    (ms : List (DirMsg n D)) :
    Ensures (ms.foldlM (handleMsg cfg) (new cfg replacementPtrs nuca)) (Fine cfg) :=
  Ensures.run (fun _ m fine => handleMsg_keeps fine m)
    ⟨new_settled cfg replacementPtrs nuca, fun _ => new_sane cfg replacementPtrs nuca⟩ ms

/-- In a full-map directory, after every sequence of messages that trips no
assertion, every entry is consistent, whatever the uninitialised memory held. -/
theorem entries_consistent (cfg : DirConfig n D N) (fullMap : cfg.maxHwSharers = n)
    (replacementPtrs : Nat → Nat) (nuca : Option N) (ms : List (DirMsg n D)) (s : DirCntlr n D N)
    (run : ms.foldlM (handleMsg cfg) (DirCntlr.new cfg replacementPtrs nuca) = .ok s) :
    s.directory.All (Consistent cfg.protocol) :=
  ((run_keeps cfg replacementPtrs nuca ms s run).2 fullMap).consistent

def singleEntry : DirConfig 2 Nat Unit where
  coreId := 0
  protocol := .mesif
  maxHwSharers := 2
  layout := ⟨1, 1, 6, fun _ => 17⟩
  nuca := ⟨fun u _ => (none, u), fun u _ _ _ => (none, u)⟩
  random := fun _ => 0

def contendedEntry : List (DirMsg 2 Nat) :=
  let x : LineAddress := ⟨0x40, by decide⟩
  let y : LineAddress := ⟨0x80, by decide⟩
  [.request ⟨.shReq, by decide⟩ 0 x, .dramReadRep x 7, .request ⟨.shReq, by decide⟩ 1 x,
    .wbRep 0 x 7, .request ⟨.exReq, by decide⟩ 1 y, .invRep 0 x, .invRep 1 x, .dramReadRep y 8]

theorem contendedEntry_consistent : ∃ s : DirCntlr 2 Nat Unit,
    contendedEntry.foldlM (handleMsg singleEntry) (DirCntlr.new singleEntry (fun _ => 0) none) =
      .ok s ∧ s.directory.All (Consistent .mesif) := by
  have succeeds : (contendedEntry.foldlM (handleMsg singleEntry)
      (new singleEntry (fun _ => 0) none)).toOption.map (fun _ => ()) = some () := by
    decide +kernel
  obtain ⟨s, run, -⟩ := exists_of_toOption succeeds
  exact ⟨s, run, entries_consistent singleEntry rfl (fun _ => 0) none _ s run⟩

lemma front_eq_some_iff {type : ReqType} :
    s.front a = some type ↔ ∃ req rest, s.queues a = req :: rest ∧ req.type = type := by
  constructor
  · intro served
    obtain ⟨req, first, rfl⟩ := map_eq_some_iff.mp served
    obtain ⟨rest, queue⟩ := head?_eq_some_iff.mp first
    exact ⟨req, rest, queue, rfl⟩
  · rintro ⟨req, rest, queue, rfl⟩
    exact front_cons queue

/-- For every shape of the directory, after every sequence of messages that trips no assertion: no
two used entries, in the slots or in the list of replaced entries, have the same address, and an
address is in that list exactly when the first request in its queue is one to nullify it. -/
theorem entries_unique_replaced_iff_nullified (cfg : DirConfig n D N)
    (replacementPtrs : Nat → Nat) (nuca : Option N) (ms : List (DirMsg n D)) (s : DirCntlr n D N)
    (run : ms.foldlM (handleMsg cfg) (DirCntlr.new cfg replacementPtrs nuca) = .ok s) :
    (∀ r r' e e', s.directory.get? r = some e → s.directory.get? r' = some e' →
      e.address ≠ invalidAddress → e.address = e'.address → r = r') ∧
    ∀ a, (∃ e ∈ s.directory.replaced, e.address = a) ↔
      ∃ req rest, s.queues a = req :: rest ∧ req.type = .nullifyReq := by
  have settled : s.Settled cfg := (run_keeps cfg replacementPtrs nuca ms s run).1
  refine ⟨fun r r' e e' found found' live same => settled.sound.unique found found' live same,
    fun a => ?_⟩
  rw [← front_eq_some_iff, ← settled.served a]
  exact mem_map.symm

/-- While both sharers of a line are asked to give it up, the line is in the list. -/
theorem replaced_while_nullified : ∃ s : DirCntlr 2 Nat Unit,
    (contendedEntry.take 5).foldlM (handleMsg singleEntry)
      (DirCntlr.new singleEntry (fun _ => 0) none) = .ok s ∧
    s.directory.replaced.map (·.address) = [0x40] ∧
    ∃ req rest, s.queues 0x40 = req :: rest ∧ req.type = .nullifyReq := by
  have computed : ((contendedEntry.take 5).foldlM (handleMsg singleEntry)
      (new singleEntry (fun _ => 0) none)).toOption.map
      (fun s => s.directory.replaced.map (·.address)) = some [0x40] := by decide +kernel
  obtain ⟨s, run, replaced⟩ := exists_of_toOption computed
  have listed : ∃ e ∈ s.directory.replaced, e.address = 0x40 :=
    mem_map.mp (replaced ▸ mem_singleton.mpr rfl)
  exact ⟨s, run, replaced, ((entries_unique_replaced_iff_nullified singleEntry (fun _ => 0) none _
    s run).2 0x40).mp listed⟩

end Sniper.DirCntlr
