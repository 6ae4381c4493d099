import Sniper.Cache.DataCache
import Sniper.Lib.Runs
import Sniper.Lib.Tables

/-!
# The DRAM cache

`DramCache` sits before the DRAM controller and holds lines that were read from it or are to be
written to it.

A line in state MODIFIED is written back when it is evicted. `insertLine` passes the buffer of the
line it inserts for this, and not the buffer that the evicted line was copied to. So the cache is
transparent exactly as long as every modified line that is evicted happens to have the bytes of the
line that takes its place.
-/

namespace Sniper.Dram

open Writeback Function Option Store DataCache

/-- `Cache::access_t`. -/
inductive Access where
  | load
  | store
  deriving DecidableEq, Repr

def Access.cstate : Access → CState
  | load => .shared
  | store => .modified

/-- The cache and the DRAM controller behind it, which keeps the bytes last written to an
address. `latest` is a history variable: the bytes of the latest write to a line. -/
structure DramCache (g : HomedGeometry) (D : Type*) where
  cache : DataCache g D
  dram : IntPtr → D
  latest : g.Line → D

namespace DramCache

variable {g : HomedGeometry} {D : Type*}

def insertLine (s : DramCache g D) (access : Access) (address : IntPtr) (dataBuf : D) :
    DramCache g D :=
  let inserted := s.cache.insertSingleLine address dataBuf
  let cache := inserted.1.setCState address access.cstate
  match inserted.2 with
  | none => { s with cache := cache }
  | some evicted =>
    -- the bytes written back are those of the new line
    if evicted.cstate = .modified then
      { s with cache := cache, dram := update s.dram evicted.address dataBuf }
    else { s with cache := cache }

/-- `doAccess` for a load: the bytes in the buffer at the end. -/
def getDataFromDram (s : DramCache g D) (address : IntPtr) : DramCache g D × D :=
  let loaded := s.cache.loadSingleLine address
  match loaded.2 with
  | some data => ({ s with cache := loaded.1 }, data)
  | none => (s.insertLine .load address (s.dram address), s.dram address)

/-- `doAccess` for a store. -/
def putDataToDram (s : DramCache g D) (address : IntPtr) (dataBuf : D) : DramCache g D :=
  match s.cache.peekSingleLine address with
  | some _ =>
    { s with cache := (s.cache.storeSingleLine address dataBuf).setCState address .modified }
  | none => s.insertLine .store address dataBuf

def new (g : HomedGeometry) (zero : D) (initial : IntPtr → D) : DramCache g D where
  cache := .new g zero
  dram := initial
  latest := fun line => initial line.address

end DramCache

inductive Event (g : HomedGeometry) (D : Type*) where
  | get (line : g.Line)
  | put (line : g.Line) (data : D)

variable {g : HomedGeometry} {D : Type*}

variable (s : DramCache g D)

def step : Event g D → DramCache g D
  | .get line => (s.getDataFromDram line.address).1
  | .put line data =>
    { s.putDataToDram line.address data with latest := update s.latest line data }

/-- Whatever line is read now, it has the bytes of the latest write. -/
def Transparent : Prop :=
  ∀ line : g.Line, (s.getDataFromDram line.address).2 = s.latest line

def inserts : Event g D → Option (g.Line × D)
  | .get line =>
    if s.cache.peekSingleLine line.address = none then some (line, s.dram line.address) else none
  | .put line data =>
    if s.cache.peekSingleLine line.address = none then some (line, data) else none

/-- A modified line that the call evicts has the bytes of the line it inserts. -/
def Preserving (event : Event g D) : Prop :=
  ∀ line data evicted, inserts s event = some (line, data) →
    (s.cache.insertSingleLine line.address data).2 = some evicted →
      evicted.cstate = .modified → evicted.data = data

/-! ## The cache as a write-back cache -/

def view (cached : CachedLine D) : Line D := ⟨decide (cached.cstate = .modified), cached.data⟩

def DramCache.store : Store g.Line D where
  cache := Option.map view ∘ s.cache.line
  memory := s.dram ∘ Geometry.Line.address

structure Sound (s : DramCache g D) : Prop where
  housed : s.cache.Housed
  clean : s.store.Clean
  latest : s.store.value = s.latest

section Steps

variable {s : DramCache g D} {line : g.Line} {data : D}

variable {cached : CachedLine D}

open DramCache

lemma get_hit (housed : s.cache.Housed)
    (held : s.cache.line line = some cached) : s.getDataFromDram line.address =
      ({ s with cache := (s.cache.loadSingleLine line.address).1 }, cached.data) := by
  obtain ⟨-, -, loaded⟩ := housed.load line
  rw [getDataFromDram, loaded, held, map_some]

lemma get_miss (housed : s.cache.Housed) (absent : s.cache.line line = none) :
    s.getDataFromDram line.address =
      (s.insertLine .load line.address (s.dram line.address), s.dram line.address) := by
  obtain ⟨-, -, loaded⟩ := housed.load line
  rw [getDataFromDram, loaded, absent, map_none]

lemma store_held (held : s.cache.line line = some cached) :
    s.store.cache line = some (view cached) :=
  congrArg (Option.map view) held

lemma store_absent (absent : s.cache.line line = none) : s.store.cache line = none :=
  congrArg (Option.map view) absent

lemma get_value (housed : s.cache.Housed) (line : g.Line) :
    (s.getDataFromDram line.address).2 = s.store.value line := by
  cases held : s.cache.line line with
  | some cached =>
    rw [get_hit housed held, value_of_cached (store_held held)]
    rfl
  | none =>
    rw [get_miss housed held, value_of_uncached (store_absent held)]
    rfl

lemma transparent_iff_value (housed : s.cache.Housed) :
    Transparent s ↔ s.store.value = s.latest := by
  rw [funext_iff]
  exact forall_congr' fun line => by rw [get_value housed]

lemma insertLine_store (housed : s.cache.Housed) (absent : s.cache.line line = none)
    (access : Access) (data : D) :
    (s.insertLine access line.address data).cache.Housed ∧
    (((s.cache.insertSingleLine line.address data).2 = none ∧
        (s.insertLine access line.address data).store =
          s.store.write line (view ⟨access.cstate, data⟩)) ∨
      ∃ (victim : g.Line) (cached : CachedLine D), victim ≠ line ∧
        s.cache.line victim = some cached ∧
        (s.cache.insertSingleLine line.address data).2 =
          some ⟨victim.address, cached.cstate, cached.data⟩ ∧
        (s.insertLine access line.address data).store =
          (s.store.evict victim (view cached) data).write line (view ⟨access.cstate, data⟩)) := by
  obtain ⟨after, kept | ⟨victim, cached, different, held, evicted, lines⟩⟩ :=
    housed.insert absent data
  · obtain ⟨none, lines⟩ := kept
    have filled : (s.cache.insertSingleLine line.address data).1.line line =
        some ⟨.invalid, data⟩ := by
      rw [lines, update_self]
    obtain ⟨marked, final⟩ := after.setCState filled access.cstate
    rw [insertLine, none]
    refine ⟨marked, .inl ⟨rfl, ?_⟩⟩
    rw [store, store, write, final, lines, update_idem, comp_update, map_some]
  · have filled : (s.cache.insertSingleLine line.address data).1.line line =
        some ⟨.invalid, data⟩ := by
      rw [lines, update_self]
    obtain ⟨marked, final⟩ := after.setCState filled access.cstate
    have cache : Option.map view ∘ ((s.cache.insertSingleLine line.address data).1.setCState
        line.address access.cstate).line = update (update
          (Option.map view ∘ s.cache.line) victim none) line
            (some (view ⟨access.cstate, data⟩)) := by
      rw [final, lines, update_idem, comp_update, comp_update, map_some, map_none]
    rw [insertLine, evicted]
    dsimp only
    split
    · next modified =>
      refine ⟨marked, .inr ⟨victim, cached, different, held, rfl, ?_⟩⟩
      have dirty : (view cached).dirty = true := decide_eq_true modified
      have memory : update s.dram victim.address data ∘ Geometry.Line.address =
          update (s.dram ∘ Geometry.Line.address) victim data :=
        update_comp_eq_of_injective s.dram Geometry.Line.address_injective victim data
      rw [store, store, write, evict, cache, if_pos dirty, memory]
    · next unmodified =>
      refine ⟨marked, .inr ⟨victim, cached, different, held, rfl, ?_⟩⟩
      have dirty : ¬ (view cached).dirty = true := by simpa [view] using unmodified
      rw [store, store, write, evict, cache, if_neg dirty]

lemma insertLine_latest (access : Access) (address : IntPtr) :
    (s.insertLine access address data).latest = s.latest := by
  rw [insertLine]
  split
  · rfl
  · split <;> rfl

/-- An insertion loses a value unless an evicted dirty line has the data of the new one. -/
lemma Sound.insertLine (sound : Sound s) (absent : s.cache.line line = none) (access : Access)
    (data : D) (clean : access = .load → data = s.dram line.address) :
    (s.insertLine access line.address data).cache.Housed ∧
    (s.insertLine access line.address data).store.Clean ∧
    ((s.insertLine access line.address data).store.value = update s.store.value line data ↔
      ∀ evicted, (s.cache.insertSingleLine line.address data).2 = some evicted →
        evicted.cstate = .modified → evicted.data = data) := by
  have agrees : (view ⟨access.cstate, data⟩).dirty = false → data = s.store.memory line := by
    cases access with
    | load => exact fun _ => clean rfl
    | store => rintro ⟨⟩
  obtain ⟨housed, ⟨none, store⟩ | ⟨victim, cached, different, held, evicted, store⟩⟩ :=
    insertLine_store sound.housed absent access data
  · rw [store, none]
    refine ⟨housed, sound.clean.write agrees, fun _ => by simp, fun _ => ?_⟩
    rw [value_write]
    rfl
  · rw [store, evicted]
    have other : (s.store.evict victim (view cached) data).memory line = s.store.memory line :=
      memory_evict_of_ne different.symm
    refine ⟨housed, (sound.clean.evict data).write fun kept => (agrees kept).trans other.symm, ?_⟩
    rw [value_write, value_evict sound.clean (store_held held)]
    have before : s.store.value victim = cached.data := value_of_cached (store_held held)
    constructor
    · rintro same _ ⟨⟩ modified
      have there := congrFun same victim
      rw [update_of_ne different, update_of_ne different, update_self, before] at there
      have dirty : (view cached).dirty = true := decide_eq_true modified
      rw [if_pos dirty] at there
      exact there.symm
    · intro preserving
      have kept : (if (view cached).dirty = true then data else (view cached).data) =
          s.store.value victim := by
        rw [before]
        split
        · next dirty => exact (preserving _ rfl (of_decide_eq_true dirty)).symm
        · rfl
      rw [kept, update_eq_self]
      rfl

variable {event : Event g D}

lemma preserving_of_hit (hit : inserts s event = none) : Preserving s event := by
  intro line data evicted inserted
  rw [hit] at inserted
  cases inserted

lemma preserving_of_miss (miss : inserts s event = some (line, data)) :
    Preserving s event ↔ ∀ evicted, (s.cache.insertSingleLine line.address data).2 =
      some evicted → evicted.cstate = .modified → evicted.data = data := by
  rw [Preserving, miss]
  constructor
  · exact fun preserving evicted => preserving line data evicted rfl
  · rintro preserving _ _ evicted ⟨⟩
    exact preserving evicted

lemma inserts_get_hit (held : s.cache.line line = some cached) : inserts s (.get line) = none := by
  obtain ⟨i, found, -⟩ := peek_of_line held
  simp [inserts, found]

lemma inserts_put_hit (held : s.cache.line line = some cached) :
    inserts s (.put line data) = none := by
  obtain ⟨i, found, -⟩ := peek_of_line held
  simp [inserts, found]

structure Settles (s : DramCache g D) (event : Event g D) : Prop where
  housed : (step s event).cache.Housed
  clean : (step s event).store.Clean
  latest : (step s event).store.value = (step s event).latest ↔ Preserving s event

lemma settles_get (sound : Sound s) (line : g.Line) : Settles s (.get line) := by
  cases held : s.cache.line line with
  | some cached =>
    obtain ⟨housed, lines, -⟩ := sound.housed.load line
    have after : step s (.get line) =
        { s with cache := (s.cache.loadSingleLine line.address).1 } := by
      rw [step, get_hit sound.housed held]
    have same : (step s (.get line)).store = s.store := by rw [after, store, store, lines]
    refine ⟨?_, ?_, ?_⟩
    · rw [after]
      exact housed
    · rw [same]
      exact sound.clean
    · rw [same, after]
      exact iff_of_true sound.latest (preserving_of_hit (inserts_get_hit held))
  | none =>
    obtain ⟨housed, clean, value⟩ := sound.insertLine held .load (s.dram line.address) fun _ => rfl
    have after : step s (.get line) = s.insertLine .load line.address (s.dram line.address) := by
      rw [step, get_miss sound.housed held]
    have read : s.store.value line = s.dram line.address := value_of_uncached (store_absent held)
    have miss : inserts s (.get line) = some (line, s.dram line.address) :=
      if_pos (peek_of_absent held)
    refine ⟨?_, ?_, ?_⟩
    · rw [after]
      exact housed
    · rw [after]
      exact clean
    · rw [← read, update_eq_self, read] at value
      rw [after, preserving_of_miss miss, ← value, sound.latest, insertLine_latest]

lemma settles_put (sound : Sound s) (line : g.Line) (data : D) : Settles s (.put line data) := by
  cases held : s.cache.line line with
  | some cached =>
    obtain ⟨stored, lines⟩ := sound.housed.store held data
    have written : (s.cache.storeSingleLine line.address data).line line =
        some ⟨cached.cstate, data⟩ := by
      rw [lines, update_self]
    obtain ⟨housed, final⟩ := stored.setCState written .modified
    obtain ⟨i, found, -⟩ := peek_of_line held
    have after : step s (.put line data) = {
        cache := (s.cache.storeSingleLine line.address data).setCState line.address .modified
        dram := s.dram
        latest := update s.latest line data } := by
      rw [step, putDataToDram, found]
    have store : (step s (.put line data)).store = s.store.write line (view ⟨.modified, data⟩) := by
      rw [after, DramCache.store, DramCache.store, write, final, lines,
        update_idem, comp_update, map_some]
    refine ⟨?_, ?_, ?_⟩
    · rw [after]
      exact housed
    · rw [store]
      exact sound.clean.write (by rintro ⟨⟩)
    · rw [store, value_write, sound.latest, after]
      exact iff_of_true rfl (preserving_of_hit (inserts_put_hit held))
  | none =>
    obtain ⟨housed, clean, value⟩ := sound.insertLine held .store data (by rintro ⟨⟩)
    have absent := peek_of_absent held
    have after : step s (.put line data) = { s.insertLine .store line.address data with
          latest := update s.latest line data } := by
      rw [step, putDataToDram, absent]
    have store : (step s (.put line data)).store =
        (s.insertLine .store line.address data).store := by
      rw [after, DramCache.store, DramCache.store]
    have miss : inserts s (.put line data) = some (line, data) := if_pos absent
    refine ⟨?_, ?_, ?_⟩
    · rw [after]
      exact housed
    · rw [store]
      exact clean
    · rw [preserving_of_miss miss, ← value, store, after, sound.latest]

lemma settles (sound : Sound s) (event : Event g D) : Settles s event := by
  cases event with
  | get line => exact settles_get sound line
  | put line data => exact settles_put sound line data

end Steps

lemma new_absent (zero : D) (initial : IntPtr → D) (line : g.Line) :
    (DramCache.new g zero initial).store.cache line = none :=
  congrArg (Option.map view) (new_line g zero line)

lemma new_sound (zero : D) (initial : IntPtr → D) : Sound (DramCache.new g zero initial) where
  housed := new_housed g zero
  clean line found cached := by
    rw [new_absent] at cached
    cases cached
  latest := funext fun line => value_of_uncached (new_absent zero initial line)

/-- Over every sequence of calls, a read at any time returns the bytes of the latest write, or the
initial bytes, exactly as long as every modified line that is evicted has the bytes of the line
that takes its place. -/
theorem transparent_iff_preserving (g : HomedGeometry) (zero : D) (initial : IntPtr → D)
    (events : List (Event g D)) :
    Runs.Throughout step Transparent (DramCache.new g zero initial) events ↔
      Runs.Guarded step Preserving (DramCache.new g zero initial) events := by
  refine Runs.throughout_iff_guarded (I := Sound) ?_ ?_ ?_ (new_sound zero initial) events
  · intro s event sound preserving
    obtain ⟨housed, clean, latest⟩ := settles sound event
    exact ⟨housed, clean, latest.mpr preserving⟩
  · exact fun s sound => (transparent_iff_value sound.housed).mpr sound.latest
  · intro s event sound loses transparent
    obtain ⟨housed, -, latest⟩ := settles sound event
    exact loses (latest.mp ((transparent_iff_value housed).mp transparent))

/-- A line is written and then evicted by the write of another one, whose bytes it is read with
from then on. -/
theorem oneLine_overwritten :
    let s := Runs.run step (.new oneLine 0#256 fun _ => 0#256)
      [.put firstLine 1#256, .put secondLine 2#256]
    s.latest firstLine = 1#256 ∧ (s.getDataFromDram firstLine.address).2 = 2#256 ∧
      ¬ Transparent s := by
  refine ⟨by decide +kernel, by decide +kernel, fun transparent => ?_⟩
  exact absurd (transparent firstLine) (by decide +kernel)

end Sniper.Dram
