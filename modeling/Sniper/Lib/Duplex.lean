import Sniper.Lib.ByteStream

/-!
# Two parties and two byte channels

Each party is a state machine that writes to its outgoing channel and blocks on its
incoming one. Nothing is said about their relative speed: a schedule is any list of
the sides that take the next step. A step of one side neither disables nor changes a
step of the other, so that one schedule which brings the network to rest decides what
every schedule does.
-/

/-! ## Steps that commute -/

namespace Schedule

open Option

variable {S L : Type} (step : S → L → Option S)

/-- Take the steps of a schedule; all of them have to be possible. -/
def run : S → List L → Option S
  | s, [] => some s
  | s, i :: is => (step s i).bind fun t => run t is

def Resting (s : S) : Prop := ∀ i, step s i = none

/-- Whatever is scheduled, the system comes to rest in `final`. -/
def Settles (start final : S) : Prop :=
  Resting step final ∧ ∃ n, ∀ is s, run step start is = some s →
    ∃ rest, run step s rest = some final ∧ is.length + rest.length = n

variable {step} {s t u : S} {is js : List L}

lemma run_cons {i : L} (first : step s i = some t) : run step s (i :: is) = run step t is := by
  rw [run, first]
  rfl

lemma run_append (first : run step s is = some t) : run step s (is ++ js) = run step t js := by
  induction is generalizing s with
  | nil =>
    cases first
    rfl
  | cons i is ih =>
    obtain ⟨r, next, first⟩ := bind_eq_some_iff.mp first
    rw [List.cons_append, run_cons next]
    exact ih first

lemma Settles.never {P : S → Prop} (settles : Settles step s u)
    (lasting : ∀ a i b, step a i = some b → P a → P b) (final : ¬ P u)
    (reached : run step s is = some t) : ¬ P t := by
  obtain ⟨-, n, onward⟩ := settles
  obtain ⟨rest, way, -⟩ := onward is t reached
  intro now
  have later : ∀ rest t, P t → run step t rest = some u → P u := by
    intro rest
    induction rest with
    | nil =>
      intro t now way
      cases way
      exact now
    | cons i rest ih =>
      intro t now way
      obtain ⟨r, next, way⟩ := bind_eq_some_iff.mp way
      exact ih r (lasting t i r next now) way
  exact final (later rest t now way)

end Schedule

/-! ## The network -/

namespace Duplex

open ByteStream Schedule

inductive Act (ε σ : Type) where
  | halt
  | send (bytes : List Byte) (next : σ)
  | receive (p : StreamReader ε σ)

structure System (ε σ τ : Type) where
  short : ε
  left : σ → Act ε σ
  right : τ → Act ε τ

structure Net (ε σ τ : Type) where
  left : Except ε σ
  right : Except ε τ
  toRight : List Byte
  toLeft : List Byte

inductive Side where
  | left
  | right
  deriving DecidableEq

variable {ε σ τ : Type} [DecidableEq ε]

def advance (short : ε) (act : σ → Act ε σ) (s : Except ε σ) (inbox : List Byte) :
    Option (Except ε σ × List Byte × List Byte) :=
  match s with
  | .error _ => none
  | .ok s =>
    match act s with
    | .halt => none
    | .send bytes next => some (.ok next, inbox, bytes)
    | .receive p =>
      match p.run inbox with
      | .ok (next, rest) => some (.ok next, rest, [])
      | .error e => if e = short then none else some (.error e, inbox, [])

namespace System

variable (sys : System ε σ τ)

def step (n : Net ε σ τ) : Side → Option (Net ε σ τ)
  | .left => (advance sys.short sys.left n.left n.toLeft).map fun (s, rest, sent) =>
      ⟨s, n.right, n.toRight ++ sent, rest⟩
  | .right => (advance sys.short sys.right n.right n.toRight).map fun (s, rest, sent) =>
      ⟨n.left, s, rest, n.toLeft ++ sent⟩

structure Steady : Prop where
  left : ∀ s p, sys.left s = .receive p → ByteStream.Steady sys.short p
  right : ∀ s p, sys.right s = .receive p → ByteStream.Steady sys.short p

end System

def Leads (sys : System ε σ τ) (a b : Net ε σ τ) : Prop :=
  ∃ is, run sys.step a is = some b

variable {sys : System ε σ τ} {a b c : Net ε σ τ} {s s' : σ} {t t' : τ} {r : Except ε τ}
  {l : Except ε σ} {toRight toLeft bytes : List Byte}

lemma Leads.refl (a : Net ε σ τ) : Leads sys a a := ⟨[], rfl⟩

lemma Leads.trans (first : Leads sys a b) (second : Leads sys b c) : Leads sys a c := by
  obtain ⟨is, way⟩ := first
  obtain ⟨js, onward⟩ := second
  exact ⟨is ++ js, (run_append way).trans onward⟩

lemma Leads.step {i : Side} (moved : sys.step a i = some b) : Leads sys a b := ⟨[i], run_cons moved⟩

variable {p : StreamReader ε σ}

variable {e : ε}

def Net.Failed (n : Net ε σ τ) : Prop := (∃ e, n.left = .error e) ∨ ∃ e, n.right = .error e

end Duplex
