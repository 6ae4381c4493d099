import Mathlib.Tactic.Abel

/-!
# Meters

A meter reads a moving quantity. It charges what the quantity has grown by since the meter was
last restarted, and remembers how much the quantity has grown while the meter should have run.
A running meter is even when what it has charged and what it would charge now make up that
growth; a resting meter is paid when it has charged all of it.
-/

structure Meter (G : Type*) where
  now : G
  start : G
  charged : G
  spent : G

namespace Meter

variable {G : Type*} [AddCommGroup G] {m : Meter G}

variable (m)

def charge : Meter G := { m with charged := m.charged + (m.now - m.start) }

def chargeTimes (k : ℕ) : Meter G :=
  { m with charged := m.charged + k • (m.now - m.start) }

def restart : Meter G := { m with start := m.now }

def advance (now : G) : Meter G :=
  { m with now, spent := m.spent + (now - m.now) }

def idle (now : G) : Meter G := { m with now }

def Even : Prop := m.charged + (m.now - m.start) = m.spent

def Paid : Prop := m.charged = m.spent

def Fresh : Prop := m.now = m.start

omit [AddCommGroup G] in
lemma restart_fresh : m.restart.Fresh := rfl

variable {m}

lemma Fresh.charge_eq (fresh : m.Fresh) : m.charge = m := by
  have nothing : m.now - m.start = 0 := sub_eq_zero.mpr fresh
  rw [charge, nothing, add_zero]

omit [AddCommGroup G] in
lemma Fresh.restart_eq (fresh : m.Fresh) : m.restart = m :=
  congrArg (fun start => { m with start }) fresh

lemma Fresh.even_iff (fresh : m.Fresh) : m.Even ↔ m.Paid := by
  have nothing : m.now - m.start = 0 := sub_eq_zero.mpr fresh
  rw [Even, nothing, add_zero, Paid]

lemma charge_paid : m.charge.Paid ↔ m.Even := Iff.rfl

lemma restart_even : m.restart.Even ↔ m.Paid := (restart_fresh m).even_iff

omit [AddCommGroup G] in
lemma idle_paid {now : G} : (m.idle now).Paid ↔ m.Paid := Iff.rfl

lemma advance_even {now : G} : (m.advance now).Even ↔ m.Even := by
  have grown : m.charged + (now - m.start) =
      m.charged + (m.now - m.start) + (now - m.now) := by abel
  rw [Even, Even]
  exact (congrArg (· = m.spent + (now - m.now)) grown).to_iff.trans (add_left_inj _)

lemma Even.paid_iff (even : m.Even) : m.Paid ↔ m.Fresh := by
  rw [Paid, Fresh, ← show m.charged + (m.now - m.start) = m.spent from even, left_eq_add,
    sub_eq_zero]

lemma chargeTimes_zero (m : Meter G) : m.chargeTimes 0 = m := by
  rw [chargeTimes, zero_nsmul, add_zero]

lemma chargeTimes_charge (m : Meter G) (k : ℕ) :
    m.charge.chargeTimes k = m.chargeTimes (k + 1) := by
  rw [chargeTimes, chargeTimes, charge, succ_nsmul', ← add_assoc]

lemma Fresh.chargeTimes_eq (fresh : m.Fresh) (k : ℕ) : m.chargeTimes k = m := by
  have nothing : m.now - m.start = 0 := sub_eq_zero.mpr fresh
  rw [chargeTimes, nothing, nsmul_zero, add_zero]

lemma Even.chargeTimes_paid [IsAddTorsionFree G] (even : m.Even) {k : ℕ} :
    (m.chargeTimes (k + 1)).Paid ↔ k = 0 ∨ m.Fresh := by
  rw [← chargeTimes_charge, chargeTimes, Paid]
  have once : m.charge.charged = m.charge.spent := even
  rw [once, add_eq_left, nsmul_eq_zero_iff, or_comm]
  exact or_congr Iff.rfl sub_eq_zero

end Meter
