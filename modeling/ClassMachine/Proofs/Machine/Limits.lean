import Mathlib.Data.ENat.Lattice
import Mathlib.Data.Nat.ModEq
import ClassMachine.Proofs.Machine.Steps

/-! What the budget and the cancellation do to a run. As long as neither of them is due, a run
does what it does without limits (`run_eq_unlimited`); the one that is due first stops it. -/
namespace ClassMachine.Machine

def Setting.unlimited (setting : Setting) : Setting :=
  { setting with limits := { setting.limits with budget := 0, cancelAfter := none } }

namespace Limits

def allowance (l : Limits) : ℕ∞ := if 0 < l.budget then (l.budget.toNat : ℕ∞) else ⊤

/-- The number of instructions after which a run is found cancelled. -/
def patience (l : Limits) : ℕ∞ :=
  match l.cancelAfter with
  | some n => ((n * l.every : ℕ) : ℕ∞)
  | none => ⊤

variable (l : Limits) (n : Nat)

theorem every_pos : 0 < l.every := by
  rw [every]
  by_cases h : l.interval < 1
  · simp [h]
  · rw [if_neg h]
    omega

theorem exhausted_iff : l.exhausted n ↔ l.allowance ≤ n := by
  by_cases h : 0 < l.budget
  · simp only [exhausted, allowance, h, if_true, true_and, Nat.cast_le]
    omega
  · simp [exhausted, allowance, h]

/-- The number of looks for a cancellation that are made before instruction `n`. -/
def looksBefore : Nat := (n + (l.every - 1)) / l.every

theorem looksBefore_zero : l.looksBefore 0 = 0 := by
  have := l.every_pos
  rw [looksBefore, Nat.div_eq_of_lt]
  omega

theorem looksBefore_succ :
    l.looksBefore (n + 1) = l.looksBefore n + if n % l.every = 0 then 1 else 0 := by
  have hpos := l.every_pos
  have hsum : n + 1 + (l.every - 1) = n + (l.every - 1) + 1 := by omega
  have hback : n + (l.every - 1) + 1 = n + l.every := by omega
  rw [looksBefore, looksBefore, hsum, Nat.succ_div, hback]
  simp only [Nat.dvd_iff_mod_eq_zero, Nat.add_mod_right]

theorem looksBefore_of_mod (h : n % l.every = 0) : l.looksBefore n = n / l.every := by
  have hpos := l.every_pos
  obtain ⟨q, rfl⟩ := Nat.dvd_of_mod_eq_zero h
  rw [looksBefore, Nat.mul_add_div hpos, Nat.mul_div_cancel_left q hpos,
    Nat.div_eq_of_lt (by omega), Nat.add_zero]

theorem cancelled_iff (h : n % l.every = 0) :
    l.cancelled (l.looksBefore n) = true ↔ l.patience ≤ n := by
  rw [looksBefore_of_mod l n h, cancelled, patience]
  cases l.cancelAfter with
  | none => simp
  | some k => simp only [decide_eq_true_eq, Nat.le_div_iff_mul_le l.every_pos, Nat.cast_le]

theorem mod_of_patience (h : l.patience = n) : n % l.every = 0 := by
  rw [patience] at h
  cases hc : l.cancelAfter with
  | none => simp [hc] at h
  | some k =>
    simp only [hc, Nat.cast_inj] at h
    rw [← h]
    exact Nat.mul_mod_left k l.every

end Limits

variable (setting : Setting) (s : State)

noncomputable def State.duration : ℕ∞ := ⨅ (n : ℕ) (_ : (s.run setting n).2 ≠ none), (n : ℕ∞)

theorem run_ended {m n : Nat} (hmn : m ≤ n) (h : (s.run setting m).2 ≠ none) :
    s.run setting n = s.run setting m := by
  obtain ⟨k, rfl⟩ := Nat.exists_eq_add_of_le hmn
  rw [run_add]
  cases hrun : s.run setting m with
  | mk t o =>
    cases o with
    | none => simp [hrun] at h
    | some out => rfl

theorem lt_duration_iff (n : Nat) : (n : ℕ∞) < s.duration setting ↔ (s.run setting n).2 = none := by
  constructor
  · intro h
    by_contra hend
    exact absurd (iInf₂_le n hend) (not_le.2 h)
  · intro h
    have hle : ((n + 1 : ℕ) : ℕ∞) ≤ s.duration setting := by
      refine le_iInf₂ fun m hm => ?_
      by_contra hlt
      have hmn : m ≤ n := by
        rw [not_le, Nat.cast_lt] at hlt
        omega
      rw [run_ended setting s hmn hm] at h
      exact hm h
    exact lt_of_lt_of_le (Nat.cast_lt.2 (Nat.lt_succ_self n)) hle

structure State.Counted (n : Nat) : Prop where
  executed : s.executed = n
  looks : s.looks = setting.limits.looksBefore n

theorem look_advance_counted {n : Nat} (h : s.Counted setting n)
    (hgoes : ((s.look setting).advance setting).2 = none) :
    ((s.look setting).advance setting).1.Counted setting (n + 1) where
  executed := by
    rw [advance_executed setting _ hgoes]
    exact congrArg (· + 1) h.executed
  looks := by
    rw [advance_looks, Limits.looksBefore_succ, ← h.looks, ← h.executed]
    rfl

/-- A round whose number no limit has reached is the round of a run without limits. -/
theorem round_counted {n : Nat} (h : s.Counted setting n)
    (hn : (n : ℕ∞) < min setting.limits.allowance setting.limits.patience) :
    s.round setting = (s.look setting).advance setting := by
  obtain ⟨hallow, hpatience⟩ := lt_min_iff.1 hn
  rcases round_cases setting s with ⟨hb, -⟩ | ⟨-, he, hc, -⟩ | ⟨-, -, hr⟩
  · rw [h.executed, Limits.exhausted_iff] at hb
    exact absurd hb (not_le.2 hallow)
  · rw [h.executed] at he
    rw [h.looks, Limits.cancelled_iff _ _ he] at hc
    exact absurd hc (not_le.2 hpatience)
  · exact hr

theorem round_unlimited : s.round setting.unlimited = (s.look setting).advance setting := by
  rcases round_cases setting.unlimited s with ⟨hb, -⟩ | ⟨-, -, hc, -⟩ | ⟨-, -, hr⟩
  · exact absurd hb.1 (Int.lt_irrefl 0)
  · cases hc
  · exact hr

/-- Until a limit is due, a run is the run without limits, and its counters are the number of the
instructions and of the looks. -/
theorem run_eq_unlimited {n : Nat} (hs : s.Counted setting 0)
    (hn : (n : ℕ∞) ≤ min setting.limits.allowance setting.limits.patience) :
    s.run setting n = s.run setting.unlimited n ∧
      ∀ t, s.run setting n = (t, none) → t.Counted setting n := by
  induction n with
  | zero =>
    refine ⟨rfl, fun t ht => ?_⟩
    cases ht
    exact hs
  | succ n ih =>
    have hlt : (n : ℕ∞) < min setting.limits.allowance setting.limits.patience :=
      lt_of_lt_of_le (Nat.cast_lt.2 (Nat.lt_succ_self n)) hn
    obtain ⟨heq, hcounted⟩ := ih hlt.le
    rw [run_succ, run_succ, ← heq]
    cases hrun : s.run setting n with
    | mk u o =>
      cases o with
      | some out => exact ⟨rfl, fun t ht => by cases ht⟩
      | none =>
        have hu := hcounted u hrun
        dsimp only
        rw [round_counted setting u hu hlt, round_unlimited setting u]
        refine ⟨rfl, fun t ht => ?_⟩
        have hgoes := look_advance_counted setting u hu
        rw [ht] at hgoes
        exact hgoes rfl

theorem run_eq_of_duration_le (hs : s.Counted setting 0)
    (h : s.duration setting.unlimited ≤ min setting.limits.allowance setting.limits.patience)
    (n : Nat) : s.run setting n = s.run setting.unlimited n := by
  by_cases hn : (n : ℕ∞) ≤ min setting.limits.allowance setting.limits.patience
  · exact (run_eq_unlimited setting s hs hn).1
  · have hlt : s.duration setting.unlimited < n := lt_of_le_of_lt h (not_le.1 hn)
    obtain ⟨m, hm⟩ := ENat.ne_top_iff_exists.1 (ne_top_of_lt hlt)
    have hmn : m ≤ n := by
      rw [← hm, Nat.cast_lt] at hlt
      exact hlt.le
    have hend : (s.run setting.unlimited m).2 ≠ none := by
      rw [ne_eq, ← lt_duration_iff, ← hm]
      exact lt_irrefl _
    have heq := (run_eq_unlimited setting s hs (hm ▸ h)).1
    rw [run_ended setting.unlimited s hmn hend, run_ended setting s hmn (heq ▸ hend), heq]

theorem round_due {n : Nat} (h : s.Counted setting n)
    (hn : n = min setting.limits.allowance setting.limits.patience) :
    (setting.limits.allowance ≤ setting.limits.patience ∧ s.round setting =
      (s, some (.stopped (.budget setting.limits.budget s.frame.pc)))) ∨
    (setting.limits.patience < setting.limits.allowance ∧
      s.round setting = (s.look setting, some (.stopped .cancelled))) := by
  rcases le_or_gt setting.limits.allowance setting.limits.patience with hle | hlt
  · refine Or.inl ⟨hle, ?_⟩
    have hb : setting.limits.exhausted s.executed := by
      rw [h.executed, Limits.exhausted_iff, hn, min_eq_left hle]
    rw [round_eq, if_pos hb]
  · refine Or.inr ⟨hlt, ?_⟩
    rw [min_eq_right hlt.le] at hn
    have hmod := setting.limits.mod_of_patience n hn.symm
    rcases round_cases setting s with ⟨hb, -⟩ | ⟨-, -, -, hr⟩ | ⟨-, hno, -⟩
    · rw [h.executed, Limits.exhausted_iff, hn] at hb
      exact absurd hb (not_le.2 hlt)
    · exact hr
    · refine absurd ⟨h.executed ▸ hmod, ?_⟩ hno
      rw [h.looks, Limits.cancelled_iff _ _ hmod, hn]

/-- A run that does not end before a limit is due is stopped there, and nowhere else. -/
theorem run_stopped (hs : s.Counted setting 0)
    (h : min setting.limits.allowance setting.limits.patience < s.duration setting.unlimited) :
    ∃ (n : Nat) (t : State), n = min setting.limits.allowance setting.limits.patience ∧
      s.run setting.unlimited n = (t, none) ∧ t.executed = n ∧
      (∀ r ≤ n, s.run setting r = s.run setting.unlimited r) ∧
      (setting.limits.allowance ≤ setting.limits.patience → ∀ r, n < r → s.run setting r =
        (t, some (.stopped (.budget setting.limits.budget t.frame.pc)))) ∧
      (setting.limits.patience < setting.limits.allowance → ∀ r, n < r → s.run setting r =
        (t.look setting, some (.stopped .cancelled))) := by
  obtain ⟨n, hn⟩ := ENat.ne_top_iff_exists.1 (ne_top_of_lt h)
  have hnone : (s.run setting.unlimited n).2 = none := by
    rw [← lt_duration_iff, hn]
    exact h
  obtain ⟨heq, hcounted⟩ := run_eq_unlimited setting s hs hn.le
  cases hfree : s.run setting.unlimited n with
  | mk t o =>
    rw [hfree] at hnone heq
    dsimp only at hnone
    subst hnone
    have ht := hcounted t heq
    -- the round after the last common one decides, and the run stays as that round leaves it
    have hafter {last : State × Option Outcome} (hround : t.round setting = last)
        (hlast : last.2 ≠ none) (r : Nat) (hr : n < r) : s.run setting r = last := by
      have hsucc : s.run setting (n + 1) = last := by
        rw [run_succ, heq]
        exact hround
      rw [run_ended setting s hr (hsucc ▸ hlast), hsucc]
    refine ⟨n, t, hn, hfree, ht.executed, ?_, ?_, ?_⟩
    · intro r hr
      exact (run_eq_unlimited setting s hs (le_trans (Nat.cast_le.2 hr) hn.le)).1
    · intro hle
      rcases round_due setting t ht hn with ⟨-, hround⟩ | ⟨hlt, -⟩
      · exact hafter hround (by simp)
      · exact absurd hle (not_le.2 hlt)
    · intro hlt
      rcases round_due setting t ht hn with ⟨hle, -⟩ | ⟨-, hround⟩
      · exact absurd hle (not_le.2 hlt)
      · exact hafter hround (by simp)

theorem run_executed_le (hb : 0 < setting.limits.budget) (hs : s.executed ≤ setting.limits.budget)
    (n : Nat) : (s.run setting n).1.executed ≤ setting.limits.budget := by
  induction n generalizing s with
  | zero => exact hs
  | succ n ih =>
    have hround : (s.round setting).1.executed ≤ setting.limits.budget := by
      rcases round_cases setting s with ⟨-, hr⟩ | ⟨-, -, -, hr⟩ | ⟨hno, -, hr⟩
      · rw [hr]
        exact hs
      · rw [hr]
        exact hs
      · have hle := advance_executed_le setting (s.look setting)
        have hlook : (s.look setting).executed = s.executed := rfl
        simp only [Limits.exhausted, hb, true_and] at hno
        rw [hr]
        omega
    rw [run_first]
    cases hr : s.round setting with
    | mk t o =>
      rw [hr] at hround
      cases o with
      | none => exact ih t hround
      | some out => exact hround

theorem run_rounds_ends (hs : s.Counted setting 0) (hb : 0 < setting.limits.budget) :
    (s.run setting setting.limits.rounds).2 ≠ none := by
  have hallow : setting.limits.allowance = setting.limits.budget.toNat := if_pos hb
  have hrounds : setting.limits.rounds = setting.limits.budget.toNat + 1 := if_pos hb
  rcases le_or_gt (s.duration setting.unlimited)
    (min setting.limits.allowance setting.limits.patience) with hle | hlt
  · rw [run_eq_of_duration_le setting s hs hle, ne_eq, ← lt_duration_iff, not_lt, hrounds]
    refine le_trans hle (le_trans (min_le_left _ _) ?_)
    rw [hallow]
    exact Nat.cast_le.2 (Nat.le_succ _)
  · obtain ⟨n, t, hn, -, -, -, hbudget, hcancel⟩ := run_stopped setting s hs hlt
    have hlt : n < setting.limits.rounds := by
      have hle : (n : ℕ∞) ≤ setting.limits.budget.toNat := by
        rw [hn, ← hallow]
        exact min_le_left _ _
      rw [hrounds]
      exact Nat.lt_succ_of_le (Nat.cast_le.1 hle)
    rcases le_or_gt setting.limits.allowance setting.limits.patience with hle | hgt
    · rw [hbudget hle _ hlt]
      simp
    · rw [hcancel hgt _ hlt]
      simp

/-- A run that ends before a limit is due is the run without limits. Any other run is that run up to
the instruction where the first limit is due, and is stopped there. -/
theorem run_with_limits (setting : Setting) (frame : Frame) (store : Store) :
    let s : State := { frame, store }
    let free := setting.unlimited
    let budget := setting.limits.allowance
    let cancel := setting.limits.patience
    (s.duration free ≤ min budget cancel → ∀ n, s.run setting n = s.run free n) ∧
    (min budget cancel < s.duration free →
      ∃ (n : Nat) (t : State), n = min budget cancel ∧ s.run free n = (t, none) ∧ t.executed = n ∧
        (∀ r ≤ n, s.run setting r = s.run free r) ∧
        (budget ≤ cancel → ∀ r, n < r →
          s.run setting r = (t, some (.stopped (.budget setting.limits.budget t.frame.pc)))) ∧
        (cancel < budget → ∀ r, n < r →
          s.run setting r = (t.look setting, some (.stopped .cancelled)))) ∧
    (0 < setting.limits.budget → (∀ n, (s.run setting n).1.executed ≤ setting.limits.budget) ∧
      (s.run setting setting.limits.rounds).2 ≠ none) := by
  intro s free budget cancel
  have hs : s.Counted setting 0 := ⟨rfl, setting.limits.looksBefore_zero.symm⟩
  refine ⟨run_eq_of_duration_le setting s hs, run_stopped setting s hs, fun hb => ⟨?_, ?_⟩⟩
  · exact run_executed_le setting s hb (Int.le_of_lt hb)
  · exact run_rounds_ends setting s hs hb

def spin : Frame := { code := [0xA7, 0x00, 0x00] }

/-- Every second instruction there is a look for a cancellation, and the third one finds it. -/
def spinSetting : Setting := { limits := { budget := 5, interval := 2, cancelAfter := some 2 } }

theorem spin_cancelled :
    min spinSetting.limits.allowance spinSetting.limits.patience <
      State.duration spinSetting.unlimited { frame := spin, store := {} } ∧
    ∃ t : State, State.run spinSetting.unlimited 4 { frame := spin, store := {} } = (t, none) ∧
      State.run spinSetting 5 { frame := spin, store := {} } =
        (t.look spinSetting, some (.stopped .cancelled)) := by
  have hallow : spinSetting.limits.allowance = (5 : ℕ) := rfl
  have hpatience : spinSetting.limits.patience = (4 : ℕ) := rfl
  have hlt : spinSetting.limits.patience < spinSetting.limits.allowance := by
    rw [hallow, hpatience]
    exact Nat.cast_lt.2 (by decide)
  have hmin : min spinSetting.limits.allowance spinSetting.limits.patience = (4 : ℕ) := by
    rw [min_eq_right hlt.le, hpatience]
  have hgoes : min spinSetting.limits.allowance spinSetting.limits.patience <
      State.duration spinSetting.unlimited { frame := spin, store := {} } := by
    rw [hmin, lt_duration_iff]
    rfl
  obtain ⟨n, t, hn, hfree, -, -, -, hcancel⟩ :=
    (run_with_limits spinSetting spin {}).2.1 hgoes
  obtain rfl : n = 4 := Nat.cast_inj.1 (hn.trans hmin)
  exact ⟨hgoes, t, hfree, hcancel hlt 5 (by decide)⟩

end ClassMachine.Machine
