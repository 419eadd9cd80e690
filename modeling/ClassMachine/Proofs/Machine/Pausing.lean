import ClassMachine.Proofs.Machine.Limits

/-! Pausing and resuming. A run with a budget is a number of steps of the frame and the store
(`exec_of_steps`), and nothing else carries over from one step to the next. So a run that its
budget stops can be resumed, and the parts together are the run with the sum of the budgets. -/
namespace ClassMachine.Machine

@[ext]
structure Ending where
  activation : Activation
  outcome : Option Outcome
  executed : Nat

def Setting.budgeted (setting : Setting) (budget : Nat) : Setting :=
  { setting with limits := { setting.limits with budget, cancelAfter := none } }

def Activation.exec (setting : Setting) (budget : Nat) (a : Activation) : Ending :=
  let (t, outcome) := State.run (setting.budgeted budget) (budget + 1)
    { frame := a.frame, store := a.store }
  { activation := t.activation, outcome, executed := t.executed }

/-- Runs a frame with one budget after another, as long as each of them is used up, and adds up
the instructions. -/
def Activation.relay (setting : Setting) : Nat → List Nat → Activation → Ending
  | budget, [], a => a.exec setting budget
  | budget, next :: budgets, a =>
    let part := a.exec setting budget
    match part.outcome with
    | some (.stopped (.budget _ _)) =>
      let rest := part.activation.relay setting next budgets
      { rest with executed := part.executed + rest.executed }
    | _ => part

def Outcome.relimit (limit : Nat) : Outcome → Outcome
  | .stopped (.budget _ pc) => .stopped (.budget limit pc)
  | outcome => outcome

def Ending.relimit (limit : Nat) (e : Ending) : Ending :=
  { e with outcome := e.outcome.map (Outcome.relimit limit) }

def Activation.steps (program : Program) : Nat → Activation → Activation × Option Outcome
  | 0, a => (a, none)
  | n + 1, a =>
    match a.step program with
    | (b, none) => b.steps program n
    | ended => ended

section Steps
variable {program : Program} {a b : Activation} {out : Outcome}

theorem steps_add (m n : Nat) (a : Activation) : a.steps program (m + n) =
    match a.steps program m with
    | (b, none) => b.steps program n
    | ended => ended := by
  induction m generalizing a with
  | zero => simp [Activation.steps]
  | succ m ih =>
    rw [Nat.succ_add, Activation.steps, Activation.steps]
    cases a.step program with
    | mk b o =>
      cases o with
      | none => exact ih b
      | some out => rfl

theorem step_not_limited (h : a.step program = (b, some out)) : ¬ out.Limited := by
  have hstep := h ▸ a.step_cases program
  cases hstep with
  | stuck | done | fault => exact id

theorem steps_not_limited {n : Nat} (h : a.steps program n = (b, some out)) : ¬ out.Limited := by
  induction n generalizing a with
  | zero => cases h
  | succ n ih =>
    rw [Activation.steps] at h
    cases hstep : a.step program with
    | mk c o =>
      rw [hstep] at h
      cases o with
      | none => exact ih h
      | some out' =>
        cases h
        exact step_not_limited hstep

theorem relimit_of_not_limited (limit : Nat) (h : ¬ out.Limited) : out.relimit limit = out := by
  cases out with
  | returned v => rfl
  | stopped reason =>
    cases reason with
    | budget _ _ => exact absurd trivial h
    | _ => rfl

end Steps

variable (setting : Setting)

theorem run_unlimited_steps (n : Nat) (s : State) :
    ((s.run setting.unlimited n).1.activation, (s.run setting.unlimited n).2) =
      s.activation.steps setting.program n := by
  induction n generalizing s with
  | zero => rfl
  | succ n ih =>
    have hstep := advance_step setting (s.look setting)
    rw [run_first, Activation.steps, round_unlimited]
    change s.activation.step setting.program = _ at hstep
    rw [hstep]
    cases (s.look setting).advance setting with
    | mk t o =>
      cases o with
      | none => exact ih t
      | some out => rfl

theorem run_counters (n : Nat) (s : State) : (s.run setting n).1.executed + s.frame.executed =
    s.executed + (s.run setting n).1.frame.executed := by
  induction n generalizing s with
  | zero => rfl
  | succ n ih =>
    have hround : (s.round setting).1.executed + s.frame.executed =
        s.executed + (s.round setting).1.frame.executed := by
      rcases round_cases setting s with ⟨-, hr⟩ | ⟨-, -, -, hr⟩ | ⟨-, -, hr⟩
      · rw [hr]
      · rw [hr]
        rfl
      · rw [hr]
        exact advance_counters setting (s.look setting)
    rw [run_first]
    cases hr : s.round setting with
    | mk t o =>
      rw [hr] at hround
      cases o with
      | none =>
        have hrest := ih t
        dsimp only at hround ⊢
        omega
      | some out => exact hround

variable {k : Nat} {a b : Activation}

/-- A run with a budget of `k` is `k` steps; if there is more to do, the budget stops it. -/
theorem exec_of_steps {o : Option Outcome} (hk : 0 < k)
    (h : a.steps setting.program k = (b, o)) : (a.exec setting k).activation = b ∧
      (a.exec setting k).outcome = some (o.getD (.stopped (.budget k b.frame.pc))) := by
  let s : State := { frame := a.frame, store := a.store }
  have hs : s.Counted (setting.budgeted k) 0 :=
    ⟨rfl, (setting.budgeted k).limits.looksBefore_zero.symm⟩
  have hallow : (setting.budgeted k).limits.allowance = k := if_pos (Int.natCast_pos.2 hk)
  have hdue : k = min (setting.budgeted k).limits.allowance
      (setting.budgeted k).limits.patience := by
    rw [hallow]
    exact (min_eq_left le_top).symm
  obtain ⟨hfree, hcounted⟩ := run_eq_unlimited (setting.budgeted k) s hs hdue.le
  have hsteps := run_unlimited_steps (setting.budgeted k) k s
  rw [← hfree] at hsteps
  cases hrun : s.run (setting.budgeted k) k with
  | mk t o' =>
    rw [hrun] at hsteps
    obtain ⟨rfl, rfl⟩ := Prod.mk.inj (hsteps.trans h)
    -- one more round finds the budget used up, unless the run has come to an end before
    have hlast : s.run (setting.budgeted k) (k + 1) =
        (t, some (o'.getD (.stopped (.budget k t.frame.pc)))) := by
      rw [run_succ, hrun]
      cases o' with
      | some out => rfl
      | none =>
        rcases round_due (setting.budgeted k) t (hcounted t hrun) hdue with ⟨-, hr⟩ | ⟨hlt, -⟩
        · exact hr
        · exact absurd hlt (not_lt.2 (hallow ▸ le_top))
    refine ⟨?_, ?_⟩
    · rw [Activation.exec, hlast]
    · rw [Activation.exec, hlast]
      rfl

theorem exec_executed (k : Nat) (a : Activation) : (a.exec setting k).executed + a.frame.executed =
    (a.exec setting k).activation.frame.executed := by
  have h := run_counters (setting.budgeted k) (k + 1) { frame := a.frame, store := a.store }
  rw [Nat.zero_add] at h
  exact h

theorem exec_add_of_ended {out : Outcome} (m : Nat) (hk : 0 < k)
    (h : a.steps setting.program k = (b, some out)) :
    a.exec setting (k + m) = a.exec setting k := by
  have hmore : a.steps setting.program (k + m) = (b, some out) := by rw [steps_add, h]
  obtain ⟨ha, ho⟩ := exec_of_steps setting hk h
  obtain ⟨ha', ho'⟩ := exec_of_steps setting (by omega) hmore
  have he := exec_executed setting k a
  have he' := exec_executed setting (k + m) a
  rw [ha] at he
  rw [ha'] at he'
  refine Ending.ext (ha'.trans ha.symm) (ho'.trans ho.symm) ?_
  omega

/-- A run that uses up a part of its budget goes on like a run with the rest of the budget. -/
theorem exec_add_of_paused {m : Nat} (hk : 0 < k) (hm : 0 < m)
    (h : a.steps setting.program k = (b, none)) :
    a.exec setting (k + m) = { (b.exec setting m).relimit (k + m) with
      executed := (a.exec setting k).executed + (b.exec setting m).executed } := by
  cases hrest : b.steps setting.program m with
  | mk c o =>
    have hwhole : a.steps setting.program (k + m) = (c, o) := by rw [steps_add, h, ← hrest]
    obtain ⟨ha, -⟩ := exec_of_steps setting hk h
    obtain ⟨hb, ho⟩ := exec_of_steps setting hm hrest
    obtain ⟨hc, ho'⟩ := exec_of_steps setting (by omega) hwhole
    have he := exec_executed setting k a
    have he' := exec_executed setting m b
    have he'' := exec_executed setting (k + m) a
    rw [ha] at he
    rw [hb] at he'
    rw [hc] at he''
    refine Ending.ext (hc.trans hb.symm) ?_ (by dsimp only; omega)
    simp only [Ending.relimit, ho, ho', Option.map_some]
    cases o with
    | none => rfl
    | some out => simp [relimit_of_not_limited _ (steps_not_limited hrest)]

theorem exec_relimit (hk : 0 < k) (a : Activation) :
    (a.exec setting k).relimit k = a.exec setting k := by
  cases h : a.steps setting.program k with
  | mk b o =>
    obtain ⟨-, ho⟩ := exec_of_steps setting hk h
    refine Ending.ext rfl ?_ rfl
    simp only [Ending.relimit, ho, Option.map_some]
    cases o with
    | none => rfl
    | some out => simp [relimit_of_not_limited _ (steps_not_limited h)]

theorem relimit_relimit (limit limit' : Nat) (e : Ending) :
    (e.relimit limit).relimit limit' = e.relimit limit' := by
  have hout (out : Outcome) : (out.relimit limit).relimit limit' = out.relimit limit' := by
    cases out with
    | returned v => rfl
    | stopped reason => cases reason <;> rfl
  refine Ending.ext rfl ?_ rfl
  simp only [Ending.relimit, Option.map_map]
  exact congrArg (Option.map · e.outcome) (funext hout)

/-- Only a run that its budget stops is reported with another limit. -/
theorem eq_of_relimit_eq {limit : Nat} {e : Ending} {c : Activation} {out : Outcome} {n : Nat}
    (hout : ¬ out.Limited) (h : e.relimit limit = ⟨c, some out, n⟩) : e = ⟨c, some out, n⟩ := by
  obtain ⟨b, o, m⟩ := e
  obtain ⟨rfl, ho, rfl⟩ := Ending.mk.inj h
  cases o with
  | none => cases ho
  | some out' =>
    have heq : out'.relimit limit = out := Option.some.inj ho
    have hout' : ¬ out'.Limited := by
      intro hlimited
      apply hout
      rw [← heq]
      cases out' with
      | returned v => cases hlimited
      | stopped reason =>
        cases reason with
        | fault method pc op cause => cases hlimited
        | _ => trivial
    rw [← heq, relimit_of_not_limited limit hout']

theorem relay_of_ended {out : Outcome} (m : Nat) (budgets : List Nat) (hk : 0 < k)
    (h : a.steps setting.program k = (b, some out)) :
    a.relay setting k (m :: budgets) = a.exec setting k := by
  obtain ⟨-, ho⟩ := exec_of_steps setting hk h
  have hout := steps_not_limited h
  rw [Activation.relay, ho]
  cases out with
  | returned v => rfl
  | stopped reason =>
    cases reason with
    | budget limit pc => exact absurd trivial hout
    | _ => rfl

theorem relay_of_paused (m : Nat) (budgets : List Nat) (hk : 0 < k)
    (h : a.steps setting.program k = (b, none)) : a.relay setting k (m :: budgets) =
      { b.relay setting m budgets with
        executed := (a.exec setting k).executed + (b.relay setting m budgets).executed } := by
  obtain ⟨ha, ho⟩ := exec_of_steps setting hk h
  rw [Activation.relay, ho, ha]
  rfl

/-- Running with one budget after another is running with their sum. -/
theorem relay_eq_exec (budgets : List Nat) (hk : 0 < k) (hpos : ∀ m ∈ budgets, 0 < m) :
    (a.relay setting k budgets).relimit (k + budgets.sum) =
      a.exec setting (k + budgets.sum) := by
  induction budgets generalizing k a with
  | nil => exact exec_relimit setting hk a
  | cons m budgets ih =>
    have hm := hpos m List.mem_cons_self
    have hrest : ∀ n ∈ budgets, 0 < n := fun n hn => hpos n (List.mem_cons_of_mem m hn)
    rw [List.sum_cons]
    cases h : a.steps setting.program k with
    | mk b o =>
      cases o with
      | some out =>
        rw [relay_of_ended setting m budgets hk h, exec_add_of_ended setting _ hk h]
        obtain ⟨-, ho⟩ := exec_of_steps setting hk h
        refine Ending.ext rfl ?_ rfl
        simp [Ending.relimit, ho, relimit_of_not_limited _ (steps_not_limited h)]
      | none =>
        rw [relay_of_paused setting m budgets hk h,
          exec_add_of_paused setting hk (by omega) h, ← ih hm hrest, relimit_relimit]
        rfl

theorem relay_single_steps {n : Nat} {t : State} {out : Outcome}
    (h : State.run setting.unlimited n { frame := a.frame, store := a.store } = (t, some out)) :
    a.relay setting 1 (List.replicate n 1) = ⟨t.activation, some out, t.executed⟩ := by
  have hsteps : a.steps setting.program n = (t.activation, some out) := by
    have := run_unlimited_steps setting n { frame := a.frame, store := a.store }
    rw [h] at this
    exact this.symm
  have hmore : a.steps setting.program (1 + n) = (t.activation, some out) := by
    rw [Nat.add_comm, steps_add, hsteps]
  obtain ⟨ha, ho⟩ := exec_of_steps setting (by omega) hmore
  have hcount : t.executed + a.frame.executed = t.frame.executed := by
    have := run_counters setting.unlimited n { frame := a.frame, store := a.store }
    rw [h, Nat.zero_add] at this
    exact this
  have hexec : a.exec setting (1 + n) = ⟨t.activation, some out, t.executed⟩ := by
    have he := exec_executed setting (1 + n) a
    rw [ha] at he
    refine Ending.ext ha ho ?_
    change _ + _ = t.frame.executed at he
    dsimp only
    omega
  have hsum : (List.replicate n 1).sum = n := by simp
  have hrelay := relay_eq_exec setting (a := a) (List.replicate n 1) Nat.one_pos (by simp)
  rw [hsum, hexec] at hrelay
  exact eq_of_relimit_eq (steps_not_limited hsteps) hrelay

/-- Running a frame with one budget after another is running it once with their sum, but for the
limit that is reported. So a run can be taken apart into single steps. -/
theorem resuming_is_transparent (setting : Setting) (a : Activation) (k : Nat)
    (budgets : List Nat) (hk : 0 < k) (hpos : ∀ m ∈ budgets, 0 < m) :
    (a.relay setting k budgets).relimit (k + budgets.sum) = a.exec setting (k + budgets.sum) ∧
    (a.exec setting (k + budgets.sum)).outcome ≠ none ∧
    ∀ n t out, State.run setting.unlimited n { frame := a.frame, store := a.store } =
      (t, some out) →
      a.relay setting 1 (List.replicate n 1) = ⟨t.activation, some out, t.executed⟩ := by
  refine ⟨relay_eq_exec setting budgets hk hpos, ?_, fun n t out => relay_single_steps setting⟩
  cases h : a.steps setting.program (k + budgets.sum) with
  | mk b o => simp [exec_of_steps setting (Nat.add_pos_left hk _) h]

def counting : Frame := { code := [0x84, 0x00, 0x01, 0xA7, 0xFF, 0xFD], locals := [.int 0] }

/-- Budgets of two, one and three instructions take `counting` as far as a budget of six. -/
theorem counting_resumed :
    (Activation.relay {} 2 [1, 3] ⟨counting, {}⟩).relimit 6 =
      Activation.exec {} 6 ⟨counting, {}⟩ ∧
    (Activation.exec {} 6 ⟨counting, {}⟩).activation.frame.locals = [.int 3] :=
  ⟨(resuming_is_transparent {} ⟨counting, {}⟩ 2 [1, 3] (by decide) (by decide)).1, by rfl⟩

end ClassMachine.Machine
