import ClassMachine.Machine.Run
import ClassMachine.Proofs.Machine.Phases

/-! The steps of a run. A step executes the instruction at the program counter of a frame; it does
not know of budgets, cancellation and notes. A round of a run is stopped by a limit, and then it
changes neither the frame nor the store, or it is a step (`round_cases`). So what every step
preserves holds all along a run (`run_invariant`). -/
namespace ClassMachine.Machine

def State.activation (s : State) : Activation := ⟨s.frame, s.store⟩

namespace Activation

def counted (a : Activation) : Activation :=
  { a with frame := { a.frame with executed := a.frame.executed + 1 } }

theorem counted_store (a : Activation) : a.counted.store = a.store := rfl

def step (program : Program) (a : Activation) : Activation × Option Outcome :=
  match decode a.frame.code a.frame.pc with
  | .error cause => (a, some (.stopped (.fault a.frame.method a.frame.pc cause.opcode cause)))
  | .ok i =>
    match execute program i a.counted with
    | .ok .next b => ({ b with frame := { b.frame with pc := a.frame.pc + i.length } }, none)
    | .ok (.jump target) b => ({ b with frame := { b.frame with pc := target } }, none)
    | .ok (.done v) b => (b, some (.returned v))
    | .error cause b =>
      (b, some (.stopped (.fault b.frame.method a.frame.pc i.opcode cause)))

/-- What a step can be: there is no instruction, or there is one, which goes on, branches, returns
or fails, and changes the frame only where `slots` allows it. -/
inductive StepsTo (program : Program) (a : Activation) : Activation × Option Outcome → Prop
  | stuck {cause : Cause} (decoded : decode a.frame.code a.frame.pc = .error cause) :
      StepsTo program a (a, some (.stopped (.fault a.frame.method a.frame.pc cause.opcode cause)))
  | next {i : Instruction} {b : Activation} (decoded : decode a.frame.code a.frame.pc = .ok i)
      (executed : execute program i a.counted = .ok .next b)
      (slots : Frame.SlotsOnly a.counted.frame b.frame) :
      StepsTo program a ({ b with frame := { b.frame with pc := a.frame.pc + i.length } }, none)
  | jump {i : Instruction} {b : Activation} {target : Int}
      (decoded : decode a.frame.code a.frame.pc = .ok i)
      (executed : execute program i a.counted = .ok (.jump target) b)
      (slots : Frame.SlotsOnly a.counted.frame b.frame) :
      StepsTo program a ({ b with frame := { b.frame with pc := target } }, none)
  | done {i : Instruction} {b : Activation} {v : Value}
      (decoded : decode a.frame.code a.frame.pc = .ok i)
      (executed : execute program i a.counted = .ok (.done v) b)
      (slots : Frame.SlotsOnly a.counted.frame b.frame) :
      StepsTo program a (b, some (.returned v))
  | fault {i : Instruction} {b : Activation} {cause : Cause}
      (decoded : decode a.frame.code a.frame.pc = .ok i)
      (executed : execute program i a.counted = .error cause b)
      (slots : Frame.SlotsOnly a.counted.frame b.frame) :
      StepsTo program a (b, some (.stopped (.fault b.frame.method a.frame.pc i.opcode cause)))

theorem step_cases (program : Program) (a : Activation) : a.StepsTo program (a.step program) := by
  rw [step]
  cases hd : decode a.frame.code a.frame.pc with
  | error cause => exact .stuck hd
  | ok i =>
    dsimp only
    cases hx : execute program i a.counted with
    | error cause b => exact .fault hd hx (execute_error_slotsOnly hx)
    | ok control b =>
      have hslots := execute_ok_slotsOnly hx
      cases control with
      | next => exact .next hd hx hslots
      | jump target => exact .jump hd hx hslots
      | done v => exact .done hd hx hslots

theorem StepsTo.eq {program : Program} {a : Activation} {r : Activation × Option Outcome}
    (h : a.StepsTo program r) : a.step program = r := by
  cases h with
  | stuck decoded => rw [step, decoded]
  | next decoded executed | jump decoded executed | done decoded executed
  | fault decoded executed => simp only [step, decoded, executed]

end Activation

variable (setting : Setting) (s : State)

theorem count_executed (i : Instruction) : (s.count setting i).executed = s.executed + 1 := rfl

theorem advance_of_error {cause : Cause} (h : decode s.frame.code s.frame.pc = .error cause) :
    s.advance setting =
      (s, some (.stopped (.fault s.frame.method s.frame.pc cause.opcode cause))) := by
  simp only [State.advance, Running.advance, Listing.decode, h]
  rfl

theorem advance_of_ok {i : Instruction} (h : decode s.frame.code s.frame.pc = .ok i) :
    s.advance setting =
      (s.count setting i).after i (execute setting.program i s.activation.counted) := by
  simp only [State.advance, Running.advance, Listing.decode, h]
  rfl

theorem round_eq : s.round setting =
    if setting.limits.exhausted s.executed then
      (s, some (.stopped (.budget setting.limits.budget s.frame.pc)))
    else if s.executed % setting.limits.every = 0 then
      if setting.limits.cancelled s.looks then
        ({ s with looks := s.looks + 1 }, some (.stopped .cancelled))
      else { s with looks := s.looks + 1 }.advance setting
    else s.advance setting := rfl

theorem run_first (n : Nat) : s.run setting (n + 1) =
    match s.round setting with
    | (t, none) => t.run setting n
    | ended => ended := rfl

theorem advance_step : s.activation.step setting.program =
    ((s.advance setting).1.activation, (s.advance setting).2) := by
  cases hd : decode s.frame.code s.frame.pc with
  | error cause =>
    rw [advance_of_error setting s hd]
    simp only [Activation.step, State.activation, hd]
  | ok i =>
    have hdecode : decode s.activation.frame.code s.activation.frame.pc = .ok i := hd
    rw [advance_of_ok setting s hd, Activation.step, hdecode]
    dsimp only
    cases execute setting.program i s.activation.counted with
    | error cause b => rfl
    | ok control b => cases control <;> rfl

theorem advance_cases : (∃ out, s.advance setting = (s, some out)) ∨
    ∃ i frame store o, s.advance setting = ({ s.count setting i with frame, store }, o) ∧
      frame.executed = s.frame.executed + 1 := by
  cases hd : decode s.frame.code s.frame.pc with
  | error cause => exact Or.inl ⟨_, advance_of_error setting s hd⟩
  | ok i =>
    refine Or.inr ?_
    rw [advance_of_ok setting s hd]
    cases hx : execute setting.program i s.activation.counted with
    | error cause b =>
      obtain ⟨stack, locals, -, hf⟩ := execute_error_slotsOnly hx
      exact ⟨i, b.frame, b.store, _, rfl, by rw [hf]; rfl⟩
    | ok control b =>
      obtain ⟨stack, locals, -, hf⟩ := execute_ok_slotsOnly hx
      have hcount : b.frame.executed = s.frame.executed + 1 := by
        rw [hf]
        rfl
      cases control with
      | next => exact ⟨i, { b.frame with pc := s.frame.pc + i.length }, b.store, _, rfl, hcount⟩
      | jump target => exact ⟨i, { b.frame with pc := target }, b.store, _, rfl, hcount⟩
      | done v => exact ⟨i, b.frame, b.store, _, rfl, hcount⟩

theorem advance_looks : (s.advance setting).1.looks = s.looks := by
  rcases advance_cases setting s with ⟨out, h⟩ | ⟨i, frame, store, o, h, -⟩
  · rw [h]
  · rw [h]
    rfl

theorem advance_counters : (s.advance setting).1.executed + s.frame.executed =
    s.executed + (s.advance setting).1.frame.executed := by
  rcases advance_cases setting s with ⟨out, h⟩ | ⟨i, frame, store, o, h, hcount⟩
  · rw [h]
  · rw [h]
    simp only [count_executed, hcount]
    omega

theorem advance_executed (h : (s.advance setting).2 = none) :
    (s.advance setting).1.executed = s.executed + 1 := by
  rcases advance_cases setting s with ⟨out, ha⟩ | ⟨i, frame, store, o, ha, -⟩
  · rw [ha] at h
    cases h
  · rw [ha]
    rfl

theorem advance_executed_le : (s.advance setting).1.executed ≤ s.executed + 1 := by
  rcases advance_cases setting s with ⟨out, h⟩ | ⟨i, frame, store, o, h, -⟩
  · rw [h]
    exact Nat.le_succ s.executed
  · rw [h]
    exact Nat.le_refl _

def State.look (setting : Setting) (s : State) : State :=
  { s with looks := s.looks + if s.executed % setting.limits.every = 0 then 1 else 0 }

/-- What a round can be: the budget is used up, the run is cancelled, or there is a step. -/
theorem round_cases :
    (setting.limits.exhausted s.executed ∧ s.round setting =
      (s, some (.stopped (.budget setting.limits.budget s.frame.pc)))) ∨
    (¬ setting.limits.exhausted s.executed ∧ s.executed % setting.limits.every = 0 ∧
      setting.limits.cancelled s.looks = true ∧
      s.round setting = (s.look setting, some (.stopped .cancelled))) ∨
    (¬ setting.limits.exhausted s.executed ∧
      ¬ (s.executed % setting.limits.every = 0 ∧ setting.limits.cancelled s.looks = true) ∧
      s.round setting = (s.look setting).advance setting) := by
  by_cases hb : setting.limits.exhausted s.executed
  · exact Or.inl ⟨hb, by rw [round_eq, if_pos hb]⟩
  · by_cases he : s.executed % setting.limits.every = 0
    · cases hc : setting.limits.cancelled s.looks with
      | true =>
        refine Or.inr (Or.inl ⟨hb, he, rfl, ?_⟩)
        simp only [round_eq, if_neg hb, if_pos he, hc, if_true, State.look]
      | false =>
        refine Or.inr (Or.inr ⟨hb, by simp, ?_⟩)
        simp [round_eq, hb, he, hc, State.look]
    · refine Or.inr (Or.inr ⟨hb, fun h => he h.1, ?_⟩)
      simp [round_eq, hb, he, State.look]

/-- A longer run goes on where a shorter one has no outcome yet. -/
theorem run_add (m n : Nat) : s.run setting (m + n) =
    match s.run setting m with
    | (t, none) => t.run setting n
    | ended => ended := by
  induction m generalizing s with
  | zero => rw [Nat.zero_add]; rfl
  | succ m ih =>
    rw [Nat.succ_add, run_first, run_first]
    cases hr : s.round setting with
    | mk t o =>
      cases o with
      | none => exact ih t
      | some o => rfl

theorem run_succ (n : Nat) : s.run setting (n + 1) =
    match s.run setting n with
    | (t, none) => t.round setting
    | ended => ended := by
  rw [run_add]
  cases s.run setting n with
  | mk t o =>
    cases o with
    | some o => rfl
    | none =>
      change t.run setting (0 + 1) = t.round setting
      rw [run_first]
      cases t.round setting with
      | mk u o => cases o <;> rfl

def Outcome.Limited : Outcome → Prop
  | .stopped (.budget _ _) | .stopped .cancelled => True
  | _ => False

/-- What every step preserves holds all along a run: at its end, if a limit stopped it or it goes
on, and else before its last step. -/
theorem run_invariant {P : Activation → Prop} {s t : State} {n : Nat} {o : Option Outcome}
    (hstep : ∀ a b, P a → a.step setting.program = (b, none) → P b) (hs : P s.activation)
    (h : s.run setting n = (t, o)) :
    (P t.activation ∧ ∀ out, o = some out → out.Limited) ∨
      ∃ a out, P a ∧ o = some out ∧ a.step setting.program = (t.activation, some out) := by
  induction n generalizing s with
  | zero =>
    cases h
    exact Or.inl ⟨hs, by simp⟩
  | succ n ih =>
    rw [run_first] at h
    rcases round_cases setting s with ⟨-, hr⟩ | ⟨-, -, -, hr⟩ | ⟨-, -, hr⟩
    · rw [hr] at h
      cases h
      exact Or.inl ⟨hs, by simp [Outcome.Limited]⟩
    · rw [hr] at h
      cases h
      exact Or.inl ⟨hs, by simp [Outcome.Limited]⟩
    · have ha := advance_step setting (s.look setting)
      rw [hr] at h
      cases hadv : (s.look setting).advance setting with
      | mk u out =>
        rw [hadv] at h ha
        cases out with
        | none => exact ih (hstep _ _ hs ha) h
        | some out =>
          cases h
          exact Or.inr ⟨s.activation, out, hs, rfl, ha⟩

end ClassMachine.Machine
