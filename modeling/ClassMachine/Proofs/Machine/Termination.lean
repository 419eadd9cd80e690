import ClassMachine.Proofs.Machine.Frames
import ClassMachine.Proofs.Machine.Location

/-! Code without loops. If no branch of a code leads back, wherever in the code one may be found,
then every step of a run that goes on moves the program counter forward (`step_forward`). It never
passes the end of the code, so there are no more steps than the code has bytes (`run_forward`). -/
namespace ClassMachine.Machine
variable {program : Program} {code : Bytes} {setting : Setting} {s t : State}

def branchOpcodes : List UInt8 := [0x99, 0x9A, 0xA1, 0xA2, 0xA7]

def LeadsForward : Bytes → Prop
  | op :: a :: b :: _ => op ∈ branchOpcodes → 0 < (Bytes.toU2 a b).toInt16.toInt
  | _ => True

instance : DecidablePred LeadsForward
  | _ :: _ :: _ :: _ => inferInstanceAs (Decidable (_ → _))
  | [] | [_] | [_, _] => isTrue trivial

/-- From whatever offset a code is read, also from within the operands of an instruction, a branch
that is found there leads forward. -/
def ForwardOnly (code : Bytes) : Prop := ∀ k < code.length, LeadsForward (code.drop k)

instance (code : Bytes) : Decidable (ForwardOnly code) := inferInstanceAs (Decidable (∀ _ < _, _))

theorem Instruction.length_pos (i : Instruction) : 0 < i.length := Nat.succ_pos _

theorem opcode_mem_branchOpcodes (test : Test) (offset : Int16) :
    (Instruction.branch test offset).opcode ∈ branchOpcodes := by
  cases test <;> simp [Instruction.opcode, branchOpcodes]

theorem ForwardOnly.offset_pos (h : ForwardOnly code) {pc : Int} {test : Test} {offset : Int16}
    (hd : decode code pc = .ok (.branch test offset)) : 0 < offset.toInt := by
  obtain ⟨before, rest, rfl, -⟩ := (decode_ok_iff code pc _).1 hd
  have hfront := h before.length (by simp [Instruction.encode])
  rw [List.drop_left] at hfront
  have hoperands : Bytes.u2 offset.toUInt16 = [_, _] := rfl
  have hpos := hfront (opcode_mem_branchOpcodes test offset)
  rw [(Bytes.u2_eq_iff _ _ _).1 hoperands] at hpos
  exact hpos

theorem step_forward {a b : Activation} (hforward : ForwardOnly a.frame.code)
    (h : a.step program = (b, none)) :
    a.frame.pc < b.frame.pc ∧ b.frame.pc ≤ a.frame.code.length := by
  have hstep := h ▸ a.step_cases program
  cases hstep with
  | @next i _ decoded =>
    have hlength := Instruction.length_pos i
    have hinside := next_inside decoded
    dsimp only
    omega
  | jump decoded executed =>
    obtain ⟨test, offset, rfl, htarget, -, hinside⟩ := execute_jump executed
    have hpos := hforward.offset_pos decoded
    dsimp only [Activation.counted] at htarget hinside ⊢
    omega

theorem step_of_round (h : s.round setting = (t, none)) :
    s.activation.step setting.program = (t.activation, none) := by
  rcases round_cases setting s with ⟨-, hr⟩ | ⟨-, -, -, hr⟩ | ⟨-, -, hr⟩
  · cases hr.symm.trans h
  · cases hr.symm.trans h
  · have hstep := advance_step setting (s.look setting)
    rw [← hr, h] at hstep
    exact hstep

/-- As long as a run goes on, the program counter is at least the number of the steps. -/
theorem run_forward (hforward : ForwardOnly s.frame.code) (hpc : s.frame.pc = 0) {k : Nat}
    (h : s.run setting k = (t, none)) : k ≤ t.frame.pc ∧ t.frame.pc ≤ s.frame.code.length := by
  induction k generalizing t with
  | zero =>
    cases h
    omega
  | succ k ih =>
    rw [run_succ] at h
    cases hrun : s.run setting k with
    | mk u o =>
      rw [hrun] at h
      cases o with
      | some out => cases h
      | none =>
        have hcode := (run_code hrun).1
        have hstep := step_forward (a := u.activation) (hcode ▸ hforward) (step_of_round h)
        have hbefore := ih hrun
        change u.frame.pc < t.frame.pc ∧ t.frame.pc ≤ u.frame.code.length at hstep
        rw [hcode] at hstep
        omega

theorem advance_at_end (setting : Setting) (s : State) (h : s.frame.code.length ≤ s.frame.pc) :
    (s.advance setting).1 = s := by
  cases hd : decode s.frame.code s.frame.pc with
  | error cause => rw [advance_of_error setting s hd]
  | ok i =>
    have hinside := next_inside hd
    have hlength := Instruction.length_pos i
    omega

theorem Outcome.cases_of_not_limited {out : Outcome} (h : ¬ out.Limited) :
    (∃ v, out = .returned v) ∨
      ∃ method pc op cause, out = .stopped (.fault method pc op cause) := by
  cases out with
  | returned v => exact Or.inl ⟨v, rfl⟩
  | stopped reason =>
    cases reason with
    | fault method pc op cause => exact Or.inr ⟨method, pc, op, cause, rfl⟩
    | budget limit pc => exact absurd trivial h
    | cancelled => exact absurd trivial h

/-- In code whose branches all lead forward, a run from the start returns or comes to a fault within
as many instructions as there are bytes, unless it is cancelled or has too small a budget. -/
theorem forward_code_ends (setting : Setting) (s : State) (hforward : ForwardOnly s.frame.code)
    (hpc : s.frame.pc = 0) (hcancel : setting.limits.cancelAfter = none)
    (hbudget : setting.limits.budget ≤ 0 ∨
      s.executed + s.frame.code.length < setting.limits.budget) :
    ∃ t out, ((∃ v, out = .returned v) ∨
        ∃ method pc op cause, out = .stopped (.fault method pc op cause)) ∧
      t.executed ≤ s.executed + s.frame.code.length ∧
      (∀ n, s.frame.code.length < n → s.run setting n = (t, some out)) ∧
      ∀ n limit pc, (s.run setting n).2 ≠ some (.stopped (.budget limit pc)) := by
  let rounds := s.frame.code.length + 1
  have hends : (s.run setting rounds).2 ≠ none := by
    intro hnone
    have hpast := run_forward hforward hpc (Prod.ext rfl hnone : s.run setting rounds = (_, none))
    omega
  obtain ⟨out, hout⟩ := Option.ne_none_iff_exists'.1 hends
  obtain ⟨k, u, hk, hlast⟩ := run_last (Prod.ext rfl hout : s.run setting rounds = (_, some out))
  have hat := run_forward hforward hpc hk
  have hcount := run_executed hk
  -- neither limit is due in the last round, so it is a step
  have hadvance : u.round setting = (u.look setting).advance setting := by
    rcases round_cases setting u with ⟨hb, -⟩ | ⟨-, -, hc, -⟩ | ⟨-, -, hr⟩
    · simp only [Limits.exhausted] at hb
      omega
    · simp [Limits.cancelled, hcancel] at hc
    · exact hr
  have hstep := advance_step setting (u.look setting)
  rw [← hadvance, hlast] at hstep
  have hfree := step_not_limited hstep
  refine ⟨(s.run setting rounds).1, out, Outcome.cases_of_not_limited hfree, ?_, ?_, ?_⟩
  · by_cases hend : u.frame.code.length ≤ u.frame.pc
    · have hsame := advance_at_end setting (u.look setting) hend
      rw [← hadvance, hlast] at hsame
      rw [hsame]
      change u.executed ≤ _
      omega
    · have hle := advance_executed_le setting (u.look setting)
      rw [← hadvance, hlast] at hle
      change (s.run setting rounds).1.executed ≤ u.executed + 1 at hle
      rw [(run_code hk).1] at hend
      omega
  · intro n hn
    rw [run_ended setting s hn hends]
    exact Prod.ext rfl hout
  · intro n limit pc hstopped
    have hsame := run_ended setting s (le_max_left n rounds) (by simp [hstopped])
    rw [run_ended setting s (le_max_right n rounds) hends] at hsame
    rw [← hsame, hout] at hstopped
    cases hstopped
    exact hfree trivial

/-- A branch into the operand of another instruction, which is read as two more instructions on
the way to the end. -/
def shortcut : State where
  frame := { code := [0x03, 0x99, 0x00, 0x04, 0x10, 0x00, 0x00], maxStack := 1 }
  store := {}

/-- A budget of one instruction more than there are bytes lets `shortcut` run to its end. -/
theorem shortcut_ends :
    ForwardOnly shortcut.frame.code ∧
      ∃ t, (∀ n, 7 < n → shortcut.run { limits := { budget := 8 } } n =
          (t, some (.stopped (.fault [] 7 0 (.ranOff 7))))) ∧ t.executed ≤ 7 := by
  have hforward : ForwardOnly shortcut.frame.code := by decide
  obtain ⟨t, out, -, hexecuted, hends, -⟩ := forward_code_ends { limits := { budget := 8 } }
    shortcut hforward rfl rfl (Or.inr (by decide))
  have hout : (shortcut.run { limits := { budget := 8 } } 8).2 =
      some (.stopped (.fault [] 7 0 (.ranOff 7))) := rfl
  rw [hends 8 (by decide)] at hout
  cases hout
  exact ⟨hforward, t, hends, hexecuted⟩

end ClassMachine.Machine
