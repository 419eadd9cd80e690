import ClassMachine.Proofs.Machine.Encoding
import ClassMachine.Proofs.Machine.Faults
import ClassMachine.Proofs.Machine.Steps

/-! Where the instructions of a code start. A listing goes through a code from its start to its
end, a run goes where the branches lead. If all of the code can be listed and no branch leads into
the middle of a listed instruction, then a run comes to listed instructions only. -/
namespace ClassMachine.Machine
variable {program : Program} {code : Bytes}

def Listed (code : Bytes) (k : Nat) (i : Instruction) : Prop := (k, i) ∈ (listing code).1

def branchTargets (code : Bytes) : List Int :=
  (listing code).1.filterMap fun
    | (k, .branch _ offset) => some (k + offset.toInt)
    | _ => none

/-- Every branch of the listing leads to a listed instruction or out of the code. -/
def BranchesLand (code : Bytes) : Prop :=
  ∀ target ∈ branchTargets code,
    (∃ p ∈ (listing code).1, target = p.1) ∨ target < 0 ∨ code.length ≤ target

instance (code : Bytes) : Decidable (BranchesLand code) :=
  inferInstanceAs (Decidable (∀ _ ∈ _, _))

/-- The offset of a listed instruction, which is the one that a run finds there, or the end of the
code. -/
def Boundary (code : Bytes) (pc : Int) : Prop :=
  (∃ k i, Listed code k i ∧ pc = k ∧ decode code pc = .ok i) ∨ pc = code.length

section Listing

theorem target_mem_branchTargets {k : Nat} {test : Test} {offset : Int16}
    (h : Listed code k (.branch test offset)) : k + offset.toInt ∈ branchTargets code :=
  List.mem_filterMap.2 ⟨(k, .branch test offset), h, rfl⟩

theorem decode_of_mem_listingFrom {pc k : Nat} {i : Instruction}
    (h : (k, i) ∈ (listingFrom code pc).1) : decode code k = .ok i := by
  induction pc using listing_induction code with
  | ended pc hge heq => simp [heq] at h
  | failed pc cause hlt hd heq => simp [heq] at h
  | listed pc j rest cause hd hrest heq ih =>
    rw [hrest] at ih
    simp only [heq, List.mem_cons, Prod.mk.injEq] at h
    rcases h with ⟨rfl, rfl⟩ | h
    · exact hd
    · exact ih h

theorem listingFrom_start {pc : Nat} (h : (listingFrom code pc).2 = none)
    (hpc : pc ≤ code.length) :
    (∃ i, (pc, i) ∈ (listingFrom code pc).1) ∨ pc = code.length := by
  by_cases hlt : pc < code.length
  · cases hd : decode code pc with
    | error cause => simp [listingFrom_of_error hlt hd] at h
    | ok i => exact Or.inl ⟨i, by simp [listingFrom_of_ok hlt hd]⟩
  · exact Or.inr (by omega)

/-- In a listing that comes to the end of the code, behind each instruction there is the next one
or the end. -/
theorem listingFrom_next {pc k : Nat} {i : Instruction} (h : (listingFrom code pc).2 = none)
    (hk : (k, i) ∈ (listingFrom code pc).1) :
    (∃ j, (k + i.length, j) ∈ (listingFrom code pc).1) ∨ k + i.length = code.length := by
  induction pc using listing_induction code with
  | ended pc hge heq => simp [heq] at hk
  | failed pc cause hlt hd heq => simp [heq] at hk
  | listed pc j rest cause hd hrest heq ih =>
    rw [hrest] at ih
    rw [heq] at h hk ⊢
    have htail : (∃ j, (k + i.length, j) ∈ rest) ∨ k + i.length = code.length := by
      simp only [List.mem_cons, Prod.mk.injEq] at hk
      rcases hk with ⟨rfl, rfl⟩ | hk
      -- The tail of the listing starts right behind the instruction.
      · have hstart := listingFrom_start (hrest ▸ h) (length_le_of_decode hd)
        rwa [hrest] at hstart
      · exact ih h hk
    rcases htail with ⟨j, hj⟩ | hend
    · exact Or.inl ⟨j, List.mem_cons_of_mem _ hj⟩
    · exact Or.inr hend

theorem boundary_of_listed {k : Nat} {i : Instruction} (h : Listed code k i) :
    Boundary code k := Or.inl ⟨k, i, h, rfl, decode_of_mem_listingFrom h⟩

theorem boundary_zero (h : (listing code).2 = none) : Boundary code 0 := by
  rcases listingFrom_start h (Nat.zero_le _) with ⟨i, hi⟩ | hend
  · exact boundary_of_listed hi
  · exact Or.inr (by exact_mod_cast hend)

theorem boundary_next {k : Nat} {i : Instruction} (h : (listing code).2 = none)
    (hk : Listed code k i) : Boundary code (k + i.length) := by
  rcases listingFrom_next h hk with ⟨j, hj⟩ | hend
  · exact_mod_cast boundary_of_listed hj
  · exact Or.inr (by exact_mod_cast hend)

end Listing

theorem branchTo_ok {offset : Int16} {a b : Activation} {c : Control}
    (h : branchTo offset a = .ok c b) :
    c = .jump (a.frame.pc + offset.toInt) ∧ 0 ≤ a.frame.pc + offset.toInt ∧
      a.frame.pc + offset.toInt < a.frame.code.length := by
  rw [branchTo, Fallible.bind_of_ok (ofFrame_frame a)] at h
  by_cases hinside : 0 ≤ a.frame.pc + offset.toInt ∧
      a.frame.pc + offset.toInt < a.frame.code.length
  · simp only [if_pos hinside, Fallible.pure_ok_iff] at h
    exact ⟨h.1.symm, hinside⟩
  · simp only [if_neg hinside, Fallible.throw_ok_iff] at h

/-- Only branches jump, and only inside of the code. -/
theorem execute_jump {i : Instruction} {a b : Activation} {target : Int}
    (h : execute program i a = .ok (.jump target) b) :
    ∃ test offset, i = .branch test offset ∧ target = a.frame.pc + offset.toInt ∧
      0 ≤ target ∧ target < a.frame.code.length := by
  cases i with
  | branch test offset =>
    obtain ⟨taken, a', ha, hjump⟩ := (Fallible.bind_ok_iff _ _ _ _ _).1 h
    have hslots := (((slotsOnly_tolerant program).closed.phases _).holds test).ok a taken a' ha
    obtain ⟨stack, locals, -, hframe⟩ := hslots.1
    cases taken with
    | false => simp [Fallible.pure_ok_iff] at hjump
    | true =>
      obtain ⟨htarget, hinside⟩ := branchTo_ok hjump
      cases htarget
      rw [hframe] at hinside ⊢
      exact ⟨test, offset, rfl, rfl, hinside⟩
  | iinc slot amount =>
    obtain ⟨v, a', ha, hrest⟩ := (Fallible.bind_ok_iff _ _ _ _ _).1 h
    cases v with
    | int n =>
      simp only [Fallible.bind_ok_iff, Fallible.pure_ok_iff, reduceCtorEq, false_and, and_false,
        exists_false] at hrest
    | _ => cases hrest
  | _ =>
    simp only [Executing.execute, Fallible.bind_ok_iff, Fallible.pure_ok_iff, reduceCtorEq,
      false_and, and_false, exists_false] at h

section Steps

theorem listed_of_decode {pc : Int} {i : Instruction} (h : Boundary code pc)
    (hd : decode code pc = .ok i) : ∃ k : Nat, Listed code k i ∧ pc = k := by
  rcases h with ⟨k, j, hk, hpc, hj⟩ | hend
  · rw [hj] at hd
    cases hd
    exact ⟨k, hk, hpc⟩
  · subst hend
    have hle := length_le_of_decode hd
    simp only [Instruction.length, Instruction.encode, List.length_cons] at hle
    omega

theorem decode_boundary_error {pc : Int} {cause : Cause} (h : Boundary code pc)
    (hd : decode code pc = .error cause) : pc = code.length ∧ cause = .ranOff code.length := by
  rcases h with ⟨k, j, hk, hpc, hj⟩ | hend
  · rw [hj] at hd
    cases hd
  · subst hend
    have hdrop : code.drop code.length = [] := List.drop_length
    rw [decode, if_neg (by omega), Int.toNat_natCast, hdrop] at hd
    cases hd
    exact ⟨rfl, rfl⟩

variable {a : Activation}

theorem step_boundary (hend : (listing code).2 = none) (hland : BranchesLand code)
    (hcode : a.frame.code = code) (hpc : Boundary code a.frame.pc) :
    (a.step program).1.frame.code = code ∧ Boundary code (a.step program).1.frame.pc := by
  have hstep := a.step_cases program
  generalize a.step program = r at hstep ⊢
  cases hstep with
  | stuck => exact ⟨hcode, hpc⟩
  | next decoded _ slots =>
    obtain ⟨k, hk, hat⟩ := listed_of_decode hpc (hcode ▸ decoded)
    obtain ⟨stack, locals, -, hf⟩ := slots
    simpa [hf, Activation.counted, hcode, hat] using boundary_next hend hk
  | @jump _ _ target decoded executed slots =>
    obtain ⟨k, hk, hat⟩ := listed_of_decode hpc (hcode ▸ decoded)
    obtain ⟨stack, locals, -, hf⟩ := slots
    obtain ⟨test, offset, rfl, htarget, hge, hlt⟩ := execute_jump executed
    simp only [Activation.counted, hat, hcode] at htarget hlt
    have hlands : Boundary code target := by
      rcases hland target (htarget ▸ target_mem_branchTargets hk) with ⟨p, hp, hat'⟩ | hout
      · rw [hat']
        exact boundary_of_listed hp
      · omega
    simpa [hf, Activation.counted, hcode] using hlands
  | done _ _ slots | fault _ _ slots =>
    obtain ⟨stack, locals, -, hf⟩ := slots
    simpa [hf] using ⟨hcode, hpc⟩

/-- At a boundary a step fails for want of an instruction at the end of the code only. -/
theorem step_fault_at_boundary (hcode : a.frame.code = code) (hpc : Boundary code a.frame.pc)
    {method : Bytes} {pc : Int} {op : UInt8} {cause : Cause}
    (h : (a.step program).2 = some (.stopped (.fault method pc op cause))) :
    (pc = code.length ∧ cause = .ranOff code.length) ∨ cause.LocatedAt pc op := by
  have hstep := a.step_cases program
  generalize a.step program = r at hstep h
  cases hstep with
  | next | jump | done => cases h
  | stuck decoded =>
    cases h
    rw [hcode] at decoded
    exact Or.inl (decode_boundary_error hpc decoded)
  | fault _ executed =>
    cases h
    have hlocated := execute_error_located executed
    exact Or.inr hlocated

end Steps

/-- In a code that can be listed to its end and whose branches lead to listed instructions or out of
the code, every run is at a listed instruction, or at the end, before each round. -/
theorem run_stays_on_boundaries (pool : Pool) (code : Bytes)
    (hend : (disassemble pool code).2 = none) (hland : BranchesLand code) (setting : Setting)
    (s : State) (hcode : s.frame.code = code) (hpc : s.frame.pc = 0) (n : Nat) :
    Boundary code (s.run setting n).1.frame.pc ∧
      ∀ method pc op cause, (s.run setting n).2 = some (.stopped (.fault method pc op cause)) →
        (∀ op' pc', cause ≠ .unknownOpcode op' pc') ∧
        (∀ op' pc' need got, cause ≠ .shortOperands op' pc' need got) ∧
        ∀ pc', cause = .ranOff pc' → pc' = code.length ∧ pc = code.length := by
  -- A step keeps this of the activation, whatever the limits are.
  let P : Activation → Prop := fun a => a.frame.code = code ∧ Boundary code a.frame.pc
  have hstart : P s.activation := by
    refine ⟨hcode, ?_⟩
    change Boundary code s.frame.pc
    rw [hpc]
    exact boundary_zero hend
  have hstep (a : Activation) (ha : P a) : P (a.step setting.program).1 :=
    step_boundary hend hland ha.1 ha.2
  have hnone (a b : Activation) (ha : P a) (h : a.step setting.program = (b, none)) : P b := by
    have hb := hstep a ha
    rwa [h] at hb
  rcases run_invariant setting hnone hstart (s.run setting n).eta with
    ⟨ht, hlimited⟩ | ⟨a, out, ha, hout, hlast⟩
  · refine ⟨ht.2, ?_⟩
    intro method pc op cause hfault
    exact (hlimited _ hfault).elim
  · have hb := hstep a ha
    rw [hlast] at hb
    refine ⟨hb.2, ?_⟩
    intro method pc op cause hfault
    have hfaults : (a.step setting.program).2 = some (.stopped (.fault method pc op cause)) := by
      rw [hlast, ← hout]
      exact hfault
    rcases step_fault_at_boundary ha.1 ha.2 hfaults with ⟨rfl, rfl⟩ | hlocated
    · simp
    · refine ⟨?_, ?_, ?_⟩
      · rintro op' pc' rfl
        exact hlocated
      · rintro op' pc' need got rfl
        exact hlocated
      · rintro pc' rfl
        exact hlocated.elim

/-- A loop that counts its argument down to zero. The operand bytes are no instructions. -/
def laps : Bytes := [0x1A, 0x99, 0x00, 0x09, 0x84, 0x00, 0xFF, 0xA7, 0xFF, 0xF9, 0x00]

def lapsFrom (n : Int32) : State where
  frame := { code := laps, maxStack := 1, locals := [.int n] }
  store := {}

theorem laps_stay_on_boundaries :
    (disassemble {} laps).2 = none ∧ BranchesLand laps ∧
      ((lapsFrom 2).run {} 12).2 = some (.stopped (.fault [] 11 0 (.ranOff 11))) ∧
      Boundary laps ((lapsFrom 2).run {} 12).1.frame.pc ∧
      (11 : Int) = laps.length := by
  have hend : (disassemble {} laps).2 = none := by decide +kernel
  have hland : BranchesLand laps := by decide +kernel
  have hrun := run_stays_on_boundaries {} laps hend hland {} (lapsFrom 2) rfl rfl 12
  exact ⟨hend, hland, rfl, hrun.1, ((hrun.2 [] 11 0 (.ranOff 11) rfl).2.2 11 rfl).2⟩

end ClassMachine.Machine
