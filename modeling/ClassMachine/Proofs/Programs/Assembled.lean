import ClassMachine.Proofs.Assembler.Agreement
import ClassMachine.Proofs.Programs.Stepping

/-! Assembled programs. A class is given by a script that adds constants and then one method, whose
code refers to them by their places. Such a class can be written if its constants fit into the
pool (`sized_main`), and what is reported on a run from its bytes is what is reported on the code
(`runBytes_assemble`). -/
namespace ClassMachine

namespace Assembler

def Operation.isConstant : Operation → Bool
  | .text _ | .cls _ | .string _ | .nameAndType _ _ | .ref _ _ _ _ | .raw _ _ => true
  | _ => false

theorem places_fst (a : Assembler) (script : List Operation) :
    (places a script).map Prod.fst = script.filter Operation.isConstant := by
  induction script generalizing a with
  | nil => rfl
  | cons op script ih =>
    rw [places, List.map_append, ih, List.filter_cons]
    cases op <;> rfl

theorem places_append (a : Assembler) (script more : List Operation) :
    places a (script ++ more) =
      places a script ++ places (script.foldl Operation.perform a) more := by
  induction script generalizing a with
  | nil => rfl
  | cons op script ih =>
    rw [List.cons_append, places, places, ih, List.append_assoc, List.foldl_cons]

def Operation.isString : Operation → Bool
  | .string _ => true
  | _ => false

/-- Every string of a script has an entry of its own in the pool. -/
theorem strings_le_pool (script : List Operation) (hscript : ∀ op ∈ script, op.NamesFit)
    (a : Assembler) : a.pool.length + (script.filter Operation.isString).length ≤
      (script.foldl Operation.perform a).pool.length := by
  induction script generalizing a with
  | nil => exact Nat.le_refl _
  | cons op script ih =>
    obtain ⟨hop, hrest⟩ := List.forall_mem_cons.1 hscript
    have htail := ih hrest (op.perform a)
    have hgrows := (perform_pool op hop a).length_le
    rw [List.foldl_cons, List.filter_cons]
    cases op with
    | string s =>
      have htext := ((delivers_text s hop).grows a).pool.length_le
      have hpool : (Operation.perform a (.string s)).pool = (text s a).2.pool ++
          [⟨Kind.string.tag, Bytes.u2 (text s a).1⟩] := rfl
      have hmore : a.pool.length + 1 ≤ (Operation.perform a (.string s)).pool.length := by
        rw [hpool, List.length_append]
        exact Nat.add_le_add_right htext 1
      simp only [Operation.isString, if_true, List.length_cons]
      omega
    | _ =>
      simp only [Operation.isString, Bool.false_eq_true, if_false]
      omega

def mainOf (flags : UInt16) (descriptor : Bytes) (maxStack maxLocals : UInt16)
    (code : List Instruction) : Assembler.Member where
  flags := flags
  name := utf8 "main"
  descriptor := descriptor
  code := some { maxStack, maxLocals, bytes := code.flatMap Instruction.encode }

section Sizes
variable {constants : List Operation} {descriptor : Bytes} {code : List Instruction}

theorem outline_constants (h : ∀ op ∈ constants, op.isConstant = true) (o : Outline) :
    constants.foldl Operation.outline o = o := by
  induction constants with
  | nil => rfl
  | cons op constants ih =>
    obtain ⟨hop, hrest⟩ := List.forall_mem_cons.1 h
    rw [List.foldl_cons]
    cases op with
    | text | cls | string | nameAndType | ref | raw => exact ih hrest
    | _ => cases hop

theorem outline_main (h : ∀ op ∈ constants, op.isConstant = true) (m : Assembler.Member) :
    outline (constants ++ [.method m]) = { methods := [m] } := by
  rw [outline, List.foldl_append, outline_constants h]
  rfl

theorem mainOf_namesFit {flags maxStack maxLocals : UInt16} (h : descriptor.length < 2 ^ 16) :
    (mainOf flags descriptor maxStack maxLocals code).NamesFit where
  name := show (utf8 "main").length < 2 ^ 16 by decide
  descriptor := h
  attributes := nofun
  code k hk := by
    cases hk
    nofun

theorem sized_main {name : Bytes} {flags maxStack maxLocals : UInt16} (hname : name.length < 2 ^ 16)
    (hconstant : ∀ op ∈ constants, op.isConstant = true)
    (hfits : ∀ op ∈ constants, op.NamesFit) (hdescriptor : descriptor.length < 2 ^ 16)
    (hcode : (code.flatMap Instruction.encode).length + 12 < 2 ^ 32)
    (hpool : (assemble name (constants ++
      [.method (mainOf flags descriptor maxStack maxLocals code)])).pool.length ≤ 65534) :
    Sized name (constants ++ [.method (mainOf flags descriptor maxStack maxLocals code)]) := by
  have houtline := outline_main hconstant (mainOf flags descriptor maxStack maxLocals code)
  have hmember : (mainOf flags descriptor maxStack maxLocals code).Fits := by
    refine ⟨by simp [mainOf], nofun, fun k hk => ?_⟩
    cases hk
    refine ⟨?_, Nat.two_pow_pos 16, Nat.two_pow_pos 16, nofun⟩
    simp only [Code.size, List.map_nil, List.sum_nil]
    omega
  refine ⟨hname, ?_, hpool, ?_, ?_, ?_, ?_⟩
  · exact forall_mem_snoc hfits (mainOf_namesFit hdescriptor)
  · simp [houtline]
  · simp [houtline]
  · simpa [houtline] using hmember
  · simp [houtline]

end Sizes

end Assembler

namespace Machine
open Assembler

theorem Report.Tells.withLog {r : Report} {failure : Option Failure} {value : Value}
    {instructions : Nat} {lines : List Bytes} (h : r.Tells failure value instructions lines)
    (log : List Log.Entry) : Report.Tells { r with log } failure value instructions lines :=
  ⟨h.failure, h.value, h.instructions, h.lines⟩

theorem find_of_single {c : ClassFile} {found : Member} {own name descriptor wanted : Bytes}
    {code : Code} (hown : c.className = .ok own) (hmethods : c.methods = [found])
    (hname : found.name c.pool = .ok name) (hdescriptor : found.descriptor c.pool = .ok descriptor)
    (hcode : found.code? = some code) (hwanted : wanted = [] ∨ wanted = descriptor) :
    ∃ label, Entry.find c name wanted = .ok { label, code } := by
  have hresolved : (LookUp.className c.pool c.thisClass : Except ClassFile.Error Bytes) = .ok own :=
    hown
  have hnamed : (LookUp.text c.pool found.nameIndex : Except ClassFile.Error Bytes) = .ok name :=
    hname
  have htext : (LookUp.text c.pool found.descriptorIndex : Except ClassFile.Error Bytes) =
      .ok descriptor := hdescriptor
  have hentry : c.entry name wanted = some found := by
    rw [ClassFile.entry, Searching.entry]
    by_cases hempty : wanted = []
    · rw [if_pos (by simp [hempty])]
      simp only [Searching.findMethodByName, Searching.first, Searching.resolvesTo, hmethods,
        ClassFile.resolvesTo, List.find?_cons, hnamed, beq_self_eq_true]
      rfl
    · cases hwanted.resolve_left hempty
      rw [if_neg (by simp [hempty])]
      simp only [Searching.findMethod, Searching.first, Searching.resolvesTo, hmethods,
        ClassFile.resolvesTo, List.find?_cons, hnamed, htext, beq_self_eq_true]
      rfl
  refine ⟨own ++ utf8 "." ++ name ++ utf8 ":" ++ descriptor, ?_⟩
  simp only [Entry.find, Entering.find, Entering.resolve, Entering.search, hresolved, hentry, bind,
    Except.bind, Except.mapError, htext, hcode]
  rfl

/-- A class with one method, run from its bytes: the places that its script was given denote what
they were given for, and the report is that on the code of the method. -/
theorem runBytes_assemble {name wanted : Bytes} {script : List Operation}
    {m : Assembler.Member} {k : Assembler.Code} (hs : Sized name script)
    (hmethods : (outline script).methods = [m]) (hk : m.code = some k)
    (hwanted : wanted = [] ∨ wanted = m.descriptor) (minor major flags : UInt16) :
    ∃ (c : ClassFile) (entry : Entry),
      (∀ x ∈ places (start name) script, x.1.Denotes c.pool x.2) ∧
      entry.code.bytes = k.bytes ∧ entry.code.maxStack = k.maxStack ∧
      entry.code.maxLocals = k.maxLocals ∧
      ∀ (rounds : Nat) (options : Options) (store : Store) (args : List Value) (report : Report)
        (failure : Option Failure) (value : Value) (instructions : Nat) (lines : List Bytes),
        reportOn entry.label (State.run (options.setting c) rounds
            { frame := entry.frame args, store }) = some report →
          report.Tells failure value instructions lines →
          ∃ report', runBytes rounds options major store
              { assemble name script with minor, major, flags }.bytes m.name wanted args =
                some report' ∧
            report'.Tells failure value instructions lines := by
  let a := { assemble name script with minor, major, flags }
  obtain ⟨es, hes, hplaces⟩ := assemble_assembled name script hs.name hs.names hs.pool
  have ha : Assembled name (outline script) a es :=
    { hes with linked := hes.linked.transfer rfl rfl rfl }
  obtain ⟨ds, hparse⟩ : ∃ ds, ClassFile.parse major a.bytes = (.ok (a.classFile es), ds) :=
    ⟨_, (ClassFile.parse_eq_iff major a.bytes (a.classFile es) _).2 ⟨a.tables, a.trailing,
      classFile_wellFormed hs ha hs.pool, bytes_eq_layout a ha.magic ha.linked.pool, rfl⟩⟩
  have hmatches := matches_classFile ha
  have hread : (a.classFile es).methods = [m.read a] := by
    rw [classFile, ha.methods.1, hmethods]
    rfl
  have hm : m.Matches (a.classFile es).pool (m.read a) := by
    have hall := hmatches.methods
    rw [hmethods, hread] at hall
    exact (List.forall₂_cons.1 hall).1
  let code : Code := ⟨k.maxStack, k.maxLocals, k.bytes, k.attributes.map (Attribute.read a)⟩
  have hcode : (m.read a).code? = some code := by
    simp only [Member.code?, Member.read, hk]
    rfl
  obtain ⟨label, hfind⟩ := find_of_single hmatches.name hread hm.name hm.descriptor hcode hwanted
  refine ⟨a.classFile es, ⟨label, code⟩, hplaces, rfl, rfl, rfl, ?_⟩
  intro rounds options store args report failure value instructions lines hreport htells
  refine ⟨_, ?_, htells.withLog (ds.map Log.ofDiagnostic ++ report.log)⟩
  change runBytes rounds options major store a.bytes m.name wanted args = _
  rw [runBytes_of_parse hparse, runMethod_of_find hfind, hreport]
  rfl

end Machine

end ClassMachine
