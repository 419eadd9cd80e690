import ClassMachine.Proofs.Programs.Assembled

/-! Programs that print. The code of such a program makes one call of `print` or `println` after
the other, each with a string of the constant pool, and returns. The lines that come out are those
of `linesAfter`, which knows neither of class files nor of machines. -/
namespace ClassMachine

structure PrintCall where
  text : Bytes
  ends : Bool

namespace PrintCall

/-- The lines of the calls, if `held` was printed since the last end of line. -/
def linesAfter (held : Bytes) : List PrintCall → List Bytes
  | [] => if held = [] then [] else [held]
  | call :: calls =>
    if call.ends then (held ++ call.text) :: linesAfter [] calls
    else linesAfter (held ++ call.text) calls

def toPrint (o : ObjectId) (call : PrintCall) : Print := ⟨o, call.text, call.ends⟩

section Rendering
open Print
variable {o : ObjectId} {past : List Print}

theorem leftovers_of_single (h : ∀ p ∈ past, p.object = o) :
    ((printers past).map fun j => since j past).filter (· ≠ []) = linesAfter (since o past) [] := by
  have hall : ∀ j ∈ printers past, j = o := by
    intro j hj
    obtain ⟨p, hp, -, rfl⟩ := mem_printers.1 hj
    exact h p hp
  have hnodup := nodup_printers past
  cases hp : printers past with
  | nil =>
    have hno : o ∉ printers past := by
      rw [hp]
      exact List.not_mem_nil
    rw [since_of_not_mem hno]
    rfl
  | cons j rest =>
    rw [hp] at hall hnodup
    have hj : j = o := hall j List.mem_cons_self
    have hrest : rest = [] := by
      refine List.eq_nil_iff_forall_not_mem.2 fun k hk => ?_
      have hk' : k = j := (hall k (List.mem_cons_of_mem j hk)).trans hj.symm
      exact (List.nodup_cons.1 hnodup).1 (hk' ▸ hk)
    rw [hj, hrest, linesAfter]
    by_cases hs : since o past = [] <;> simp [hs]

theorem rendering_from (past : List Print) (h : ∀ p ∈ past, p.object = o)
    (calls : List PrintCall) :
    emitted past (calls.map (toPrint o)) ++
        ((printers (past ++ calls.map (toPrint o))).map fun j =>
          since j (past ++ calls.map (toPrint o))).filter (· ≠ []) =
      linesAfter (since o past) calls := by
  induction calls generalizing past with
  | nil =>
    rw [List.map_nil, List.append_nil, emitted, List.nil_append]
    exact leftovers_of_single h
  | cons call calls ih =>
    have hpast : ∀ p ∈ past ++ [toPrint o call], p.object = o := by
      intro p hp
      rcases List.mem_append.1 hp with hp | hp
      · exact h p hp
      · rw [List.mem_singleton.1 hp]
        rfl
    have hrest := ih (past ++ [toPrint o call]) hpast
    rw [List.append_assoc, List.singleton_append] at hrest
    rw [List.map_cons, emitted, List.append_assoc, hrest, linesAfter]
    cases hends : call.ends with
    | true =>
      have hsince := since_of_ends past (toPrint o call) hends
      rw [show (toPrint o call).ends = true from hends, if_pos rfl, if_pos rfl]
      exact congrArg (_ :: linesAfter · calls) hsince
    | false =>
      have hsince := since_of_goes_on past (toPrint o call) hends
      rw [show (toPrint o call).ends = false from hends, if_neg Bool.false_ne_true,
        if_neg Bool.false_ne_true]
      exact congrArg (linesAfter · calls) hsince

theorem rendering_eq (o : ObjectId) (calls : List PrintCall) :
    rendering (calls.map (toPrint o)) = linesAfter [] calls :=
  rendering_from [] nofun calls

end Rendering

end PrintCall

namespace Machine
open Registry

structure Site where
  out : UInt16
  text : UInt16
  method : UInt16

def Site.code (s : Site) : List Instruction :=
  [.getstatic s.out, .ldcWide s.text, .invoke .virtual s.method]

def printCode (sites : List Site) : List Instruction := sites.flatMap Site.code ++ [.ret]

def outRef : MemberRef where
  kind := .fieldref
  className := utf8 "java/lang/System"
  name := utf8 "out"
  descriptor := utf8 "Ljava/io/PrintStream;"

structure Site.Resolves (pool : Pool) (call : PrintCall) (s : Site) : Prop where
  out : pool.field s.out = .ok outRef
  text : pool.stringValue s.text = .ok call.text
  method : pool.method s.method = .ok (printRef call.ends)

section Steps
variable {program : Program} {f : Frame} {locals : List Value} {store : Store} {prints : List Print}

theorem steps_site {call : PrintCall} {s : Site} {before after : List Instruction} (n : Nat)
    (hmethods : program.methods = standardMethods) (hs : s.Resolves program.pool call)
    (hcode : f.code = (before ++ (s.code ++ after)).flatMap Instruction.encode)
    (hstack : f.maxStack = 2) (hout : HasOut store) (hw : Written prints store) :
    ∃ pending sink, Written (prints ++ [call.toPrint systemOut]) { store with pending, sink } ∧
      (spot f (before.flatMap Instruction.encode).length n locals [] store).steps program 3 =
        (spot f ((before ++ s.code).flatMap Instruction.encode).length (n + 3) locals []
          { store with pending, sink }, none) := by
  let pc := (before.flatMap Instruction.encode).length
  let first := before ++ [.getstatic s.out]
  let second := first ++ [.ldcWide s.text]
  let third := second ++ [.invoke .virtual s.method]
  have hfirst : (first.flatMap Instruction.encode).length = pc + 3 := length_sequence_snoc before _
  have hsecond : (second.flatMap Instruction.encode).length = pc + 3 + 3 := by
    rw [← hfirst]
    exact length_sequence_snoc first _
  have hthird : (third.flatMap Instruction.encode).length = pc + 3 + 3 + 3 := by
    rw [← hsecond]
    exact length_sequence_snoc second _
  have hget : decode f.code pc = .ok (.getstatic s.out) := by
    rw [hcode]
    exact decode_sequence before _ _
  have hldc : decode f.code (pc + 3 : Nat) = .ok (.ldcWide s.text) := by
    have h := decode_sequence first (.invoke .virtual s.method :: after) (.ldcWide s.text)
    rw [hfirst] at h
    simpa [hcode, first, Site.code] using h
  have hinvoke : decode f.code (pc + 3 + 3 : Nat) = .ok (.invoke .virtual s.method) := by
    have h := decode_sequence second after (.invoke .virtual s.method)
    rw [hsecond] at h
    simpa [hcode, first, second, Site.code] using h
  have hbehind : before ++ s.code = third := by
    simp [third, second, first, Site.code]
  obtain ⟨pending, sink, hwritten, hprint⟩ :=
    step_print [] call.ends call.text hinvoke hmethods hs.method hout hw
  refine ⟨pending, sink, hwritten, ?_⟩
  have hpush : (spot f pc n locals [] store).step program =
      (spot f (pc + 3) (n + 1) locals [.obj systemOut] store, none) :=
    step_getstatic hget hs.out hout.system hout.out (by simp [hstack])
  have hload : (spot f (pc + 3) (n + 1) locals [.obj systemOut] store).step program =
      (spot f (pc + 3 + 3) (n + 2) locals [.str call.text, .obj systemOut] store, none) :=
    step_ldcWide hldc hs.text (by simp [hstack])
  have htwo := (steps_succ ((steps_succ (n := 0) rfl).trans hpush)).trans hload
  rw [hbehind, hthird]
  exact (steps_succ htwo).trans hprint

/-- From the code of the first call on, everything is printed and the method returns. -/
theorem steps_sites (program : Program) {calls : List PrintCall} {sites : List Site}
    (h : List.Forall₂ (Site.Resolves program.pool) calls sites)
    (hmethods : program.methods = standardMethods) (hstack : f.maxStack = 2)
    (before : List Instruction) (n : Nat)
    (hcode : f.code = (before ++ printCode sites).flatMap Instruction.encode)
    (hout : HasOut store) (hw : Written prints store) :
    ∃ b, (spot f (before.flatMap Instruction.encode).length n locals [] store).steps program
        (3 * calls.length + 1) = (b, some (.returned .void)) ∧
      b.frame.executed = n + 3 * calls.length + 1 ∧
      Written (prints ++ calls.map (PrintCall.toPrint systemOut)) b.store := by
  -- With each call its code joins what stands before, and its print what was printed before.
  induction h generalizing before n store prints with
  | nil =>
    have hret : decode f.code (before.flatMap Instruction.encode).length = .ok .ret := by
      rw [hcode]
      exact decode_sequence before [] .ret
    refine ⟨_, (steps_succ (n := 0) rfl).trans (step_ret hret), rfl, ?_⟩
    rw [List.map_nil, List.append_nil]
    exact hw
  | @cons call s calls sites hs _ ih =>
    have hsplit : before ++ printCode (s :: sites) = before ++ (s.code ++ printCode sites) := by
      simp [printCode]
    rw [hsplit] at hcode
    obtain ⟨pending, sink, hwritten, hsteps⟩ :=
      steps_site n hmethods hs hcode hstack hout hw
    rw [← List.append_assoc] at hcode
    have hout' : HasOut { store with pending, sink } :=
      ⟨hout.system, hout.out, hout.stream, hout.object⟩
    obtain ⟨b, hrest, hexecuted, hprinted⟩ := ih (before ++ s.code) (n + 3) hcode hout' hwritten
    refine ⟨b, ?_, ?_, ?_⟩
    · have hcount : 3 * (call :: calls).length + 1 = 3 + (3 * calls.length + 1) := by
        rw [List.length_cons]
        omega
      rw [hcount, steps_add, hsteps]
      exact hrest
    · rw [hexecuted, List.length_cons]
      omega
    · simpa using hprinted

end Steps

/-! The classes of such programs. -/

section Class
open Assembler

def outOperation : Operation := .ref .field outRef.className outRef.name outRef.descriptor

def printOperation (ends : Bool) : Operation :=
  .ref .method (printRef ends).className (printRef ends).name (printRef ends).descriptor

theorem outOperation_fits : outOperation.NamesFit :=
  show _ ∧ _ ∧ _ from ⟨by decide, by decide, by decide⟩

theorem printOperation_fits (ends : Bool) : (printOperation ends).NamesFit := by
  cases ends <;> exact show _ ∧ _ ∧ _ from ⟨by decide, by decide, by decide⟩

def stringPlace (call : PrintCall) (s : Site) : Operation × UInt16 := (.string call.text, s.text)

/-- A class of the given name gets constants, and the places that the code of the calls refers to
are places of these constants. Each call has a string of its own; references may be shared. -/
structure Spells (name : Bytes) (calls : List PrintCall) (constants : List Operation)
    (sites : List Site) : Prop where
  constant : ∀ op ∈ constants, op.isConstant = true
  fits : ∀ op ∈ constants, op.NamesFit
  refs : List.Forall₂ (fun call s => (outOperation, s.out) ∈ places (start name) constants ∧
    (printOperation call.ends, s.method) ∈ places (start name) constants) calls sites
  strings : (List.zipWith stringPlace calls sites).Sublist (places (start name) constants)

theorem resolves_of_denotes {pool : Pool} {given : List (Operation × UInt16)}
    {calls : List PrintCall} {sites : List Site} (h : ∀ x ∈ given, x.1.Denotes pool x.2)
    (hrefs : List.Forall₂ (fun call s => (outOperation, s.out) ∈ given ∧
      (printOperation call.ends, s.method) ∈ given) calls sites)
    (hstrings : ∀ x ∈ List.zipWith stringPlace calls sites, x ∈ given) :
    List.Forall₂ (Site.Resolves pool) calls sites := by
  induction hrefs with
  | nil => exact .nil
  | @cons call s calls sites hs _ ih =>
    rw [List.zipWith_cons_cons, List.forall_mem_cons] at hstrings
    refine .cons ⟨h _ hs.1, h _ hstrings.1, Pool.method_of_member .method nofun (h _ hs.2)⟩
      (ih hstrings.2)

theorem length_printCode (sites : List Site) :
    ((printCode sites).flatMap Instruction.encode).length = 9 * sites.length + 1 := by
  induction sites with
  | nil => rfl
  | cons s sites ih =>
    have hsplit : printCode (s :: sites) = s.code ++ printCode sites := by
      simp [printCode]
    have hsite : (s.code.flatMap Instruction.encode).length = 9 := rfl
    rw [hsplit, List.flatMap_append, List.length_append, hsite, ih, List.length_cons]
    omega

variable {name : Bytes} {calls : List PrintCall} {constants : List Operation} {sites : List Site}

theorem Spells.length_le (h : Spells name calls constants sites) :
    sites.length ≤ (assemble name constants).pool.length := by
  have hstrings : (List.zipWith stringPlace calls sites).map Prod.fst =
      ((List.zipWith stringPlace calls sites).map Prod.fst).filter Operation.isString := by
    symm
    rw [List.filter_eq_self]
    intro op hop
    rw [← List.map_uncurry_zip_eq_zipWith, List.map_map] at hop
    obtain ⟨x, -, rfl⟩ := List.mem_map.1 hop
    rfl
  have hsub := ((h.strings.map Prod.fst).filter Operation.isString).length_le
  rw [← hstrings, places_fst, List.filter_eq_self.2 h.constant, List.length_map,
    List.length_zipWith, h.refs.length_eq, Nat.min_self] at hsub
  have hpool := strings_le_pool constants h.fits (start name)
  exact Nat.le_trans hsub (Nat.le_trans (Nat.le_add_left _ _) hpool)

def sitesFor (out printing ending : UInt16) (calls : List PrintCall)
    (strings : List (Operation × UInt16)) : List Site :=
  List.zipWith (fun call x => ⟨out, x.2, if call.ends then ending else printing⟩) calls strings

theorem sitesFor_strings {out printing ending : UInt16} {strings : List (Operation × UInt16)}
    (h : strings.map Prod.fst = calls.map fun call => .string call.text) :
    List.zipWith stringPlace calls (sitesFor out printing ending calls strings) = strings ∧
      List.Forall₂ (fun call s => s.out = out ∧ s.method = if call.ends then ending else printing)
        calls (sitesFor out printing ending calls strings) := by
  induction calls generalizing strings with
  | nil =>
    rw [List.map_nil, List.map_eq_nil_iff] at h
    subst h
    exact ⟨rfl, .nil⟩
  | cons call calls ih =>
    cases strings with
    | nil => cases h
    | cons x strings =>
      obtain ⟨hx, hrest⟩ := List.cons.inj h
      obtain ⟨htexts, hplaces⟩ := ih hrest
      refine ⟨congrArg₂ List.cons (Prod.ext hx.symm rfl) htexts, .cons ⟨rfl, rfl⟩ hplaces⟩

/-- Every list of calls can be spelled: the references come first, then a string for each call. -/
theorem exists_spells (name : Bytes) (calls : List PrintCall)
    (hcalls : ∀ call ∈ calls, call.text.length ≤ 65535) :
    ∃ constants sites, Spells name calls constants sites := by
  let constants : List Operation := outOperation :: printOperation false :: printOperation true ::
    calls.map fun call => .string call.text
  have hconstant : ∀ op ∈ constants, op.isConstant = true := by
    simp [constants, outOperation, printOperation, Operation.isConstant]
  have hfits : ∀ op ∈ constants, op.NamesFit := by
    simp only [constants, List.forall_mem_cons, List.forall_mem_map]
    exact ⟨outOperation_fits, printOperation_fits false, printOperation_fits true,
      fun call hcall => Nat.lt_succ_of_le (hcalls call hcall)⟩
  have hgiven := places_fst (start name) constants
  rw [List.filter_eq_self.2 hconstant] at hgiven
  obtain ⟨⟨_, out⟩, _, hout, rfl, hprints⟩ := List.map_eq_cons_iff.1 hgiven
  obtain ⟨⟨_, printing⟩, _, rfl, rfl, hends⟩ := List.map_eq_cons_iff.1 hprints
  obtain ⟨⟨_, ending⟩, strings, rfl, rfl, hstrings⟩ := List.map_eq_cons_iff.1 hends
  obtain ⟨htexts, hsites⟩ := sitesFor_strings hstrings
  refine ⟨constants, sitesFor out printing ending calls strings, hconstant, hfits, ?_, ?_⟩
  · refine hsites.imp fun call s hs => ?_
    rw [hout, hs.1, hs.2]
    cases call.ends <;> simp
  · rw [hout, htexts]
    exact (((List.sublist_cons_self _ _).trans (List.sublist_cons_self _ _)).trans
      (List.sublist_cons_self _ _))

/-- However the constants of the program were added, its run returns after three instructions for
each call and one for the return, and the lines are those of the calls. -/
theorem print_program_lines (name : Bytes) (hname : name.length < 2 ^ 16) (calls : List PrintCall)
    (hcalls : ∀ call ∈ calls, call.text.length ≤ 65535) :
    (∃ constants sites, Spells name calls constants sites) ∧
    ∀ (constants : List Operation) (sites : List Site) (flags maxLocals : UInt16)
      (descriptor wanted : Bytes) (minor major classFlags : UInt16) (options : Options)
      (args : List Value) (rounds : Nat),
      let main := mainOf flags descriptor 2 maxLocals (printCode sites)
      let assembled := assemble name (constants ++ [.method main])
      Spells name calls constants sites → descriptor.length < 2 ^ 16 →
      assembled.pool.length ≤ 65534 → wanted = [] ∨ wanted = descriptor →
      options.limits.cancelAfter = none →
      options.limits.budget ≤ 0 ∨ 3 * calls.length + 1 ≤ options.limits.budget →
      3 * calls.length + 1 ≤ rounds →
      ∃ report, runBytes rounds options major (standardStore {})
          { assembled with minor, major, flags := classFlags }.bytes (utf8 "main") wanted args =
            some report ∧
        report.Tells none .void (3 * calls.length + 1) (PrintCall.linesAfter [] calls) := by
  refine ⟨exists_spells name calls hcalls, ?_⟩
  intro constants sites flags maxLocals descriptor wanted minor major classFlags options args rounds
    main assembled h hdescriptor hpool hwanted hcancel hbudget hrounds
  -- Each call has a string in the pool, so the code is not too long for its attribute.
  have hsites : sites.length ≤ 65534 := by
    have hgrows := perform_pool (.method main) (mainOf_namesFit hdescriptor)
      (assemble name constants)
    have hlast : assembled = Operation.perform (assemble name constants) (.method main) :=
      List.foldl_append
    rw [hlast] at hpool
    exact h.length_le.trans (hgrows.length_le.trans hpool)
  have hcode : ((printCode sites).flatMap Instruction.encode).length + 12 < 2 ^ 32 := by
    rw [length_printCode]
    omega
  have hsized : Sized name (constants ++ [.method main]) :=
    sized_main hname h.constant h.fits hdescriptor hcode hpool
  have hmethods : (outline (constants ++ [.method main])).methods = [main] :=
    congrArg Outline.methods (outline_main h.constant main)
  obtain ⟨c, entry, hplaces, hbytes, hstack, hlocals, hreports⟩ :=
    runBytes_assemble hsized hmethods rfl hwanted minor major classFlags
  have hgiven : ∀ x ∈ places (start name) constants, x.1.Denotes c.pool x.2 := by
    intro x hx
    refine hplaces x ?_
    rw [places_append]
    exact List.mem_append_left _ hx
  have hresolves := resolves_of_denotes hgiven h.refs h.strings.subset
  have hmaxStack : (entry.frame args).maxStack = 2 := by
    rw [Entry.frame, hstack]
    rfl
  obtain ⟨b, hsteps, hexecuted, hwritten⟩ :=
    steps_sites (options.setting c).program hresolves rfl hmaxStack [] 0 hbytes
      ⟨rfl, rfl, rfl, rfl⟩ (written_nil (standardStore {}))
  obtain ⟨report, hreport, htells⟩ := report_of_returned entry.label _ _ rfl hcancel
    (le_allowance hbudget) hrounds hsteps hwritten
  rw [hexecuted, Nat.zero_add, List.nil_append, PrintCall.rendering_eq] at htells
  exact hreports rounds options _ args report _ _ _ _ hreport htells

/-- Texts that are names in the class as well, and bytes that encode no text. -/
def noticeCalls : List PrintCall :=
  [⟨utf8 "main", false⟩, ⟨utf8 "java/io/PrintStream", true⟩, ⟨[], true⟩, ⟨[0xFF, 0], false⟩,
    ⟨utf8 "main", false⟩]

def noticeConstants : List Operation :=
  noticeCalls.flatMap fun call => [outOperation, .string call.text, printOperation call.ends]

def noticeSites : List Site :=
  [⟨10, 12, 16⟩, ⟨18, 19, 22⟩, ⟨24, 26, 28⟩, ⟨30, 32, 34⟩, ⟨36, 37, 39⟩]

theorem notice_spells :
    Spells (utf8 "java/io/PrintStream") noticeCalls noticeConstants noticeSites := by
  have hplaces : places (start (utf8 "java/io/PrintStream")) noticeConstants =
      noticeConstants.zip (noticeSites.flatMap fun s => [s.out, s.text, s.method]) :=
    List.zip_of_prod (places_fst _ _) (by decide +kernel)
  refine ⟨by decide, ?_, ?_, ?_⟩
  · have htexts : ∀ call ∈ noticeCalls, call.text.length < 2 ^ 16 := by decide
    simp only [noticeConstants, List.forall_mem_flatMap, List.forall_mem_cons]
    exact fun call hcall =>
      ⟨outOperation_fits, htexts call hcall, printOperation_fits call.ends, nofun⟩
  · rw [hplaces]
    simp [noticeConstants, noticeSites, noticeCalls]
  · rw [hplaces]
    simp [noticeConstants, noticeSites, noticeCalls, stringPlace, List.cons_sublist_cons']

def noticeScript : List Operation :=
  noticeConstants ++ [.method (mainOf 9 (utf8 "()V") 2 0 (printCode noticeSites))]

theorem notice_prints :
    ∃ report, runBytes 16 { limits := { budget := 16 } } 50 (standardStore {})
        { assemble (utf8 "java/io/PrintStream") noticeScript with
          minor := 0, major := 50, flags := 0x21 }.bytes (utf8 "main") [] [] = some report ∧
      report.Tells none .void 16 [utf8 "mainjava/io/PrintStream", [], [0xFF, 0] ++ utf8 "main"] := by
  have hlines : PrintCall.linesAfter [] noticeCalls =
      [utf8 "mainjava/io/PrintStream", [], [0xFF, 0] ++ utf8 "main"] := by decide
  rw [← hlines]
  exact (print_program_lines (utf8 "java/io/PrintStream") (by decide) noticeCalls (by decide)).2
    noticeConstants noticeSites 9 0 (utf8 "()V") [] 0 50 0x21 { limits := { budget := 16 } } [] 16
    notice_spells (by decide) (by decide +kernel) (Or.inl rfl) rfl (Or.inr (by decide)) (by decide)

end Class

end Machine

end ClassMachine
