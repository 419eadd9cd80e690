import ClassMachine.Proofs.Programs.Assembled
import ClassMachine.Proofs.Text

/-! A program that counts. It appends the numbers from 0 on to a string builder, up to its argument
and at least once, and prints them as one line:

    int i = 0;
    StringBuilder builder = new StringBuilder();
    do { builder.append(i); i = i + 1; } while (i < bound);
    System.out.println(builder.toString());

The invariant of the loop is `loopHead`: after `i` rounds the counter is `i`, the builder on the
stack holds the decimal forms of the numbers below `i`, and nothing has been printed. -/
namespace ClassMachine

namespace Machine
open Assembler Registry
variable {program : Program}

inductive Silent (program : Program) : Nat → Activation → Activation → Prop
  | refl (a : Activation) : Silent program 0 a a
  | head {n : Nat} {a b c : Activation} : a.step program = (b, none) →
      a.store.SameOutput b.store → Silent program n b c → Silent program (n + 1) a c

section Silent
variable {m n k : Nat} {a b c : Activation}

theorem Silent.trans (h : Silent program m a b) (h' : Silent program n b c) :
    Silent program (m + n) a c := by
  induction h with
  | refl a => rwa [Nat.zero_add]
  | head hstep hsame _ ih =>
    rw [Nat.succ_add]
    exact .head hstep hsame (ih h')

theorem Silent.steps (h : Silent program n a b) : a.steps program n = (b, none) := by
  induction h with
  | refl a => rfl
  | head hstep _ _ ih =>
    rw [Activation.steps, hstep]
    exact ih

theorem Silent.sameOutput (h : Silent program n a b) : a.store.SameOutput b.store := by
  induction h with
  | refl a => exact Store.SameOutput.refl a.store
  | head _ hsame _ ih => exact Store.SameOutput.trans _ _ _ hsame ih

theorem Silent.before (h : Silent program n a b) (hk : k ≤ n) : ∃ c, Silent program k a c := by
  induction h generalizing k with
  | refl a => exact ⟨a, Nat.le_zero.1 hk ▸ .refl a⟩
  | @head n a b c hstep hsame _ ih =>
    cases k with
    | zero => exact ⟨a, .refl a⟩
    | succ k =>
      obtain ⟨d, hd⟩ := ih (Nat.le_of_succ_le_succ hk)
      exact ⟨d, .head hstep hsame hd⟩

end Silent

/-! The program. -/

def loopCode (out builder init append text println : UInt16) : List Instruction :=
  let zero : Fin 7 := ⟨1, by decide⟩
  let limit : Fin 4 := ⟨0, by decide⟩
  let counter : Fin 4 := ⟨1, by decide⟩
  [.iconst zero, .storeShort .int counter, .getstatic out, .new builder, .dup,
    .invoke .special init, .loadShort .int counter, .invoke .virtual append, .iinc 1 1,
    .loadShort .int counter, .loadShort .int limit, .branch .less (-9), .invoke .virtual text,
    .invoke .virtual println, .ret]

def loopConstants : List Operation :=
  [.ref .field (utf8 "java/lang/System") (utf8 "out") (utf8 "Ljava/io/PrintStream;"),
    .cls (utf8 "java/lang/StringBuilder"),
    .ref .method (utf8 "java/lang/StringBuilder") (utf8 "<init>") (utf8 "()V"),
    .ref .method (utf8 "java/lang/StringBuilder") (utf8 "append")
      (utf8 "(I)Ljava/lang/StringBuilder;"),
    .ref .method (utf8 "java/lang/StringBuilder") (utf8 "toString") (utf8 "()Ljava/lang/String;"),
    .ref .method (utf8 "java/io/PrintStream") (utf8 "println") (utf8 "(Ljava/lang/String;)V")]

def loopInstructions : List Instruction := loopCode 10 12 16 20 24 30

def loopMain : Assembler.Member :=
  mainOf 9 (utf8 "([Ljava/lang/String;)V") 4 2 loopInstructions

def loopScript : List Operation := loopConstants ++ [.method loopMain]

structure LoopLinks (program : Program) : Prop where
  methods : program.methods = standardMethods
  out : program.pool.field 10 = .ok
    ⟨.fieldref, utf8 "java/lang/System", utf8 "out", utf8 "Ljava/io/PrintStream;"⟩
  builder : program.pool.className 12 = .ok (utf8 "java/lang/StringBuilder")
  init : program.pool.method 16 = .ok
    ⟨.methodref, utf8 "java/lang/StringBuilder", utf8 "<init>", utf8 "()V"⟩
  append : program.pool.method 20 = .ok ⟨.methodref, utf8 "java/lang/StringBuilder",
    utf8 "append", utf8 "(I)Ljava/lang/StringBuilder;"⟩
  text : program.pool.method 24 = .ok ⟨.methodref, utf8 "java/lang/StringBuilder",
    utf8 "toString", utf8 "()Ljava/lang/String;"⟩
  println : program.pool.method 30 = .ok ⟨.methodref, utf8 "java/io/PrintStream",
    utf8 "println", utf8 "(Ljava/lang/String;)V"⟩

def builderStore (fields : Table Bytes Value) : Store :=
  { standardStore {} with
    objects := [{ cls := printStreamClass }, { cls := stringBuilderClass, fields }] }

def builderHolding (text : Bytes) : Store := builderStore ⟨[(Native.textField, .str text)]⟩

/-- The decimal forms of the numbers below `i`, one after the other. -/
def digits (i : Nat) : Bytes := (List.range i).flatMap fun j => utf8 (toString j)

section Loop
variable (label : Bytes) (bound : Int32)

def loopFrame : Frame :=
  { method := label, code := loopInstructions.flatMap Instruction.encode, maxStack := 4 }

def afterRounds (pc i : Nat) : Activation :=
  spot (loopFrame label) pc (6 + 6 * i) [.int bound, .int (Int32.ofNat i)]
    [.obj 1, .obj systemOut] (builderHolding (digits i))

def loopHead (i : Nat) : Activation := afterRounds label bound 12 i

theorem loop_entry (hp : LoopLinks program) :
    Silent program 6 (spot (loopFrame label) 0 0 [.int bound, .void] [] (standardStore {}))
      (loopHead label bound 0) := by
  have hinit : Registry.method ⟨builderStore {}, program.methods⟩ stringBuilderClass false
      (utf8 "<init>") (utf8 "()V") = .ok (native stringBuilderClass false "<init>" [] "V"
        (Native.builderInit stringBuilderClass)) := by
    rw [hp.methods]
    rfl
  refine .head (step_iconst rfl (by simp [loopFrame])) ⟨rfl, rfl⟩ ?_
  refine .head (step_istore rfl (by simp)) ⟨rfl, rfl⟩ ?_
  refine .head (step_getstatic rfl hp.out rfl rfl (by simp [loopFrame])) ⟨rfl, rfl⟩ ?_
  refine .head (step_new rfl hp.builder rfl (by simp [loopFrame])) ⟨rfl, rfl⟩ ?_
  refine .head (step_dup rfl (by simp [loopFrame])) ⟨rfl, rfl⟩ ?_
  refine .head (step_invoke_void [.obj 1] [.obj 1, .obj systemOut] rfl hp.init rfl hinit rfl rfl)
    ⟨rfl, rfl⟩ ?_
  exact .refl _

theorem digits_succ (i : Nat) : digits (i + 1) = digits i ++ utf8 (toString i) := by
  simp [digits, List.range_succ]

theorem intText_ofNat {i : Nat} (h : i < 2 ^ 31) :
    Native.intText (Int32.ofNat i) = utf8 (toString i) := by
  rw [Native.intText, Int32.toInt_ofNat_of_lt h, ← Bytes.decimal_eq]
  rfl

theorem ofNat_succ (i : Nat) : Int32.ofNat i + (1 : Int8).toInt32 = Int32.ofNat (i + 1) := by
  rw [Int32.ofNat_add]
  rfl

theorem loop_round (hp : LoopLinks program) {i : Nat} (hi : i < 2 ^ 31) :
    Silent program 6 (loopHead label bound i)
      (afterRounds label bound (if Int32.ofNat (i + 1) < bound then 12 else 24) (i + 1)) := by
  have happend : Registry.method ⟨builderHolding (digits i), program.methods⟩ stringBuilderClass
      false (utf8 "append") (utf8 "(I)Ljava/lang/StringBuilder;") =
      .ok (native stringBuilderClass false "append" ["I"] "Ljava/lang/StringBuilder;"
        (Native.appendInt stringBuilderClass)) := by
    rw [hp.methods]
    rfl
  have hcall : (native stringBuilderClass false "append" ["I"] "Ljava/lang/StringBuilder;"
      (Native.appendInt stringBuilderClass)).invoke [.obj 1, .int (Int32.ofNat i)]
      (builderHolding (digits i)) = .ok (.obj 1) (builderHolding (digits (i + 1))) := by
    rw [digits_succ, ← intText_ofNat hi]
    rfl
  have hiinc : decode (loopFrame label).code (16 : Nat) = .ok (.iinc 1 1) := rfl
  refine .head (step_iload rfl rfl (by simp [loopFrame])) ⟨rfl, rfl⟩ ?_
  refine .head (step_invoke_result [.obj 1, .int (Int32.ofNat i)] [.obj systemOut] rfl hp.append rfl
    happend rfl hcall (by simp) (by simp [loopFrame])) ⟨rfl, rfl⟩ ?_
  refine .head (step_iinc hiinc rfl) ⟨rfl, rfl⟩ ?_
  refine .head (step_iload rfl rfl (by simp [loopFrame])) ⟨rfl, rfl⟩ ?_
  refine .head (step_iload rfl rfl (by simp [loopFrame])) ⟨rfl, rfl⟩ ?_
  refine .head (step_if_less 12 rfl rfl (show 12 < 31 by decide)) ⟨rfl, rfl⟩ ?_
  rw [ofNat_succ]
  exact .refl _

/-- The number of rounds: the bound, and at least one. -/
def loopRounds : Nat := (max bound.toInt 1).toNat

theorem loopRounds_lt : loopRounds bound < 2 ^ 31 := by
  have hlt := bound.toInt_lt
  rw [loopRounds]
  omega

theorem ofNat_lt_iff {i : Nat} (hi : i < 2 ^ 31) : Int32.ofNat i < bound ↔ i < bound.toInt := by
  rw [Int32.lt_iff_toInt_lt, Int32.toInt_ofNat_of_lt hi]

theorem loop_rounds (hp : LoopLinks program) {i : Nat} (hi : i < loopRounds bound) :
    Silent program (6 * i) (loopHead label bound 0) (loopHead label bound i) := by
  have hm := loopRounds_lt bound
  induction i with
  | zero => exact .refl _
  | succ i ih =>
    have hround := loop_round label bound hp (i := i) (by omega)
    have hback : Int32.ofNat (i + 1) < bound := by
      rw [ofNat_lt_iff bound (by omega)]
      rw [loopRounds] at hi
      omega
    rw [if_pos hback] at hround
    exact (ih (by omega)).trans hround

theorem loop_silent (hp : LoopLinks program) :
    Silent program (6 + 6 * loopRounds bound + 1)
      (spot (loopFrame label) 0 0 [.int bound, .void] [] (standardStore {}))
      (spot (loopFrame label) 27 (6 + 6 * loopRounds bound + 1)
        [.int bound, .int (Int32.ofNat (loopRounds bound))]
        [.str (digits (loopRounds bound)), .obj systemOut]
        (builderHolding (digits (loopRounds bound)))) := by
  have hm := loopRounds_lt bound
  obtain ⟨i, hi⟩ : ∃ i, loopRounds bound = i + 1 := by
    refine Nat.exists_eq_add_one.2 ?_
    rw [loopRounds]
    omega
  -- The last round does not go back to the head, so it is taken by itself.
  have hlast := loop_round label bound hp (i := i) (by omega)
  have hleaves : ¬ Int32.ofNat (i + 1) < bound := by
    rw [ofNat_lt_iff bound (by omega)]
    rw [loopRounds] at hi
    omega
  have htext : Registry.method ⟨builderHolding (digits (i + 1)), program.methods⟩
      stringBuilderClass false (utf8 "toString") (utf8 "()Ljava/lang/String;") =
      .ok (native stringBuilderClass false "toString" [] "Ljava/lang/String;"
        (Native.builderToString stringBuilderClass)) := by
    rw [hp.methods]
    rfl
  have hcall : (native stringBuilderClass false "toString" [] "Ljava/lang/String;"
      (Native.builderToString stringBuilderClass)).invoke [.obj 1]
      (builderHolding (digits (i + 1))) =
      .ok (.str (digits (i + 1))) (builderHolding (digits (i + 1))) := rfl
  have hread : Silent program 1 (afterRounds label bound 24 (i + 1))
      (spot (loopFrame label) 27 (6 + 6 * (i + 1) + 1) [.int bound, .int (Int32.ofNat (i + 1))]
        [.str (digits (i + 1)), .obj systemOut] (builderHolding (digits (i + 1)))) :=
    .head (step_invoke_result [.obj 1] [.obj systemOut] rfl hp.text rfl htext rfl hcall (by simp)
      (by simp [loopFrame])) ⟨rfl, rfl⟩ (.refl _)
  rw [if_neg hleaves] at hlast
  rw [hi]
  exact (((loop_entry label bound hp).trans
    (loop_rounds label bound hp (i := i) (by omega))).trans hlast).trans hread

end Loop

theorem loopScript_sized : Sized (utf8 "Loop") loopScript := by
  refine sized_main (by decide) (by decide) ?_ (by decide) (by decide) (by decide +kernel)
  simp only [loopConstants, List.forall_mem_cons, Operation.NamesFit]
  exact ⟨by decide, by decide, by decide, by decide, by decide, by decide,
    fun _ h => absurd h List.not_mem_nil⟩

theorem loopScript_places : places (start (utf8 "Loop")) loopScript =
    loopConstants.zip [10, 12, 16, 20, 24, 30] := by
  have hops : (places (start (utf8 "Loop")) loopScript).map Prod.fst = loopConstants :=
    places_fst _ _
  have hindices : (places (start (utf8 "Loop")) loopScript).map Prod.snd =
      [10, 12, 16, 20, 24, 30] := by decide +kernel
  exact List.zip_of_prod hops hindices

theorem loopLinks (options : Options) {c : ClassFile}
    (h : ∀ x ∈ places (start (utf8 "Loop")) loopScript, x.1.Denotes c.pool x.2) :
    LoopLinks (options.setting c).program := by
  simp only [loopScript_places, loopConstants, List.zip_cons_cons, List.zip_nil_right,
    List.forall_mem_cons] at h
  obtain ⟨hout, hbuilder, hinit, happend, htext, hprintln, -⟩ := h
  have hmethod {i : UInt16} {ref : MemberRef} (h : c.pool.member i .methodref = .ok ref) :
      c.pool.method i = .ok ref := Pool.method_of_member .method nofun h
  exact ⟨rfl, hout, hbuilder, hmethod hinit, hmethod happend, hmethod htext, hmethod hprintln⟩

theorem loop_prints (label : Bytes) (bound : Int32) (hp : LoopLinks program) :
    ∃ b, Activation.steps program (6 * loopRounds bound + 8)
        (spot (loopFrame label) 0 0 [.int bound, .void] [] (standardStore {})) = (b, none) ∧
      b.frame.executed = 6 * loopRounds bound + 8 ∧
      Written [⟨systemOut, digits (loopRounds bound), true⟩] b.store ∧
      ∃ c, b.step program = (c, some (.returned .void)) ∧ c.store = b.store ∧
        c.frame.executed = b.frame.executed + 1 := by
  have hsilent := loop_silent label bound hp
  have hw : Written [] (builderHolding (digits (loopRounds bound))) :=
    (written_nil (standardStore {})).of_sameOutput hsilent.sameOutput
  have hd : decode (loopFrame label).code (27 : Nat) = .ok (.invoke .virtual 30) := rfl
  obtain ⟨pending, sink, hwritten, hprint⟩ := step_print [] true (digits (loopRounds bound))
    hd hp.methods hp.println ⟨rfl, rfl, rfl, rfl⟩ hw
  have hcount : 6 * loopRounds bound + 8 = 6 + 6 * loopRounds bound + 1 + 1 := by omega
  rw [hcount, steps_succ hsilent.steps]
  refine ⟨_, hprint, rfl, hwritten, _, step_ret rfl, rfl, rfl⟩

/-- The program prints the numbers below its bound as one line if its budget allows for all
instructions. With one less it prints the line and is stopped, with fewer it is stopped before. -/
theorem loop_prints_digits (bound : Int32) (options : Options)
    (hcancel : options.limits.cancelAfter = none) (minor major flags : UInt16) (rounds : Nat) :
    let m := loopRounds bound
    let budget := options.limits.budget
    let run := runBytes rounds options major (standardStore {})
      { assemble (utf8 "Loop") loopScript with minor, major, flags }.bytes (utf8 "main") []
      [.int bound]
    (budget ≤ 0 ∨ 6 * m + 9 ≤ budget → 6 * m + 9 ≤ rounds →
      ∃ report, run = some report ∧ report.Tells none .void (6 * m + 9) [digits m]) ∧
    (0 < budget → budget < 6 * m + 9 → budget < rounds →
      ∃ report pc, run = some report ∧
        report.Tells (some (.stopped (.budget budget pc))) .void budget.toNat
          (if budget = 6 * m + 8 then [digits m] else [])) := by
  intro m budget run
  have hmethods : (outline loopScript).methods = [loopMain] :=
    congrArg Outline.methods (outline_main (by decide) loopMain)
  obtain ⟨c, entry, hplaces, hbytes, hstack, hlocals, hreports⟩ :=
    runBytes_assemble loopScript_sized hmethods rfl (Or.inl rfl) minor major flags
  have hp := loopLinks options hplaces
  have hframe : (⟨entry.frame [.int bound], standardStore {}⟩ : Activation) =
      spot (loopFrame entry.label) 0 0 [.int bound, .void] [] (standardStore {}) := by
    simp only [Entry.frame, Entry.slots, hbytes, hstack, hlocals]
    rfl
  obtain ⟨b, hsteps, hexecuted, hwritten, d, hret, hstore, hlast⟩ :=
    loop_prints entry.label bound hp
  rw [← hframe] at hsteps
  constructor
  · intro hbudget hrounds
    obtain ⟨report, hreport, htells⟩ := report_of_returned entry.label _ _ rfl hcancel
      (le_allowance (by exact_mod_cast hbudget)) hrounds ((steps_succ hsteps).trans hret)
      (hstore ▸ hwritten)
    rw [hlast, hexecuted] at htells
    exact hreports rounds options _ _ report _ _ _ _ hreport htells
  · intro hpos hlt hrounds
    obtain ⟨k, hk⟩ : ∃ k : Nat, budget = k := Int.eq_ofNat_of_zero_le (Int.le_of_lt hpos)
    have hstopped {e : Activation} {prints : List Print} {lines : List Bytes}
        (h : Activation.steps (options.setting c).program k
          ⟨entry.frame [.int bound], standardStore {}⟩ = (e, none))
        (hw : Written prints e.store) (hlines : Print.rendering prints = lines) :
        ∃ report pc, run = some report ∧
          report.Tells (some (.stopped (.budget budget pc))) .void budget.toNat lines := by
      have hrest : k < rounds := by omega
      obtain ⟨report, hreport, htells⟩ :=
        report_of_budget entry.label _ _ hcancel (by omega) hk hrest h hw
      rw [hlines] at htells
      obtain ⟨report', hrun, htells'⟩ :=
        hreports rounds options _ _ report _ _ _ _ hreport htells
      refine ⟨report', e.frame.pc, hrun, ?_⟩
      rw [hk]
      exact htells'
    by_cases hall : budget = 6 * m + 8
    · rw [if_pos hall]
      have hk' : k = 6 * m + 8 := by omega
      exact hstopped (hk' ▸ hsteps) hwritten rfl
    · rw [if_neg hall]
      have hsilent := loop_silent entry.label bound hp
      obtain ⟨e, he⟩ := hsilent.before (k := k) (by omega)
      have hw := (written_nil (standardStore {})).of_sameOutput he.sameOutput
      rw [← hframe] at he
      exact hstopped he.steps hw rfl

/-- With a budget of 80 the numbers below 12 are printed, but the method does not return. -/
theorem loop_prints_twelve :
    ({ budget := 80 } : Limits).cancelAfter = none ∧
      ∃ report pc, runBytes 81 { limits := { budget := 80 } } 50 (standardStore {})
          { assemble (utf8 "Loop") loopScript with minor := 0, major := 50, flags := 0x21 }.bytes
          (utf8 "main") [] [.int 12] = some report ∧
        report.Tells (some (.stopped (.budget 80 pc))) .void 80 [utf8 "01234567891011"] := by
  obtain ⟨-, hstopped⟩ :=
    loop_prints_digits 12 { limits := { budget := 80 } } rfl 0 50 0x21 81
  obtain ⟨report, pc, hrun, htells⟩ := hstopped (by decide) (by decide) (by decide)
  have hlines : digits (loopRounds 12) = utf8 "01234567891011" := by decide
  rw [if_pos (by decide), hlines] at htells
  exact ⟨rfl, report, pc, hrun, htells⟩

end Machine

end ClassMachine
