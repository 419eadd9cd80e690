import ClassMachine.Proofs.Library.Refusal
import ClassMachine.Proofs.Machine.Output

/-! A method over a sink that takes only some lines. The run is the same as over a sink that takes
every line until a line is refused; then it is stopped (`run_parallel`), and nothing more is
written. So the sink takes the first lines of the other run, and the results differ only if there
are more. -/
namespace ClassMachine.Machine
open Fallible Effect
variable {α : Type} {n : Nat} {program : Program}

def Activation.upTo (n : Nat) (a : Activation) : Activation := { a with store := a.store.upTo n }

def State.upTo (n : Nat) (s : State) : State := { s with store := s.store.upTo n }

theorem follows_ofStore {get : Store → Except Library.Error α}
    (h : ∀ s : Store, get (s.upTo n) = get s) :
    Follows n Activation.store (Activation.upTo n) (ofStore get) := by
  refine follows_of_quiet (fun a => ?_) fun a => ?_
  · simp only [ofStore]
    cases get a.store <;> rfl
  · have hsame : get (a.upTo n).store = get a.store := h a.store
    simp only [ofStore, hsame]
    cases get a.store <;> rfl

theorem follows_call {m : Method} (hm : m ∈ Registry.standardMethods) (args : List Value) :
    Follows n Activation.store (Activation.upTo n) (call m args) := by
  have h : Follows n id (Store.upTo n) (m.invoke args) :=
    Registry.standardMethods_closed Native.follows_closed hm args
  refine ⟨fun a => ?_, fun a ha => ?_⟩
  · rw [call_store]
    exact h.grows a.store
  · rw [call_store]
    rcases h.follows a.store ha with ⟨hwithin, himage⟩ | ⟨e, u, himage, hrefused⟩
    · refine Or.inl ⟨hwithin, ?_⟩
      cases hr : m.invoke args a.store with
      | ok v t =>
        rw [hr] at himage
        rw [call_of_ok hr]
        exact call_of_ok (a := a.upTo n) himage
      | error e t =>
        rw [hr] at himage
        rw [call_of_error hr]
        exact call_of_error (a := a.upTo n) himage
    · exact Or.inr ⟨_, _, call_of_error (a := a.upTo n) himage, hrefused⟩

theorem follows_closed (hmethods : program.methods = Registry.standardMethods) :
    Closed program fun _ => Follows n Activation.store (Activation.upTo n) where
  pure := follows_pure
  throw := follows_throw
  bind he hf := follows_bind he fun _ x _ _ => hf x
  ofFrame read := by
    refine follows_of_quiet (fun a => ?_) fun a => ?_
    · simp only [Effect.ofFrame]
      cases read a.frame <;> rfl
    · simp only [Effect.ofFrame, Activation.upTo]
      cases read a.frame <;> rfl
  onFrame {change} _ := by
    refine follows_of_quiet (fun a => ?_) fun a => ?_
    · simp only [Effect.onFrame]
      cases change a.frame <;> rfl
    · simp only [Effect.onFrame, Activation.upTo]
      cases change a.frame <;> rfl
  takeFrame {_ take} _ := by
    refine follows_of_quiet (fun a => ?_) fun a => ?_
    · simp only [Effect.takeFrame]
      cases take a.frame <;> rfl
    · simp only [Effect.takeFrame, Activation.upTo]
      cases take a.frame <;> rfl
  lookup _ := follows_ofStore fun _ => rfl
  staticField _ _ := follows_ofStore fun _ => rfl
  findMethod c isStatic ref hf := by
    refine follows_bind (follows_ofStore fun _ => rfl) fun a m b h => hf m ?_
    simp only [Effect.findMethod, Effect.ofStore] at h
    split at h
    · rename_i m' hm
      cases h
      exact method_mem hm
    · cases h
  call m hm args := follows_call (hmethods ▸ hm) args
  newObject _ := follows_of_quiet (fun _ => rfl) fun _ => rfl

/-- What becomes of two runs: they agree, or the second one is stopped by a refused line. -/
def Parallel (n : Nat) (r r' : State × Option Outcome) : Prop :=
  (Within n r.1.store ∧ r' = (r.1.upTo n, r.2)) ∨
    ((∃ reason, r'.2 = some (.stopped reason)) ∧ Refused n r.1.store r'.1.store)

theorem execute_follows (hmethods : program.methods = Registry.standardMethods) (i : Instruction) :
    Follows n Activation.store (Activation.upTo n) (execute program i) :=
  execute_closed (follows_closed hmethods) i

section Runs
variable (setting : Setting) (hmethods : setting.program.methods = Registry.standardMethods)
  (s : State)
include hmethods

theorem advance_extends : s.store.Extends (s.advance setting).1.store := by
  have hstore : (s.advance setting).1.store = (s.activation.step setting.program).1.store := by
    rw [advance_step setting s]
    rfl
  rw [hstore]
  cases hd : decode s.frame.code s.frame.pc with
  | error cause =>
    rw [(Activation.StepsTo.stuck (a := s.activation) hd).eq]
    exact List.prefix_rfl
  | ok i =>
    rw [step_store (a := s.activation) hd]
    exact (execute_follows (n := 0) hmethods i).grows s.activation.counted

theorem round_extends : s.store.Extends (s.round setting).1.store := by
  rcases round_cases setting s with ⟨-, hr⟩ | ⟨-, -, -, hr⟩ | ⟨-, -, hr⟩
  · rw [hr]
    exact List.prefix_rfl
  · rw [hr]
    exact List.prefix_rfl
  · rw [hr]
    exact advance_extends setting hmethods (s.look setting)

theorem run_extends (rounds : Nat) : s.store.Extends (s.run setting rounds).1.store := by
  induction rounds generalizing s with
  | zero => exact List.prefix_rfl
  | succ rounds ih =>
    have hround := round_extends setting hmethods s
    rw [run_first]
    cases hr : s.round setting with
    | mk t o =>
      rw [hr] at hround
      cases o with
      | none => exact hround.trans (ih t)
      | some out => exact hround

theorem advance_parallel (hs : Within n s.store) :
    Parallel n (s.advance setting) ((s.upTo n).advance setting) := by
  cases hd : decode s.frame.code s.frame.pc with
  | error cause =>
    have hd' : decode (s.upTo n).frame.code (s.upTo n).frame.pc = .error cause := hd
    rw [advance_of_error setting s hd, advance_of_error setting (s.upTo n) hd']
    exact Or.inl ⟨hs, rfl⟩
  | ok i =>
    have hd' : decode (s.upTo n).frame.code (s.upTo n).frame.pc = .ok i := hd
    have hcounted : (s.upTo n).activation.counted = s.activation.counted.upTo n := rfl
    rw [advance_of_ok setting s hd, advance_of_ok setting (s.upTo n) hd', hcounted]
    rcases (execute_follows hmethods i).follows s.activation.counted hs with
      ⟨hw, himage⟩ | ⟨e, u, himage, hrefused⟩
    · rw [himage]
      refine Or.inl ?_
      change Within n (final (execute setting.program i s.activation.counted)).store at hw
      cases hx : execute setting.program i s.activation.counted with
      | error e b =>
        rw [hx] at hw
        exact ⟨hw, rfl⟩
      | ok control b =>
        rw [hx] at hw
        cases control <;> exact ⟨hw, rfl⟩
    · rw [himage]
      refine Or.inr ⟨⟨_, rfl⟩, ?_⟩
      cases hx : execute setting.program i s.activation.counted with
      | error e b =>
        rw [hx] at hrefused
        exact hrefused
      | ok control b =>
        rw [hx] at hrefused
        cases control <;> exact hrefused

theorem round_parallel (hs : Within n s.store) :
    Parallel n (s.round setting) ((s.upTo n).round setting) := by
  have hround : (s.upTo n).round setting =
      if setting.limits.exhausted s.executed then
        (s.upTo n, some (.stopped (.budget setting.limits.budget s.frame.pc)))
      else if s.executed % setting.limits.every = 0 then
        if setting.limits.cancelled s.looks then
          (State.upTo n { s with looks := s.looks + 1 }, some (.stopped .cancelled))
        else (State.upTo n { s with looks := s.looks + 1 }).advance setting
      else (s.upTo n).advance setting := rfl
  rw [hround, round_eq]
  by_cases hb : setting.limits.exhausted s.executed
  · rw [if_pos hb, if_pos hb]
    exact Or.inl ⟨hs, rfl⟩
  · rw [if_neg hb, if_neg hb]
    by_cases he : s.executed % setting.limits.every = 0
    · rw [if_pos he, if_pos he]
      cases setting.limits.cancelled s.looks with
      | true => exact Or.inl ⟨hs, rfl⟩
      | false => exact advance_parallel setting hmethods { s with looks := s.looks + 1 } hs
    · rw [if_neg he, if_neg he]
      exact advance_parallel setting hmethods s hs

theorem run_parallel (rounds : Nat) (hs : Within n s.store) :
    Parallel n (s.run setting rounds) ((s.upTo n).run setting rounds) := by
  induction rounds generalizing s with
  | zero => exact Or.inl ⟨hs, rfl⟩
  | succ rounds ih =>
    rw [run_first, run_first]
    rcases round_parallel setting hmethods s hs with ⟨hw, hsame⟩ | ⟨⟨reason, hstopped⟩, hrefused⟩
    · rw [hsame]
      cases hr : s.round setting with
      | mk t o =>
        rw [hr] at hw
        cases o with
        | none => exact ih t hw
        | some out => exact Or.inl ⟨hw, rfl⟩
    · cases hr' : (s.upTo n).round setting with
      | mk u o' =>
        rw [hr'] at hstopped hrefused
        obtain rfl : o' = some (.stopped reason) := hstopped
        refine Or.inr ⟨⟨reason, rfl⟩, ?_⟩
        cases hr : s.round setting with
        | mk t o =>
          rw [hr] at hrefused
          cases o with
          | none => exact hrefused.of_extends (run_extends setting hmethods t rounds)
          | some out => exact hrefused

end Runs

/-! The end of a run. -/

def Report.upTo (n : Nat) (r : Report) : Report := { r with store := r.store.upTo n }

theorem finish_of_stopped (label : Bytes) (s : State) (reason : Stop) :
    (finish label s (.stopped reason)).failure.isSome := by
  simp only [finish]
  cases Native.flush s.store <;> rfl

theorem finish_of_refused {s : State} {e : Library.Error} {store : Store}
    (h : Native.flush s.store = .error e store) (label : Bytes) (outcome : Outcome) :
    (finish label s outcome).failure.isSome := by
  simp only [finish, h]
  cases outcome <;> rfl

theorem finish_upTo {s : State}
    (h : Native.flush (s.store.upTo n) = mapState (Store.upTo n) (Native.flush s.store))
    (label : Bytes) (outcome : Outcome) :
    finish label (s.upTo n) outcome = (finish label s outcome).upTo n := by
  have hstore : (s.upTo n).store = s.store.upTo n := rfl
  simp only [finish, hstore, h]
  cases Native.flush s.store <;> cases outcome <;> rfl

/-- The store that a run leaves: that of the report, or the one it has come to so far. -/
def storeOf (label : Bytes) (r : State × Option Outcome) : Store :=
  match reportOn label r with
  | some report => report.store
  | none => r.1.store

theorem within_lines {s : Store} (hs : Within n s) : s.sink.lines.length ≤ n := by
  rw [hs.lines, Sink.offered, List.length_map]
  exact hs.length

/-- Parallel runs end alike, or the second one fails for the line that was refused. -/
theorem Parallel.ends {r r' : State × Option Outcome} (h : Parallel n r r') (label : Bytes) :
    (Within n (storeOf label r) ∧ reportOn label r' = (reportOn label r).map (Report.upTo n) ∧
      storeOf label r' = (storeOf label r).upTo n) ∨
    ∃ report, reportOn label r' = some report ∧ report.failure.isSome ∧
      Refused n (storeOf label r) report.store := by
  obtain ⟨t, o⟩ := r
  rcases h with ⟨hw, rfl⟩ | ⟨⟨reason, hstopped⟩, hrefused⟩
  · cases o with
    | none => exact Or.inl ⟨hw, rfl, rfl⟩
    | some outcome =>
      have hfinal := finish_store label t outcome
      rcases Native.follows_flush.follows t.store hw with ⟨hw', hsame⟩ | ⟨e, u, hsame, hrefused⟩
      · have hreport := finish_upTo hsame label outcome
        refine Or.inl ⟨?_, congrArg some hreport, congrArg Report.store hreport⟩
        change Within n (finish label t outcome).store
        rw [hfinal]
        exact hw'
      · refine Or.inr ⟨_, rfl, finish_of_refused hsame label outcome, ?_⟩
        change Refused n (finish label t outcome).store (finish label (t.upTo n) outcome).store
        rw [hfinal, finish_store]
        have hu : Native.flush (t.upTo n).store = .error e u := hsame
        rw [hu]
        exact hrefused
  · obtain ⟨u, o'⟩ := r'
    obtain rfl : o' = some (.stopped reason) := hstopped
    refine Or.inr ⟨_, rfl, finish_of_stopped label u reason, ?_⟩
    have hextends : t.store.Extends (storeOf label (t, o)) := by
      cases o with
      | none => exact List.prefix_rfl
      | some outcome =>
        change t.store.Extends (finish label t outcome).store
        rw [finish_store]
        exact (Native.follows_flush (n := n)).grows t.store
    rw [finish_store]
    exact (hrefused.of_extends hextends).of_stuck (Native.stuck_flush u.store)

def delivered (rounds : Nat) (options : Options) (store : Store) (c : ClassFile)
    (name descriptor : Bytes) (args : List Value) : List Bytes :=
  match runMethod rounds options store c name descriptor args with
  | some report => report.store.sink.lines
  | none =>
    match Entry.find c name descriptor with
    | .error _ => []
    | .ok entry =>
      (State.run (options.setting c) rounds
        { frame := entry.frame args, store }).1.store.sink.lines

theorem delivered_of_find {c : ClassFile} {name descriptor : Bytes} {entry : Entry}
    (h : Entry.find c name descriptor = .ok entry) (rounds : Nat) (options : Options)
    (store : Store) (args : List Value) :
    delivered rounds options store c name descriptor args =
      (storeOf entry.label (State.run (options.setting c) rounds
        { frame := entry.frame args, store })).sink.lines := by
  simp only [delivered, runMethod_of_find h, h, storeOf]
  cases State.run (options.setting c) rounds { frame := entry.frame args, store } with
  | mk t o => cases o <;> rfl

/-- A sink that takes `n` lines takes the first `n` of those delivered to a sink that takes every
line. If there are no more nothing else differs, and else the method fails. -/
theorem failing_sink_cuts_output (n rounds : Nat) (options : Options) (store : Store)
    (c : ClassFile) (name descriptor : Bytes) (args : List Value) :
    let free : Store := { store with sink := {} }
    let tight : Store := { store with sink := Sink.upTo n }
    let lines := delivered rounds options free c name descriptor args
    delivered rounds options tight c name descriptor args = lines.take n ∧
    (lines.length ≤ n → runMethod rounds options tight c name descriptor args =
      (runMethod rounds options free c name descriptor args).map (Report.upTo n)) ∧
    (n < lines.length → ∃ report, runMethod rounds options tight c name descriptor args =
      some report ∧ report.failure.isSome) := by
  intro free tight lines
  have hfree : Within n free := ⟨fun _ => rfl, nofun, Nat.zero_le n⟩
  cases hfind : Entry.find c name descriptor with
  | error failure =>
    have hnone : lines = [] := by
      simp only [lines, delivered, runMethod_of_refused hfind]
      rfl
    refine ⟨?_, fun _ => ?_, fun h => ?_⟩
    · rw [hnone, List.take_nil]
      simp only [delivered, runMethod_of_refused hfind]
      rfl
    · simp only [runMethod_of_refused hfind]
      rfl
    · rw [hnone] at h
      exact absurd h (Nat.not_lt_zero n)
  | ok entry =>
    let s : State := { frame := entry.frame args, store := free }
    have hparallel := run_parallel (options.setting c) rfl s rounds hfree
    have hlines : lines = (storeOf entry.label (s.run (options.setting c) rounds)).sink.lines :=
      delivered_of_find hfind rounds options free args
    have htight := delivered_of_find hfind rounds options tight args
    rw [htight, runMethod_of_find hfind, runMethod_of_find hfind, hlines]
    rcases hparallel.ends entry.label with ⟨hw, hsame, hstore⟩ | ⟨report, hsome, hfails, hrefused⟩
    · have hle := within_lines hw
      refine ⟨?_, fun _ => hsame, fun h => absurd h (Nat.not_lt.2 hle)⟩
      have hsink := congrArg (fun t : Store => t.sink.lines) hstore
      rw [List.take_of_length_le hle]
      exact hsink
    · refine ⟨?_, fun h => absurd hrefused.more (Nat.not_lt.2 h), fun _ => ⟨report, hsome, hfails⟩⟩
      have hstore : storeOf entry.label ((s.upTo n).run (options.setting c) rounds) =
          report.store := by
        rw [storeOf, hsome]
      rw [← hrefused.lines, ← hstore]
      rfl

/-- The last line of `talk` is refused when it is flushed. -/
theorem talk_cut_short :
    delivered 11 { limits := { budget := 10 } } (Registry.standardStore {}) chatter (utf8 "talk")
      [] [] = [utf8 "a", utf8 "b", utf8 "c"] ∧
    delivered 11 { limits := { budget := 10 } } (Registry.standardStore (Sink.upTo 2)) chatter
      (utf8 "talk") [] [] = [utf8 "a", utf8 "b"] ∧
    ∃ report, runMethod 11 { limits := { budget := 10 } } (Registry.standardStore (Sink.upTo 2))
      chatter (utf8 "talk") [] [] = some report ∧ report.failure.isSome := by
  have hlines : delivered 11 { limits := { budget := 10 } } (Registry.standardStore {}) chatter
      (utf8 "talk") [] [] = [utf8 "a", utf8 "b", utf8 "c"] := by decide +kernel
  obtain ⟨hcut, -, hfails⟩ := failing_sink_cuts_output 2 11 { limits := { budget := 10 } }
    (Registry.standardStore {}) chatter (utf8 "talk") [] []
  refine ⟨hlines, hcut.trans (congrArg (List.take 2) hlines), hfails ?_⟩
  exact Nat.lt_of_lt_of_eq (by decide) (congrArg List.length hlines).symm

end ClassMachine.Machine
