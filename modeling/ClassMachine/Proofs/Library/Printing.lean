import Mathlib.Data.List.Basic
import Mathlib.Data.List.Induction
import ClassMachine.Proofs.Library.Natives

/-! Printed lines. The lines that a sequence of prints comes to are given by `Print.rendering`, in
which nothing is remembered from one print to the next. A store that keeps the text of unfinished
lines by object holds the lines and the leftovers of the prints made so far (`Written`), after
every call of the standard library (`written_invoke`); the last flush adds the leftovers
(`flush_written`). -/
namespace ClassMachine
open Fallible

structure Print where
  object : ObjectId
  text : Bytes
  ends : Bool

namespace Print

def since (o : ObjectId) (past : List Print) : Bytes :=
  ((past.filter fun p => p.object = o).reverse.takeWhile fun p => !p.ends).reverse.flatMap text

/-- The lines that the prints end, each with what the object printed before. -/
def emitted (past : List Print) : List Print → List Bytes
  | [] => []
  | p :: rest =>
    (if p.ends then [since p.object past ++ p.text] else []) ++ emitted (past ++ [p]) rest

def printers (prints : List Print) : List ObjectId :=
  ((prints.filter fun p => !p.ends).map object).eraseDups

/-- The lines of a sequence of prints; text that no print ended comes last, by object. -/
def rendering (prints : List Print) : List Bytes :=
  emitted [] prints ++ ((printers prints).map fun o => since o prints).filter (· ≠ [])

section Snoc
variable (past : List Print) (p : Print) (o : ObjectId)

theorem since_of_ne (h : p.object ≠ o) : since o (past ++ [p]) = since o past := by
  simp [since, List.filter_append, h]

theorem since_of_ends (h : p.ends = true) : since p.object (past ++ [p]) = [] := by
  simp [since, List.filter_append, h]

theorem since_of_goes_on (h : p.ends = false) :
    since p.object (past ++ [p]) = since p.object past ++ p.text := by
  simp [since, List.filter_append, h]

theorem emitted_snoc (more : List Print) :
    emitted past (more ++ [p]) = emitted past more ++
      if p.ends then [since p.object (past ++ more) ++ p.text] else [] := by
  induction more generalizing past with
  | nil => simp [emitted]
  | cons q more ih => simp [emitted, ih, List.append_assoc]

theorem printers_of_ends (h : p.ends = true) : printers (past ++ [p]) = printers past := by
  simp [printers, List.filter_append, h]

theorem printers_of_mem (h : p.object ∈ printers past) : printers (past ++ [p]) = printers past := by
  cases he : p.ends with
  | true => exact printers_of_ends past p he
  | false =>
    simp only [printers, List.mem_eraseDups] at h
    simp [printers, List.filter_append, he, List.eraseDups_append, List.removeAll, h]

theorem printers_of_new (he : p.ends = false) (h : p.object ∉ printers past) :
    printers (past ++ [p]) = printers past ++ [p.object] := by
  simp only [printers, List.mem_eraseDups] at h
  simp [printers, List.filter_append, he, List.eraseDups_append, List.removeAll, h]
  rfl

end Snoc

theorem nodup_printers (prints : List Print) : (printers prints).Nodup := by
  induction prints using List.reverseRecOn with
  | nil => exact List.nodup_nil
  | append_singleton past p ih =>
    by_cases h : p.object ∈ printers past
    · rw [printers_of_mem past p h]
      exact ih
    · cases he : p.ends with
      | true =>
        rw [printers_of_ends past p he]
        exact ih
      | false =>
        rw [printers_of_new past p he h]
        refine List.nodup_append.2 ⟨ih, by simp, ?_⟩
        intro o ho q hq hoq
        rw [hoq, List.mem_singleton.1 hq] at ho
        exact h ho

theorem mem_printers {prints : List Print} {o : ObjectId} :
    o ∈ printers prints ↔ ∃ p ∈ prints, p.ends = false ∧ p.object = o := by
  simp [printers, and_assoc]

theorem since_of_not_mem {prints : List Print} {o : ObjectId} (h : o ∉ printers prints) :
    since o prints = [] := by
  have hends : ∀ p ∈ (prints.filter fun p => p.object = o).reverse, p.ends = true := by
    intro p hp
    simp only [List.mem_reverse, List.mem_filter, decide_eq_true_eq] at hp
    by_contra hgoes
    exact h (mem_printers.2 ⟨p, hp.1, Bool.eq_false_iff.2 hgoes, hp.2⟩)
  rw [since]
  cases hl : (prints.filter fun p => p.object = o).reverse with
  | nil => rfl
  | cons p l =>
    rw [hl] at hends
    simp [hends p List.mem_cons_self]

end Print

open Print

/-- The store holds the lines and the leftovers of the prints, and its sink takes every line. -/
structure Written (prints : List Print) (s : Store) : Prop where
  accepts : ∀ k, s.sink.accepts k = true
  lines : s.sink.lines = emitted [] prints
  pending : s.pending.entries = (printers prints).map fun o => (o, since o prints)

section Steps
variable {prints : List Print} {s : Store} (o : ObjectId) (text : Bytes)

theorem Written.get?_pending (hw : Written prints s) :
    s.pending.get? o = if o ∈ printers prints then some (since o prints) else none := by
  rw [Table.get?, hw.pending, Table.find_map]

theorem Written.pendingOf (hw : Written prints s) : s.pendingOf o = since o prints := by
  rw [Store.pendingOf, hw.get?_pending]
  by_cases ho : o ∈ printers prints
  · rw [if_pos ho]
    rfl
  · rw [if_neg ho, since_of_not_mem ho]
    rfl

def Store.withoutText (s : Store) : Table ObjectId Bytes :=
  if (s.pending.get? o).isSome then s.pending.set o [] else s.pending

theorem takePending_eq (s : Store) :
    Native.takePending o s = .ok (s.pendingOf o) { s with pending := s.withoutText o } := by
  rw [Native.takePending, Store.pendingOf, Store.withoutText]
  cases s.pending.get? o <;> rfl

theorem writeLine_of_accepts (h : ∀ k, s.sink.accepts k = true) (line : Bytes) :
    ∃ sink, sink.accepts = s.sink.accepts ∧ sink.lines = s.sink.lines ++ [line] ∧
      ∀ pending, Native.writeLine line { s with pending } = .ok () { s with pending, sink } := by
  refine ⟨(s.sink.offer line).2, rfl, ?_, fun pending => ?_⟩
  · simp [Sink.lines, Sink.offer, h]
  · simp only [Native.writeLine, Sink.offer, h]

theorem leftovers_of_not_mem {os : List ObjectId} {p : Print} (h : p.object ∉ os) :
    (os.map fun j => (j, since j prints)) = os.map fun j => (j, since j (prints ++ [p])) := by
  refine List.map_congr_left fun j hj => ?_
  rw [since_of_ne prints p j]
  rintro rfl
  exact h hj

theorem leftovers_of_eq (os : List ObjectId) {p : Print} {left : Bytes}
    (h : since p.object (prints ++ [p]) = left) :
    (os.map fun j => (j, if j = p.object then left else since j prints)) =
      os.map fun j => (j, since j (prints ++ [p])) := by
  refine List.map_congr_left fun j _ => ?_
  by_cases hjp : j = p.object
  · rw [if_pos hjp, hjp, h]
  · rw [if_neg hjp, since_of_ne prints p j (Ne.symm hjp)]

theorem written_line (hw : Written prints s) :
    ∃ before u t, Native.takePending o s = .ok before u ∧
      Native.writeLine (before ++ text) u = .ok () t ∧ Written (prints ++ [⟨o, text, true⟩]) t := by
  let p : Print := ⟨o, text, true⟩
  obtain ⟨sink, haccepts, hlines, hwrite⟩ :=
    writeLine_of_accepts hw.accepts (since o prints ++ text)
  rw [← hw.pendingOf o] at hwrite
  refine ⟨_, _, _, takePending_eq o s, hwrite _, ?_, ?_, ?_⟩
  · rw [haccepts]
    exact hw.accepts
  · rw [hlines, hw.lines, emitted_snoc]
    rfl
  · have hleft := since_of_ends prints p rfl
    rw [printers_of_ends prints p rfl, Store.withoutText, hw.get?_pending o]
    by_cases ho : o ∈ printers prints
    · simp only [if_pos ho, Option.isSome_some, if_true, Table.set, hw.pending,
        Table.put_map_of_mem o [] _ ho (nodup_printers prints)]
      exact leftovers_of_eq (printers prints) hleft
    · simp only [if_neg ho, Option.isSome_none, Bool.false_eq_true, if_false, hw.pending]
      exact leftovers_of_not_mem ho

theorem written_text (hw : Written prints s) :
    ∃ t, Native.addPending o text s = .ok () t ∧ Written (prints ++ [⟨o, text, false⟩]) t := by
  let p : Print := ⟨o, text, false⟩
  have hleft := since_of_goes_on prints p rfl
  refine ⟨_, rfl, hw.accepts, ?_, ?_⟩
  · rw [emitted_snoc]
    simpa using hw.lines
  · simp only [Table.set, hw.pending, hw.pendingOf]
    by_cases ho : o ∈ printers prints
    · rw [Table.put_map_of_mem o _ _ ho (nodup_printers prints), printers_of_mem prints p ho]
      exact leftovers_of_eq (printers prints) hleft
    · rw [Table.put_map_of_new o _ _ ho, printers_of_new prints p rfl ho, List.map_append,
        leftovers_of_not_mem (p := p) ho]
      exact congrArg (fun left => _ ++ [(o, left)]) hleft.symm

theorem pendingOf_withoutText {j : ObjectId} (h : j ≠ o) (sink : Sink) :
    Store.pendingOf { s with pending := s.withoutText o, sink } j = s.pendingOf j := by
  simp only [Store.pendingOf, Store.withoutText]
  cases s.pending.get? o with
  | none => rfl
  | some left => simp [Table.get?_set, Ne.symm h]

theorem flushEach_lines {os : List ObjectId} (hos : os.Nodup)
    (h : ∀ k, s.sink.accepts k = true) :
    ∃ t, Native.flushEach os s = .ok () t ∧
      t.sink.lines = s.sink.lines ++ (os.map s.pendingOf).filter (· ≠ []) := by
  induction os generalizing s with
  | nil => exact ⟨s, rfl, by simp⟩
  | cons o os ih =>
    obtain ⟨ho, hos⟩ := List.nodup_cons.1 hos
    have hothers (sink : Sink) :
        os.map (Store.pendingOf { s with pending := s.withoutText o, sink }) =
          os.map s.pendingOf := by
      refine List.map_congr_left fun j hj => pendingOf_withoutText o ?_ sink
      rintro rfl
      exact ho hj
    rw [Native.flushEach, bind_of_ok (takePending_eq o s)]
    by_cases htext : s.pendingOf o = []
    · obtain ⟨t, ht, hlines⟩ := ih hos (s := { s with pending := s.withoutText o }) h
      rw [hothers s.sink] at hlines
      exact ⟨t, by simpa [htext] using ht, by simpa [htext] using hlines⟩
    · obtain ⟨sink, haccepts, hsink, hwrite⟩ := writeLine_of_accepts h (s.pendingOf o)
      have htakes : ∀ k, sink.accepts k = true := by
        rw [haccepts]
        exact h
      obtain ⟨t, ht, hlines⟩ := ih hos (s := { s with pending := s.withoutText o, sink }) htakes
      rw [hothers sink, hsink] at hlines
      rw [if_pos htext, bind_of_ok (hwrite _)]
      exact ⟨t, ht, by simpa [htext] using hlines⟩

/-- The last flush completes the lines of the prints. -/
theorem flush_written (hw : Written prints s) :
    ∃ t, Native.flush s = .ok () t ∧ t.sink.lines = rendering prints := by
  have hkeys : s.pending.keys = printers prints := by
    simp [Table.keys, hw.pending, Function.comp_def]
  obtain ⟨t, ht, hlines⟩ := flushEach_lines (nodup_printers prints) hw.accepts
  refine ⟨t, ?_, ?_⟩
  · rw [Native.flush, hkeys]
    exact ht
  · have hleft : (printers prints).map s.pendingOf = (printers prints).map fun o => since o prints :=
      List.map_congr_left fun o _ => hw.pendingOf o
    rw [hlines, hw.lines, hleft, rendering]

end Steps

/-! Calls. -/

def Value.printed : Value → Bytes
  | .int n => Native.intText n
  | .str t => t
  | _ => []

def Print.of? : Method × List Value → Option Print
  | (m, .obj object :: rest) =>
    let text := rest.flatMap Value.printed
    if m.owner ≠ Registry.printStreamClass then none
    else if m.name = utf8 "println" then some { object, text, ends := true }
    else if m.name = utf8 "print" then some { object, text, ends := false }
    else none
  | _ => none

def Store.SameOutput (s t : Store) : Prop := t.pending = s.pending ∧ t.sink = s.sink

theorem Store.SameOutput.refl (s : Store) : s.SameOutput s := ⟨rfl, rfl⟩

theorem Store.SameOutput.trans (s t u : Store) (h : s.SameOutput t) (h' : t.SameOutput u) :
    s.SameOutput u := ⟨h'.1.trans h.1, h'.2.trans h.2⟩

section Calls
open Native Registry
variable {prints : List Print} {s : Store} {m : Method} {args : List Value}

theorem Written.of_sameOutput {t : Store} (hw : Written prints s) (h : s.SameOutput t) :
    Written prints t := by
  obtain ⟨hpending, hsink⟩ := h
  refine ⟨?_, ?_, ?_⟩
  · rw [hsink]
    exact hw.accepts
  · rw [hsink]
    exact hw.lines
  · rw [hpending]
    exact hw.pending

def Prints (m : Method) (args : List Value) (prints : List Print)
    (r : EStateM.Result Library.Error Store Value) : Prop :=
  match r with
  | .ok _ t => Written (prints ++ (Print.of? (m, args)).toList) t
  | .error _ t => Written prints t

theorem prints_invoke (hw : Written prints s)
    (hrun : args.length = m.arity → Prints m args prints (m.run args s)) :
    Prints m args prints (m.invoke args s) := by
  by_cases hargs : args.length = m.arity
  · have h := hrun hargs
    simp only [Method.invoke_eq, if_neg (not_not_intro hargs)]
    cases hr : m.run args s with
    | ok v t =>
      rw [hr] at h
      exact h
    | error e t =>
      rw [hr] at h
      exact h
  · simp only [Method.invoke_eq, if_pos hargs]
    exact hw

theorem prints_quiet (hm : m ∈ standardMethods) (hargs : args.length = m.arity)
    (hw : Written prints s) (howner : m.owner ≠ printStreamClass) :
    Prints m args prints (m.run args s) := by
  have hends := standardMethods_ends hm hargs s
  have hnone : prints ++ (Print.of? (m, args)).toList = prints := by
    cases args with
    | nil => exact List.append_nil prints
    | cons v rest =>
      cases v with
      | obj o => simp [Print.of?, howner]
      | _ => exact List.append_nil prints
  generalize m.run args s = r at hends
  cases hends with
  | refused _ => exact hw
  | given _ =>
    rw [Prints, hnone]
    exact hw
  | printed hprints _ => exact absurd hprints howner
  | untaken hprints _ => exact absurd hprints howner
  | built _ _ =>
    rw [Prints, hnone]
    exact hw.of_sameOutput ⟨rfl, rfl⟩

theorem receiver_cases (owner : ClassId) (method : String) (args : List Value) (s : Store) :
    (∃ o rest, args = .obj o :: rest ∧ (receiver owner method args : Call ObjectId) s = .ok o s) ∨
      ∃ e, (receiver owner method args : Call ObjectId) s = .error e s := by
  cases args with
  | nil => exact Or.inr ⟨_, rfl⟩
  | cons v rest =>
    cases v with
    | obj o =>
      by_cases ho : s.classOf? o = some owner
      · exact Or.inl ⟨o, rest, rfl, receiver_of_class ho method⟩
      · exact Or.inr ⟨_, receiver_foreign ho method⟩
    | _ => exact Or.inr ⟨_, rfl⟩

theorem prints_printLine (hw : Written prints s) (owner : ClassId) (text : Bytes)
    (hprint : ∀ o rest, args = .obj o :: rest → Print.of? (m, args) = some ⟨o, text, true⟩) :
    Prints m args prints ((printLine owner args text : Call Value) s) := by
  rcases receiver_cases owner "println" args s with ⟨o, rest, hargs, hr⟩ | ⟨e, hr⟩
  · obtain ⟨before, u, t, htake, hline, ht⟩ := written_line o text hw
    have heq : (printLine owner args text : Call Value) s = .ok .void t := by
      rw [printLine, bind_of_ok hr, liftM_call, bind_of_ok htake, liftM_call, bind_of_ok hline]
      rfl
    rw [heq, Prints, hprint o rest hargs]
    exact ht
  · rw [printLine, bind_of_error hr]
    exact hw

theorem prints_printString (hw : Written prints s) (owner : ClassId)
    (hprint : ∀ o text, args = [.obj o, .str text] → Print.of? (m, args) = some ⟨o, text, false⟩)
    (hargs : args.length = 2) :
    Prints m args prints ((printString owner args : Call Value) s) := by
  obtain ⟨v, w, rfl⟩ := List.length_eq_two.1 hargs
  rcases receiver_cases owner "print" [v, w] s with ⟨o, rest, hcons, hr⟩ | ⟨e, hr⟩
  · cases hcons
    rw [printString, bind_of_ok hr]
    cases w with
    | str text =>
      obtain ⟨t, hadd, ht⟩ := written_text o text hw
      have htext : (textArgument "print" [.obj o, .str text] 1 : Call Bytes) s = .ok text s := rfl
      rw [bind_of_ok htext, liftM_call, bind_of_ok hadd]
      change Written (prints ++ (Print.of? (m, [.obj o, .str text])).toList) t
      rw [hprint o text rfl]
      exact ht
    | _ => exact hw
  · rw [printString, bind_of_error hr]
    exact hw

/-- A call of the standard library that succeeds prints what it is called for, and one that fails
prints nothing. -/
theorem written_invoke (hm : m ∈ standardMethods) (hw : Written prints s) (args : List Value) :
    Prints m args prints (m.invoke args s) := by
  refine prints_invoke hw fun hargs => ?_
  by_cases howner : m.owner = printStreamClass
  case neg => exact prints_quiet hm hargs hw howner
  obtain rfl | rfl | rfl | rfl := printStream_methods_iff.1 ⟨hm, howner⟩
  · obtain ⟨v, w, rfl⟩ := List.length_eq_two.1 hargs
    cases w with
    | str t =>
      refine prints_printLine hw _ t fun o rest h => ?_
      cases h
      simp [Print.of?, native, Value.printed]
    | _ => exact hw
  · obtain ⟨v, w, rfl⟩ := List.length_eq_two.1 hargs
    cases w with
    | int n =>
      refine prints_printLine hw _ (intText n) fun o rest h => ?_
      cases h
      simp [Print.of?, native, Value.printed]
    | _ => exact hw
  · obtain ⟨v, rfl⟩ := List.length_eq_one_iff.1 hargs
    refine prints_printLine hw _ [] fun o rest h => ?_
    cases h
    simp [Print.of?, native]
  · have hname : utf8 "print" ≠ utf8 "println" := by decide
    refine prints_printString hw _ (fun o t h => ?_) hargs
    cases h
    simp [Print.of?, native, Value.printed, hname]

end Calls

end ClassMachine
