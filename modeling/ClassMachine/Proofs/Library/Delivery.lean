import ClassMachine.Proofs.Library.Ledger
import ClassMachine.Proofs.Library.Refusal

/-! Where printed text goes when the sink can refuse any line. What a call does to the store is said
by what it prints (`Form.final_invoke`), and what a flush does object by object
(`final_flushEach_cons`). So after every call and every flush the store holds the texts of the
ledger (`records_run`), and the ledger has each call in one place. -/
namespace ClassMachine
open Fallible Native Registry

section Stores
variable {s : Store} {o : ObjectId}

/-- The store after a line was offered for an object, with the text that was pending for it. -/
def Store.offerLine (s : Store) (o : ObjectId) (text : Bytes) : Store :=
  { s with pending := s.withoutText o }.withOffer (s.pendingOf o ++ text)
    (s.sink.accepts s.sink.offers.length)

def Store.printed (s : Store) (p : Print) : Store :=
  if p.ends then s.offerLine p.object p.text
  else { s with pending := s.pending.set p.object (s.pendingOf p.object ++ p.text) }

theorem final_writeLine (line : Bytes) (s : Store) :
    final (writeLine line s) = s.withOffer line (s.sink.accepts s.sink.offers.length) := by
  cases h : s.sink.accepts s.sink.offers.length with
  | true =>
    rw [writeLine_taken line h]
    rfl
  | false =>
    rw [writeLine_refused line h]
    rfl

theorem final_printLine (owner : ClassId) (o : ObjectId) (rest : List Value) (text : Bytes)
    (s : Store) : final ((printLine owner (.obj o :: rest) text : Call Value) s) =
      if s.classOf? o = some owner then s.offerLine o text else s := by
  rw [printLine]
  by_cases ho : s.classOf? o = some owner
  · rw [if_pos ho, bind_of_ok (receiver_of_class ho "println"), liftM_call,
      bind_of_ok (takePending_eq o s), liftM_call]
    have hwrite := final_writeLine (s.pendingOf o ++ text) { s with pending := s.withoutText o }
    cases h : writeLine (s.pendingOf o ++ text) { s with pending := s.withoutText o } with
    | ok x t =>
      rw [h] at hwrite
      rw [bind_of_ok h]
      exact hwrite
    | error e t =>
      rw [h] at hwrite
      rw [bind_of_error h]
      exact hwrite
  · rw [if_neg ho, bind_of_error (receiver_foreign ho "println")]
    rfl

theorem final_printString (owner : ClassId) (o : ObjectId) (text : Bytes) (s : Store) :
    final ((printString owner [.obj o, .str text] : Call Value) s) =
      if s.classOf? o = some owner
      then { s with pending := s.pending.set o (s.pendingOf o ++ text) } else s := by
  rw [printString]
  by_cases ho : s.classOf? o = some owner
  · rw [if_pos ho, bind_of_ok (receiver_of_class ho "print")]
    rfl
  · rw [if_neg ho, bind_of_error (receiver_foreign ho "print")]
    rfl

theorem final_printString_of_kind (owner : ClassId) (v w : Value) (hw : ∀ text, w ≠ .str text)
    (s : Store) : final ((printString owner [v, w] : Call Value) s) = s := by
  rw [printString]
  rcases receiver_cases owner "print" [v, w] s with ⟨o, rest, -, hr⟩ | ⟨e, hr⟩
  · rw [bind_of_ok hr]
    cases w with
    | str text => exact absurd rfl (hw text)
    | _ => rfl
  · rw [bind_of_error hr]
    rfl

theorem withoutText_of_nil (h : s.pendingOf o = []) : s.withoutText o = s.pending := by
  rw [Store.withoutText]
  rw [Store.pendingOf] at h
  cases hget : s.pending.get? o with
  | none => rfl
  | some text =>
    rw [hget] at h
    cases h
    exact congrArg Table.mk (Table.put_of_find hget)

/-- A flush passes over an object without pending text, and ends after the first line that is
refused. -/
theorem final_flushEach_cons (o : ObjectId) (os : List ObjectId) (s : Store) :
    final (flushEach (o :: os) s) =
      if s.pendingOf o = [] then final (flushEach os s)
      else if s.sink.accepts s.sink.offers.length then final (flushEach os (s.offerLine o []))
      else s.offerLine o [] := by
  rw [flushEach, bind_of_ok (takePending_eq o s)]
  by_cases htext : s.pendingOf o = []
  · rw [if_pos htext, if_neg (not_not_intro htext), withoutText_of_nil htext]
  · rw [if_neg htext, if_pos htext, Store.offerLine, List.append_nil]
    cases h : s.sink.accepts s.sink.offers.length with
    | true =>
      rw [bind_of_ok (writeLine_taken (s := { s with pending := s.withoutText o }) _ h)]
      rfl
    | false =>
      rw [bind_of_error (writeLine_refused (s := { s with pending := s.withoutText o }) _ h)]
      rfl

end Stores

namespace Delivery

inductive Form
  | print | line | intLine | emptyLine

namespace Form
variable {s : Store} {args : List Value}

def method : Form → Method
  | print => native printStreamClass false "print" ["Ljava/lang/String;"] "V"
      (printString printStreamClass)
  | line => native printStreamClass false "println" ["Ljava/lang/String;"] "V"
      (printlnString printStreamClass)
  | intLine => native printStreamClass false "println" ["I"] "V" (printlnInt printStreamClass)
  | emptyLine => native printStreamClass false "println" [] "V" (printlnEmpty printStreamClass)

/-- These are all the methods that print streams have in the standard library. -/
theorem exists_method_iff {m : Method} :
    (∃ f : Form, f.method = m) ↔ m ∈ standardMethods ∧ m.owner = printStreamClass := by
  rw [printStream_methods_iff]
  constructor
  · rintro ⟨f, rfl⟩
    cases f <;> simp [method]
  · rintro (rfl | rfl | rfl | rfl)
    · exact ⟨line, rfl⟩
    · exact ⟨intLine, rfl⟩
    · exact ⟨emptyLine, rfl⟩
    · exact ⟨print, rfl⟩

def content : Form → List Value → Option Print
  | print, [.obj object, .str text] => some { object, text, ends := false }
  | line, [.obj object, .str text] => some { object, text, ends := true }
  | intLine, [.obj object, .int n] => some { object, text := intText n, ends := true }
  | emptyLine, [.obj object] => some { object, text := [], ends := true }
  | _, _ => none

def print? (s : Store) (f : Form) (args : List Value) : Option Print :=
  (f.content args).bind fun p =>
    if s.classOf? p.object = some printStreamClass then some p else none

theorem print?_of_objects {t : Store} (h : t.objects = s.objects) (f : Form) :
    f.print? t args = f.print? s args := by
  have hclass : t.classOf? = s.classOf? := by
    funext o
    rw [Store.classOf?, Store.classOf?, h]
  rw [print?, print?, hclass]

theorem elim_print? {f : Form} {p : Print} (h : f.content args = some p) :
    (f.print? s args).elim s s.printed =
      if s.classOf? p.object = some printStreamClass then s.printed p else s := by
  rw [print?, h, Option.bind_some]
  split_ifs <;> rfl

theorem content_of_no_object {v : Value} (hv : ∀ o, v ≠ .obj o) (f : Form) (rest : List Value) :
    f.content (v :: rest) = none := by
  cases v with
  | obj o => exact absurd rfl (hv o)
  | _ => cases f <;> rfl

theorem final_line {f : Form} {rest : List Value} {text : Bytes}
    (h : ∀ o, f.content (.obj o :: rest) = some ⟨o, text, true⟩) (v : Value) :
    final ((printLine printStreamClass (v :: rest) text : Call Value) s) =
      (f.print? s (v :: rest)).elim s s.printed := by
  cases v with
  | obj o =>
    rw [final_printLine, elim_print? (h o)]
    rfl
  | _ =>
    rw [print?, content_of_no_object (by simp)]
    rfl

theorem final_run (f : Form) (hargs : args.length = f.method.arity) :
    final (f.method.run args s) = (f.print? s args).elim s s.printed := by
  cases f with
  | print =>
    obtain ⟨v, w, rfl⟩ := List.length_eq_two.1 hargs
    change final ((printString printStreamClass [v, w] : Call Value) s) = _
    cases w with
    | str text =>
      cases v with
      | obj o =>
        rw [final_printString, elim_print? rfl]
        rfl
      | _ => rfl
    | _ =>
      rw [final_printString_of_kind _ _ _ (by simp)]
      cases v <;> rfl
  | line =>
    obtain ⟨v, w, rfl⟩ := List.length_eq_two.1 hargs
    cases w with
    | str text => exact final_line (fun _ => rfl) v
    | _ => cases v <;> rfl
  | intLine =>
    obtain ⟨v, w, rfl⟩ := List.length_eq_two.1 hargs
    cases w with
    | int n => exact final_line (fun _ => rfl) v
    | _ => cases v <;> rfl
  | emptyLine =>
    obtain ⟨v, rfl⟩ := List.length_eq_one_iff.1 hargs
    exact final_line (fun _ => rfl) v

theorem content_of_length (f : Form) (h : args.length ≠ f.method.arity) :
    f.content args = none := by
  unfold content
  split
  · exact absurd rfl h
  · exact absurd rfl h
  · exact absurd rfl h
  · exact absurd rfl h
  · rfl

/-- A call does to the store what it prints, and nothing if the object or an argument is not of
the right kind. -/
theorem final_invoke (f : Form) (args : List Value) (s : Store) :
    final (f.method.invoke args s) = (f.print? s args).elim s s.printed := by
  by_cases hargs : args.length = f.method.arity
  · rw [← final_run f hargs, Method.invoke_eq, if_neg (not_not_intro hargs)]
    cases f.method.run args s <;> rfl
  · rw [Method.invoke_eq, if_pos hargs, print?, f.content_of_length hargs]
    rfl

end Form

namespace Ledger

/-- The store holds the texts of the ledger, and is else as it was at the start. -/
structure Records (start : Store) (l : Ledger) (s : Store) : Prop where
  offered : s.sink.offered = l.lines.map textOf
  pending : s.pending.entries = l.printers.map fun o => (o, textOf (l.waiting o))
  accepts : s.sink.accepts = start.sink.accepts
  objects : s.objects = start.objects

section Records
variable {start s : Store} {l : Ledger} {o : ObjectId} {last : List Piece}

theorem Records.length (h : Records start l s) : s.sink.offers.length = l.lines.length := by
  have hlength := congrArg List.length h.offered
  rwa [Sink.offered, List.length_map, List.length_map] at hlength

theorem Records.get? (h : Records start l s) (o : ObjectId) :
    s.pending.get? o = if o ∈ l.printers then some (textOf (l.waiting o)) else none := by
  rw [Table.get?, h.pending, Table.find_map]

theorem Records.pendingOf (h : Records start l s) (hl : l.Sound) (o : ObjectId) :
    s.pendingOf o = textOf (l.waiting o) := by
  rw [Store.pendingOf, h.get?]
  by_cases ho : o ∈ l.printers
  · rw [if_pos ho]
    rfl
  · rw [if_neg ho, hl.silent ho]
    rfl

theorem map_update (os : List ObjectId) (waiting : ObjectId → List Piece) (ps : List Piece) :
    (os.map fun j => (j, if j = o then textOf ps else textOf (waiting j))) =
      os.map fun j => (j, textOf (Function.update waiting o ps j)) := by
  refine List.map_congr_left fun j _ => ?_
  rw [Function.update_apply]
  split_ifs <;> rfl

theorem map_update_of_not_mem {os : List ObjectId} (ho : o ∉ os) (waiting : ObjectId → List Piece)
    (ps : List Piece) : (os.map fun j => (j, textOf (waiting j))) =
      os.map fun j => (j, textOf (Function.update waiting o ps j)) := by
  refine List.map_congr_left fun j hj => ?_
  have hj : j ≠ o := fun h => ho (h ▸ hj)
  rw [Function.update_of_ne hj]

theorem Records.offer (h : Records start l s) (hl : l.Sound)
    (hlast : ∀ p ∈ last, p.ends = true) :
    Records start (l.offer o last) (s.offerLine o (textOf last)) where
  offered := by
    have hoffered : (s.offerLine o (textOf last)).sink.offered =
        s.sink.offered ++ [s.pendingOf o ++ textOf last] := by
      simp [Store.offerLine, Store.withOffer, Sink.offered]
    rw [hoffered, h.offered, h.pendingOf hl, ← textOf_append]
    simp [Ledger.offer]
  pending := by
    change (s.withoutText o).entries = _
    rw [l.printers_offer o hlast, Store.withoutText, h.get? o]
    by_cases ho : o ∈ l.printers
    · simp only [if_pos ho, Option.isSome_some, if_true, Table.set, h.pending,
        Table.put_map_of_mem o [] _ ho (Print.nodup_printers _)]
      exact map_update l.printers l.waiting []
    · simp only [if_neg ho, Option.isSome_none, Bool.false_eq_true, if_false, h.pending]
      exact map_update_of_not_mem ho l.waiting []
  accepts := h.accepts
  objects := h.objects

theorem Records.wait (h : Records start l s) (hl : l.Sound) {p : Piece} (hends : p.ends = false) :
    Records start (l.wait p)
      { s with pending := s.pending.set p.object (s.pendingOf p.object ++ p.text) } where
  offered := h.offered
  pending := by
    have htext : s.pendingOf p.object ++ p.text = textOf (l.waiting p.object ++ [p]) := by
      rw [h.pendingOf hl, textOf_append]
      simp [textOf]
    have hcalls : (l.wait p).printers =
        Print.printers (l.calls.map Piece.toPrint ++ [p.toPrint]) := by
      simp [Ledger.wait, printers]
    simp only [Table.set, h.pending, htext]
    -- the first print of an object puts it last in the order
    by_cases ho : p.object ∈ l.printers
    · rw [Table.put_map_of_mem _ _ _ ho (Print.nodup_printers _), hcalls,
        Print.printers_of_mem _ _ ho]
      exact map_update l.printers l.waiting _
    · rw [Table.put_map_of_new _ _ _ ho, hcalls, Print.printers_of_new _ _ hends ho,
        List.map_append, map_update_of_not_mem ho l.waiting (l.waiting p.object ++ [p])]
      simp [Ledger.wait, printers]
  accepts := h.accepts
  objects := h.objects

theorem Records.print (h : Records start l s) (hl : l.Sound) (p : Piece) :
    Records start (l.print p) (s.printed p.toPrint) := by
  rw [Ledger.print, Store.printed]
  cases hends : p.ends with
  | true =>
    have hline : Records start (l.offer p.object [p]) (s.offerLine p.object (textOf [p])) :=
      h.offer hl fun q hq => by rw [List.mem_singleton.1 hq, hends]
    simpa [textOf] using hline
  | false => exact h.wait hl hends

theorem Records.flushEach (h : Records start l s) (hl : l.Sound) (os : List ObjectId) :
    Records start (l.flushEach start.sink.accepts os) (final (Native.flushEach os s)) := by
  induction os generalizing l s with
  | nil => exact h
  | cons o os ih =>
    have hline : Records start (l.offer o []) (s.offerLine o []) := h.offer hl (by simp)
    -- the store and the ledger ask the same two questions
    rw [final_flushEach_cons, Ledger.flushEach, h.pendingOf hl, h.accepts, h.length]
    split_ifs
    · exact ih h hl
    · exact ih hline (hl.offer (by simp))
    · exact hline

theorem Records.flush (h : Records start l s) (hl : l.Sound) :
    Records start (l.flush start.sink.accepts) (final (Native.flush s)) := by
  have hkeys : s.pending.keys = l.printers := by
    simp [Table.keys, h.pending, Function.comp_def]
  rw [Native.flush, hkeys]
  exact h.flushEach hl l.printers

end Records

end Ledger

inductive Act
  | call (form : Form) (args : List Value)
  | flush

namespace Act

def run (s : Store) : Act → Store
  | call form args => final (form.method.invoke args s)
  | flush => final (Native.flush s)

def print? (s : Store) : Act → Option Print
  | call form args => form.print? s args
  | flush => none

def calls (s : Store) (acts : List Act) : List Piece :=
  acts.zipIdx.filterMap fun act => (act.1.print? s).map fun p => { p with number := act.2 }

end Act

def Ledger.act (start : Store) (l : Ledger) : Act × Nat → Ledger
  | (.call form args, number) =>
    (form.print? start args).elim l fun p => l.print { p with number }
  | (.flush, _) => l.flush start.sink.accepts

def Ledger.of (start : Store) (acts : List Act) : Ledger :=
  acts.zipIdx.foldl (Ledger.act start) {}

def unprinted (s : Store) : Store := { s with pending := {}, sink := { accepts := s.sink.accepts } }

section Runs
variable (s : Store) (acts : List Act)

theorem of_snoc (a : Act) :
    Ledger.of s (acts ++ [a]) = (Ledger.of s acts).act s (a, acts.length) := by
  simp [Ledger.of, List.zipIdx_append]

theorem sound_run : (Ledger.of s acts).Sound := by
  induction acts using List.reverseRecOn with
  | nil => exact ⟨fun o p hp => absurd hp List.not_mem_nil, fun p => rfl⟩
  | append_singleton acts a ih =>
    rw [of_snoc]
    cases a with
    | call form args =>
      simp only [Ledger.act]
      cases form.print? s args with
      | none => exact ih
      | some p => exact ih.print _
    | flush => exact ih.flushEach _ _

theorem records_run :
    Ledger.Records s (Ledger.of s acts) (acts.foldl Act.run (unprinted s)) := by
  induction acts using List.reverseRecOn with
  | nil => exact ⟨rfl, rfl, rfl, rfl⟩
  | append_singleton acts a ih =>
    have hsound := sound_run s acts
    rw [of_snoc, List.foldl_append]
    cases a with
    | call form args =>
      simp only [List.foldl_cons, List.foldl_nil, Act.run, Ledger.act, Form.final_invoke,
        Form.print?_of_objects ih.objects]
      cases form.print? s args with
      | none => exact ih
      | some p => exact ih.print hsound _
    | flush => exact ih.flush hsound

theorem calls_run : (Ledger.of s acts).calls = Act.calls s acts := by
  induction acts using List.reverseRecOn with
  | nil => rfl
  | append_singleton acts a ih =>
    rw [of_snoc, Act.calls, List.zipIdx_append, List.filterMap_append, ← Act.calls, ← ih]
    cases a with
    | call form args =>
      simp only [Ledger.act, Act.print?]
      cases h : form.print? s args with
      | none => simp [h]
      | some p => simp [h, Ledger.calls_print]
    | flush => simp [Ledger.act, Ledger.flush, Ledger.calls_flushEach, Act.print?]

theorem nodup_calls : (Act.calls s acts).Nodup := by
  have hnumbers : acts.zipIdx.Pairwise fun a b => a.2 < b.2 := by
    rw [← List.pairwise_map, List.zipIdx_map_snd]
    exact List.pairwise_lt_range'
  refine List.pairwise_filterMap.2 (hnumbers.imp fun {a b} hab p hp q hq => ?_)
  obtain ⟨_, -, rfl⟩ := Option.map_eq_some_iff.1 hp
  obtain ⟨_, -, rfl⟩ := Option.map_eq_some_iff.1 hq
  intro h
  exact absurd (congrArg Piece.number h) (Nat.ne_of_lt hab)

end Runs

/-- After any calls and flushes, over any sink, each call that printed is in one place of the
ledger, and the lines offered and the texts pending are those of the ledger. Other calls change
nothing. -/
theorem printed_text_conserved (s : Store) (acts : List Act) :
    let t := acts.foldl Act.run (unprinted s)
    let l := Ledger.of s acts
    t.sink.offered = l.lines.map textOf ∧ (∀ o, t.pendingOf o = textOf (l.waiting o)) ∧
      (∀ p ∈ Act.calls s acts, ∃! place, p ∈ l.contents place) ∧
      (∀ place, (l.contents place).Nodup ∧ ∀ p ∈ l.contents place, p ∈ Act.calls s acts) ∧
      (∀ o, ∀ p ∈ l.waiting o, p.object = o) ∧
      ∀ form args, form.print? s args = none → Act.run t (.call form args) = t := by
  have hsound := sound_run s acts
  have hrecords := records_run s acts
  have hnodup := nodup_calls s acts
  rw [← calls_run] at hnodup ⊢
  refine ⟨hrecords.offered, hrecords.pendingOf hsound, ?_, ?_, ?_, ?_⟩
  · intro p hp
    exact hsound.existsUnique_place hnodup hp
  · intro place
    exact ⟨hsound.nodup_contents hnodup place, fun p hp => hsound.mem_calls hp⟩
  · intro o p hp
    exact (hsound.waits o p hp).1
  · intro form args hnone
    rw [Act.run, Form.final_invoke, Form.print?_of_objects hrecords.objects, hnone]
    rfl

def twoStreams : Store where
  objects := [{ cls := printStreamClass }, { cls := printStreamClass }]
  sink := { accepts := fun k => k ≠ 0 }

/-- The first flush stops at the first stream, the second one goes on with the other. -/
def twoFlushes : List Act :=
  [.call .print [.obj 0, .str (utf8 "a")], .call .print [.obj 1, .str (utf8 "b")], .flush, .flush,
    .call .line [.obj 0, .str (utf8 "c")]]

/-- The text of the line that was refused is not offered again. -/
theorem twoFlushes_conserve :
    let t := twoFlushes.foldl Act.run (unprinted twoStreams)
    let l := Ledger.of twoStreams twoFlushes
    t.sink.offered = [utf8 "a", utf8 "b", utf8 "c"] ∧
      (∃! place, ⟨⟨0, utf8 "a", false⟩, 0⟩ ∈ l.contents place) ∧
      Act.run t (.call .print [.obj 0, .int 5]) = t := by
  obtain ⟨hoffered, -, hplace, -, -, hrefused⟩ := printed_text_conserved twoStreams twoFlushes
  exact ⟨hoffered.trans (by decide), hplace _ (by decide), hrefused .print _ rfl⟩

end Delivery

end ClassMachine
