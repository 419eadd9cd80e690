import ClassMachine.Proofs.Text
import ClassMachine.Proofs.Library.Printing

/-! String builders. What a call comes to is said by `Form.deed?`, and what a builder holds by the
deeds of the calls that succeeded (`Builder.since`): the pieces appended since it was cleared last.
Each call keeps the two together (`holds_run`), and so does a sequence of them (`holds_after`). -/
namespace ClassMachine.Builder
open Fallible Native Registry

/-- The UTF-8 form of a number of 16 bits; a surrogate gives U+FFFD. -/
def codeText (code : Nat) : Bytes :=
  if 0xD800 ≤ code ∧ code < 0xE000 then [0xEF, 0xBF, 0xBD]
  else if code < 0x80 then [UInt8.ofNat code]
  else if code < 0x800 then [UInt8.ofNat (code / 64 + 0xC0), UInt8.ofNat (code % 64 + 0x80)]
  else [UInt8.ofNat (code / 4096 + 0xE0), UInt8.ofNat (code / 64 % 64 + 0x80),
    UInt8.ofNat (code % 64 + 0x80)]

inductive Piece
  | str (text : Bytes)
  | int (n : Int32)
  | char (n : Int32)

def Piece.text : Piece → Bytes
  | str text => text
  | int n => utf8 (toString n.toInt)
  | char n => codeText (n.toInt % 65536).toNat

inductive Deed
  | clear
  | add (piece : Piece)
  | read

namespace Deed

def after (text : Bytes) : Deed → Bytes
  | clear => []
  | add piece => text ++ piece.text
  | read => text

def result (o : ObjectId) (text : Bytes) : Deed → Value
  | clear => .void
  | add _ => .obj o
  | read => .str text

def isClear : Deed → Bool
  | clear => true
  | _ => false

end Deed

/-- What was appended to an object since it was cleared last. -/
def since (o : ObjectId) (past : List (ObjectId × Deed)) : Bytes :=
  ((past.filter fun e => e.1 = o).reverse.takeWhile fun e => !e.2.isClear).reverse.flatMap
    fun e => e.2.after []

theorem since_snoc (o j : ObjectId) (d : Deed) (past : List (ObjectId × Deed)) :
    since o (past ++ [(j, d)]) = if j = o then d.after (since o past) else since o past := by
  by_cases h : j = o
  · cases d <;> simp [since, List.filter_append, h, Deed.isClear, Deed.after]
  · simp [since, List.filter_append, h]

/-! Pieces as the methods write them. -/

theorem intText_eq (n : Int32) : intText n = (Piece.int n).text := Bytes.signed_eq n.toInt

theorem low_bits (n : Int32) : n.toUInt32.toNat % 65536 = (n.toInt % 65536).toNat := by
  have h : n.toInt = n.toBitVec.toInt := rfl
  have h' : n.toUInt32.toNat = n.toBitVec.toNat := rfl
  rw [h, h', BitVec.toInt_eq_toNat_cond]
  split_ifs <;> omega

theorem encode_ofNat {code : Nat} (h : code < 65536) :
    Utf8.encode (if code.isValidChar then Char.ofNat code else '�') = codeText code := by
  rw [codeText]
  by_cases hvalid : code.isValidChar
  · have hnat : (Char.ofNat code).toNat = code := by
      rw [Char.ofNat, dif_pos hvalid]
      rfl
    rw [if_pos hvalid, if_neg (by omega), Utf8.encode_eq, hnat]
    rcases Utf8.width_cases code with ⟨hw, hc⟩ | ⟨hw, hlow, hc⟩ | ⟨hw, hlow, hc⟩ | ⟨hw, hlow⟩
    · rw [hw, if_pos hc]
      simp [Utf8.tail, Utf8.mark]
    · rw [hw, if_neg (by omega), if_pos hc]
      simp [Utf8.tail, Utf8.mark]
    · rw [hw, if_neg (by omega), if_neg (by omega)]
      simp [Utf8.tail, Utf8.mark]
    · omega
  · rw [if_neg hvalid, if_pos (by omega)]
    rfl

theorem charText_eq (n : Int32) : charText n = (Piece.char n).text := by
  rw [charText, low_bits, encode_ofNat (by omega)]
  rfl

/-! Calls. -/

inductive Kind
  | str | int | char

namespace Kind

def param : Kind → String
  | str => "Ljava/lang/String;"
  | int => "I"
  | char => "C"

def render : Kind → List Value → Call Bytes
  | str => fun args => textArgument "append" args 1
  | int => fun args => do return intText (← intArgument "append" args 1)
  | char => fun args => do return charText (← intArgument "append" args 1)

def piece? : Kind → Value → Option Piece
  | str, .str text => some (.str text)
  | int, .int n => some (.int n)
  | char, .int n => some (.char n)
  | _, _ => none

variable (kind : Kind) (v w : Value) (s : Store)

theorem render_of_piece {p : Piece} (h : kind.piece? w = some p) :
    kind.render [v, w] s = .ok p.text s := by
  unfold piece? at h
  split at h <;> cases h
  · rfl
  · rw [← intText_eq]
    rfl
  · rw [← charText_eq]
    rfl

theorem render_fails (h : kind.piece? w = none) : ∃ e, kind.render [v, w] s = .error e s := by
  cases kind <;> cases w <;> first | exact ⟨_, rfl⟩ | cases h

end Kind

inductive Form
  | init | append (kind : Kind) | toString

namespace Form

def method : Form → Method
  | init => native stringBuilderClass false "<init>" [] "V" (builderInit stringBuilderClass)
  | append kind => native stringBuilderClass false "append" [kind.param]
      "Ljava/lang/StringBuilder;" (appendWith stringBuilderClass kind.render)
  | toString => native stringBuilderClass false "toString" [] "Ljava/lang/String;"
      (builderToString stringBuilderClass)

/-- These are all the methods that string builders have in the standard library. -/
theorem exists_method_iff {m : Method} :
    (∃ f : Form, f.method = m) ↔ m ∈ standardMethods ∧ m.owner = stringBuilderClass := by
  have hmethods : (builtins.map Builtin.method).filter (fun m => m.owner = stringBuilderClass) =
      [method init, method (append .str), method (append .int), method (append .char),
        method toString] := rfl
  rw [mem_standardMethods_owner_iff, hmethods]
  constructor
  · rintro ⟨f, rfl⟩
    rcases f with _ | kind | _
    · simp
    · cases kind <;> simp
    · simp
  · intro hm
    simp only [List.mem_cons, List.not_mem_nil, or_false] at hm
    obtain rfl | rfl | rfl | rfl | rfl := hm <;> exact ⟨_, rfl⟩

/-- What a call with an object and an argument of the right kind does, and to which object. -/
def deed? : Form → List Value → Option (ObjectId × Deed)
  | init, [.obj o] => some (o, .clear)
  | append kind, [.obj o, v] => (kind.piece? v).map fun p => (o, .add p)
  | toString, [.obj o] => some (o, .read)
  | _, _ => none

end Form

def Deed.store (o : ObjectId) (s : Store) : Deed → Store
  | clear => s.setField o textField (.str [])
  | add p => s.setField o textField (.str (builderText s o ++ p.text))
  | read => s

section Steps
variable {s : Store} {o : ObjectId} {d : Deed} {f : Form} {args : List Value}

theorem appendWith_of_ok {owner : ClassId} (render : List Value → Call Bytes) {rest : List Value}
    {text : Bytes} (ho : s.classOf? o = some owner)
    (h : render (.obj o :: rest) s = .ok text s) :
    appendWith owner render (.obj o :: rest) s =
      .ok (.obj o) (s.setField o textField (.str (builderText s o ++ text))) := by
  rw [appendWith, bind_of_ok (receiver_of_class ho "append"), bind_of_ok h]
  rfl

theorem deed_cases (hd : f.deed? args = some (o, d)) :
    (f = .init ∧ args = [.obj o] ∧ d = .clear) ∨
    (∃ kind w p, f = .append kind ∧ args = [.obj o, w] ∧ kind.piece? w = some p ∧ d = .add p) ∨
    (f = .toString ∧ args = [.obj o] ∧ d = .read) := by
  unfold Form.deed? at hd
  split at hd
  case h_1 =>
    cases hd
    exact Or.inl ⟨rfl, rfl, rfl⟩
  case h_2 kind _ w =>
    obtain ⟨p, hp, hcons⟩ := Option.map_eq_some_iff.1 hd
    cases hcons
    exact Or.inr (Or.inl ⟨kind, w, p, rfl, rfl, hp, rfl⟩)
  case h_3 =>
    cases hd
    exact Or.inr (Or.inr ⟨rfl, rfl, rfl⟩)
  case h_4 => cases hd

theorem invoke_of_deed (hd : f.deed? args = some (o, d))
    (ho : s.classOf? o = some stringBuilderClass) :
    f.method.invoke args s = .ok (d.result o (builderText s o)) (d.store o s) := by
  rcases deed_cases hd with ⟨rfl, rfl, rfl⟩ | ⟨kind, w, p, rfl, rfl, hp, rfl⟩ | ⟨rfl, rfl, rfl⟩
  · have hrun : (builderInit stringBuilderClass [.obj o] : Call Value) s =
        .ok .void (s.setField o textField (.str [])) := by
      rw [builderInit, bind_of_ok (receiver_of_class ho "<init>")]
      rfl
    exact Method.invoke_of_run (m := Form.init.method) rfl hrun
  · exact Method.invoke_of_run (m := (Form.append kind).method) rfl
      (appendWith_of_ok kind.render ho (kind.render_of_piece _ w s hp))
  · have hrun : (builderToString stringBuilderClass [.obj o] : Call Value) s =
        .ok (.str (builderText s o)) s := by
      rw [builderToString, bind_of_ok (receiver_of_class ho "toString")]
      rfl
    exact Method.invoke_of_run (m := Form.toString.method) rfl hrun

theorem bind_receiver_fails {owner : ClassId} (method : String)
    (h : ∀ o rest, args = .obj o :: rest → s.classOf? o ≠ some owner) (g : ObjectId → Call Value) :
    ∃ e, ((receiver owner method args : Call ObjectId) >>= g) s = .error e s := by
  have hfails : ∃ e, (receiver owner method args : Call ObjectId) s = .error e s := by
    cases args with
    | nil => exact ⟨_, rfl⟩
    | cons v rest =>
      cases v with
      | obj o => exact ⟨_, receiver_foreign (h o rest rfl) method⟩
      | _ => exact ⟨_, rfl⟩
  obtain ⟨e, he⟩ := hfails
  exact ⟨e, bind_of_error he g⟩

theorem appendWith_fails {owner : ClassId} (render : List Value → Call Bytes)
    (h : ∀ o rest, args = .obj o :: rest → s.classOf? o = some owner →
      ∃ e, render args s = .error e s) : ∃ e, appendWith owner render args s = .error e s := by
  by_cases hobject : ∀ o rest, args = .obj o :: rest → s.classOf? o ≠ some owner
  · exact bind_receiver_fails "append" hobject _
  · simp only [not_forall, not_not] at hobject
    obtain ⟨o, rest, rfl, ho⟩ := hobject
    obtain ⟨e, he⟩ := h o rest rfl ho
    exact ⟨e, by rw [appendWith, bind_of_ok (receiver_of_class ho "append"), bind_of_error he]⟩

theorem invoke_of_no_deed
    (h : ∀ o d, f.deed? args = some (o, d) → s.classOf? o ≠ some stringBuilderClass) :
    ∃ e, f.method.invoke args s = .error e s := by
  by_cases hargs : args.length = f.method.arity
  case neg => exact ⟨_, by rw [Method.invoke_eq, if_pos hargs]⟩
  suffices hrun : ∃ e, f.method.run args s = .error e s by
    obtain ⟨e, he⟩ := hrun
    exact ⟨e, by rw [Method.invoke_eq, if_neg (not_not_intro hargs), he]⟩
  rcases f with _ | kind | _
  · obtain ⟨v, rfl⟩ := List.length_eq_one_iff.1 hargs
    refine bind_receiver_fails "<init>" (fun o rest hcons => ?_) _
    cases hcons
    exact h o .clear rfl
  · obtain ⟨v, w, rfl⟩ := List.length_eq_two.1 hargs
    refine appendWith_fails kind.render fun o rest hcons ho => ?_
    cases hcons
    cases hp : kind.piece? w with
    | none => exact kind.render_fails _ w s hp
    | some p => exact absurd ho (h o (.add p) (Option.map_eq_some_iff.2 ⟨p, hp, rfl⟩))
  · obtain ⟨v, rfl⟩ := List.length_eq_one_iff.1 hargs
    refine bind_receiver_fails "toString" (fun o rest hcons => ?_) _
    cases hcons
    exact h o .read rfl

/-- A call succeeds exactly if it has a string builder and a fitting argument. -/
theorem invoke_cases (f : Form) (args : List Value) (s : Store) :
    (∃ o d, f.deed? args = some (o, d) ∧ s.classOf? o = some stringBuilderClass ∧
      f.method.invoke args s = .ok (d.result o (builderText s o)) (d.store o s)) ∨
    (¬ ∃ o d, f.deed? args = some (o, d) ∧ s.classOf? o = some stringBuilderClass) ∧
      ∃ e, f.method.invoke args s = .error e s := by
  by_cases h : ∃ o d, f.deed? args = some (o, d) ∧ s.classOf? o = some stringBuilderClass
  · obtain ⟨o, d, hd, ho⟩ := h
    exact Or.inl ⟨o, d, hd, ho, invoke_of_deed hd ho⟩
  · exact Or.inr ⟨h, invoke_of_no_deed fun o d hd ho => h ⟨o, d, hd, ho⟩⟩

theorem head?_of_deed (hd : f.deed? args = some (o, d)) : args.head? = some (.obj o) := by
  rcases deed_cases hd with ⟨-, rfl, -⟩ | ⟨_, _, _, -, rfl, -, -⟩ | ⟨-, rfl, -⟩ <;> rfl

theorem result_of_append {kind : Kind} (hd : (Form.append kind).deed? args = some (o, d))
    (text : Bytes) : d.result o text = .obj o := by
  rcases deed_cases hd with ⟨hf, -, -⟩ | ⟨_, _, p, -, -, -, rfl⟩ | ⟨hf, -, -⟩
  · cases hf
  · rfl
  · cases hf

end Steps

/-! The text of the builders. -/

section Texts
variable {s : Store} {o : ObjectId} {c : ClassId}

theorem objects_store (d : Deed) {j : ObjectId} (h : o ≠ j) :
    (d.store o s).objects[j]? = s.objects[j]? := by
  cases d with
  | read => rfl
  | _ => simp [Deed.store, Store.setField, h]

theorem classOf?_store (d : Deed) (j : ObjectId) : (d.store o s).classOf? j = s.classOf? j := by
  have hset (v : Value) : (s.setField o textField v).classOf? j = s.classOf? j := by
    simp only [Store.classOf?, Store.setField, List.getElem?_modify, Option.map_eq_map,
      Option.map_map]
    congr 1
    funext ob
    simp only [Function.comp_apply]
    split_ifs <;> rfl
  cases d with
  | clear => exact hset _
  | add p => exact hset _
  | read => rfl

theorem builderText_congr {t : Store} (h : t.objects[o]? = s.objects[o]?) :
    builderText t o = builderText s o := by
  rw [builderText, builderText, Store.getField, Store.getField, h]

theorem builderText_setField (ho : s.classOf? o = some c) (text : Bytes) :
    builderText (s.setField o textField (.str text)) o = text := by
  obtain ⟨ob, hob, -⟩ := Option.map_eq_some_iff.1 ho
  simp [builderText, Store.getField, Store.setField, hob, Table.get?_set]

theorem builderText_store (ho : s.classOf? o = some c) (d : Deed) (j : ObjectId) :
    builderText (d.store o s) j =
      if o = j then d.after (builderText s j) else builderText s j := by
  split_ifs with hj
  · subst hj
    cases d with
    | clear => exact builderText_setField ho []
    | add p => exact builderText_setField ho _
    | read => rfl
  · exact builderText_congr (objects_store d hj)

theorem builderText_newObject (s : Store) (c : ClassId) (j : ObjectId) :
    builderText (s.newObject c).2 j = builderText s j := by
  rcases Nat.lt_trichotomy j s.objects.length with hlt | rfl | hgt
  · exact builderText_congr (List.getElem?_append_left hlt)
  · simp [builderText, Store.getField, Store.newObject, Table.get?, Table.find]
  · refine builderText_congr ?_
    rw [Store.newObject, List.getElem?_eq_none (by simp; omega), List.getElem?_eq_none (by omega)]

end Texts

inductive Act
  | create (c : ClassId)
  | call (form : Form) (args : List Value)

namespace Act

def run (s : Store) : Act → Store
  | create c => (s.newObject c).2
  | call form args => final (form.method.invoke args s)

def deed? (s : Store) : Act → Option (ObjectId × Deed)
  | create _ => none
  | call form args => if isOk (form.method.invoke args s) then form.deed? args else none

end Act

def after (s : Store) (acts : List Act) : Store := acts.foldl Act.run s

def past (s : Store) : List Act → List (ObjectId × Deed)
  | [] => []
  | a :: acts => (a.deed? s).toList ++ past (a.run s) acts

def Holds (done : List (ObjectId × Deed)) (s : Store) : Prop := ∀ o, builderText s o = since o done

section Runs
variable {s : Store} {done : List (ObjectId × Deed)}

theorem holds_run (h : Holds done s) (a : Act) : Holds (done ++ (a.deed? s).toList) (a.run s) := by
  intro j
  cases a with
  | create c =>
    rw [Act.run, builderText_newObject, h j, Act.deed?, Option.toList_none, List.append_nil]
  | call form args =>
    rw [Act.run, Act.deed?]
    rcases invoke_cases form args s with ⟨o, d, hd, ho, hok⟩ | ⟨-, e, he⟩
    · rw [hok, isOk, if_pos rfl, hd, Option.toList_some, since_snoc, final,
        builderText_store ho, h j]
    · rw [he, isOk, if_neg Bool.false_ne_true, Option.toList_none, List.append_nil]
      exact h j

theorem holds_after (h : Holds done s) (acts : List Act) :
    Holds (done ++ past s acts) (after s acts) := by
  induction acts generalizing s done with
  | nil =>
    rw [past, List.append_nil]
    exact h
  | cons a acts ih =>
    rw [past, ← List.append_assoc]
    exact ih (holds_run h a)

theorem classOf?_run (s : Store) (a : Act) {o : ObjectId} {c : ClassId}
    (h : s.classOf? o = some c) : (a.run s).classOf? o = some c := by
  cases a with
  | create c' =>
    obtain ⟨ob, hob, -⟩ := Option.map_eq_some_iff.1 h
    have hlt := (List.getElem?_eq_some_iff.1 hob).1
    rw [Act.run, Store.newObject, Store.classOf?, List.getElem?_append_left hlt]
    exact h
  | call form args =>
    rw [Act.run]
    rcases invoke_cases form args s with ⟨j, d, -, -, hok⟩ | ⟨-, e, he⟩
    · rw [hok, final, classOf?_store, h]
    · rw [he]
      exact h

end Runs

/-! Valid text. -/

theorem valid_text (p : Piece) (h : ∀ text, p = .str text → Utf8.valid text = true) :
    Utf8.valid p.text = true := by
  cases p with
  | str text => exact h text rfl
  | int n => exact Utf8.valid_utf8 _
  | char n =>
    rw [← charText_eq]
    exact Utf8.valid_encode _

theorem valid_since {o : ObjectId} {done : List (ObjectId × Deed)}
    (h : ∀ text, (o, .add (.str text)) ∈ done → Utf8.valid text = true) :
    Utf8.valid (since o done) = true := by
  -- from the end, because the last deed says what is kept of the text before it
  induction done using List.reverseRecOn with
  | nil => rfl
  | append_singleton done e ih =>
    obtain ⟨j, d⟩ := e
    have hbefore := ih fun text hmem => h text (List.mem_append_left _ hmem)
    rw [since_snoc]
    split_ifs with hj
    · subst hj
      cases d with
      | clear => rfl
      | read => exact hbefore
      | add p =>
        refine Utf8.valid_append hbefore (valid_text p ?_)
        rintro text rfl
        exact h text (List.mem_append_right _ List.mem_cons_self)
    · exact hbefore

/-- Whichever calls fail, `toString` gives what was appended to the object since it was cleared
last, or made. A call that fails changes nothing, and no call changes an object it is not for. -/
theorem builders_accumulate (start : Store) (hstart : ∀ o, builderText start o = [])
    (acts : List Act) :
    let s := after start acts
    let done := past start acts
    (∀ o, s.classOf? o = some stringBuilderClass →
      Form.toString.method.invoke [.obj o] s = .ok (.str (since o done)) s) ∧
    (∀ (f : Form) args, isOk (f.method.invoke args s) = true ↔
      ∃ o d, f.deed? args = some (o, d) ∧ s.classOf? o = some stringBuilderClass) ∧
    (∀ kind args v t, (Form.append kind).method.invoke args s = .ok v t → args.head? = some v) ∧
    (∀ (f : Form) args e t, f.method.invoke args s = .error e t → t = s) ∧
    (∀ (f : Form) args o, args.head? ≠ some (.obj o) →
      (final (f.method.invoke args s)).objects[o]? = s.objects[o]?) ∧
    (∀ (a : Act) o c, s.classOf? o = some c → (a.run s).classOf? o = some c) ∧
    ∀ o, (∀ text, (o, .add (.str text)) ∈ done → Utf8.valid text = true) →
      Utf8.valid (since o done) = true := by
  intro s done
  have hnone : Holds [] start := hstart
  have hholds : Holds done s := holds_after hnone acts
  refine ⟨fun o ho => ?_, fun f args => ?_, fun kind args v t hok => ?_, fun f args e t he => ?_,
    fun f args o ho => ?_, fun a o c => classOf?_run s a, fun o => valid_since⟩
  · rw [← hholds o]
    exact invoke_of_deed (f := .toString) (d := .read) rfl ho
  · rcases invoke_cases f args s with ⟨o, d, hd, ho, hok⟩ | ⟨hno, e, he⟩
    · rw [hok]
      exact iff_of_true rfl ⟨o, d, hd, ho⟩
    · rw [he]
      exact iff_of_false Bool.false_ne_true hno
  · rcases invoke_cases (.append kind) args s with ⟨o, d, hd, -, hok'⟩ | ⟨-, e, he⟩
    · rw [hok', result_of_append hd] at hok
      cases hok
      exact head?_of_deed hd
    · rw [he] at hok
      cases hok
  · rcases invoke_cases f args s with ⟨o, d, -, -, hok⟩ | ⟨-, e', he'⟩
    · rw [hok] at he
      cases he
    · rw [he'] at he
      cases he
      rfl
  · rcases invoke_cases f args s with ⟨j, d, hd, -, hok⟩ | ⟨-, e, he⟩
    · rw [hok]
      refine objects_store d ?_
      rintro rfl
      exact ho (head?_of_deed hd)
    · rw [he]
      rfl

/-- Two builders in turn; the third and the sixth append fail, and the second builder is cleared. -/
def mixed : List Act :=
  [.create stringBuilderClass, .create stringBuilderClass,
    .call (.append .str) [.obj 1, .str (utf8 "né")],
    .call (.append .int) [.obj 2, .int (-7)],
    .call (.append .int) [.obj 1, .str (utf8 "x")],
    .call (.append .char) [.obj 1, .int 0x120AC],
    .call .init [.obj 2],
    .call (.append .char) [.obj 2, .int 0xD800],
    .call (.append .str) [.obj systemOut, .str (utf8 "x")],
    .call (.append .int) [.obj 2, .int (-120)]]

theorem mixed_texts :
    let s := after (standardStore {}) mixed
    Form.toString.method.invoke [.obj 1] s = .ok (.str (utf8 "né€")) s ∧
      Form.toString.method.invoke [.obj 2] s = .ok (.str (utf8 "�-120")) s ∧
      Utf8.valid (since 1 (past (standardStore {}) mixed)) = true := by
  have hstart : ∀ o, builderText (standardStore {}) o = [] := by
    intro o
    rcases o with _ | o <;> rfl
  have hpast : past (standardStore {}) mixed =
      [(1, .add (.str (utf8 "né"))), (2, .add (.int (-7))), (1, .add (.char 0x120AC)), (2, .clear),
        (2, .add (.char 0xD800)), (2, .add (.int (-120)))] := rfl
  obtain ⟨htext, -, -, -, -, -, hvalid⟩ := builders_accumulate (standardStore {}) hstart mixed
  refine ⟨htext 1 rfl, htext 2 rfl, hvalid 1 fun text hmem => ?_⟩
  rw [hpast] at hmem
  obtain rfl : text = utf8 "né" := by simpa using hmem
  exact Utf8.valid_utf8 "né"

end ClassMachine.Builder
