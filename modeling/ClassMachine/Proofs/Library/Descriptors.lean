import Mathlib.Data.List.Basic
import Mathlib.Data.List.TakeWhile
import ClassMachine.Library.Descriptor

/-! The grammar of method descriptors. A `Descriptor` is a sentence of it, and its `methodType` is
what stands between and after the parentheses. `MethodType.parse` accepts what the sentences are
written as, and nothing else, and no text is that of two of them (`parse_iff_descriptor`). -/
namespace ClassMachine.MethodType
variable {s t rest : Bytes}

inductive Primitive
  | byte | char | double | float | int | long | short | boolean

def Primitive.letter : Primitive → UInt8
  | byte => 66
  | char => 67
  | double => 68
  | float => 70
  | int => 73
  | long => 74
  | short => 83
  | boolean => 90

/-- The name of a class as it can stand in a field type, which a semicolon ends. -/
@[ext] structure ClassName where
  text : Bytes
  ne_nil : text ≠ []
  no_semicolon : 59 ∉ text

inductive FieldType
  | primitive (p : Primitive)
  | object (name : ClassName)
  | array (element : FieldType)

namespace FieldType

def text : FieldType → Bytes
  | primitive p => [p.letter]
  | object name => 76 :: name.text ++ [59]
  | array element => 91 :: element.text

def Enclosed : FieldType → Prop
  | primitive _ => True
  | object name => 41 ∉ name.text
  | array element => element.Enclosed

end FieldType

/-- A method descriptor by its grammar. The first closing parenthesis is the one after the
parameters; in the type that is returned there may be others. -/
@[ext] structure Descriptor where
  params : List FieldType
  ret : Option FieldType
  enclosed : ∀ f ∈ params, f.Enclosed

def Descriptor.methodType (d : Descriptor) : MethodType where
  params := d.params.map FieldType.text
  ret := (d.ret.map FieldType.text).getD (utf8 "V")

def text (m : MethodType) : Bytes := 40 :: m.params.flatten ++ 41 :: m.ret

section Unambiguity

theorem mem_primitives_iff (b : UInt8) : b ∈ primitives ↔ ∃ p : Primitive, p.letter = b := by
  constructor
  · intro h
    simp only [primitives, List.mem_cons, List.not_mem_nil, or_false] at h
    rcases h with rfl | rfl | rfl | rfl | rfl | rfl | rfl | rfl
    exacts [⟨.byte, rfl⟩, ⟨.char, rfl⟩, ⟨.double, rfl⟩, ⟨.float, rfl⟩, ⟨.int, rfl⟩, ⟨.long, rfl⟩,
      ⟨.short, rfl⟩, ⟨.boolean, rfl⟩]
  · rintro ⟨p, rfl⟩
    cases p <;> decide

theorem Primitive.letter_injective : Function.Injective Primitive.letter := by
  intro p q h
  cases p <;> cases q <;> first | rfl | cases h

theorem Primitive.letter_ne {b : UInt8} (h : b ∉ primitives) (p : Primitive) : p.letter ≠ b :=
  fun hp => h ((mem_primitives_iff b).2 ⟨p, hp⟩)

theorem FieldType.text_injective : Function.Injective FieldType.text := by
  intro f
  induction f with
  | primitive p =>
    intro g h
    cases g with
    | primitive q =>
      simp only [FieldType.text, List.cons.injEq, and_true] at h
      rw [Primitive.letter_injective h]
    | object name => exact absurd (List.cons.inj h).1 (p.letter_ne (by decide))
    | array element => exact absurd (List.cons.inj h).1 (p.letter_ne (by decide))
  | object name =>
    intro g h
    cases g with
    | primitive q => exact absurd (List.cons.inj h).1.symm (q.letter_ne (by decide))
    | object other =>
      have htext : name.text ++ [59] = other.text ++ [59] := (List.cons.inj h).2
      rw [ClassName.ext (List.append_cancel_right htext)]
    | array element => cases h
  | array element ih =>
    intro g h
    cases g with
    | primitive q => exact absurd (List.cons.inj h).1.symm (q.letter_ne (by decide))
    | object name => cases h
    | array other => rw [ih (List.cons.inj h).2]

theorem FieldType.enclosed_iff (f : FieldType) : f.Enclosed ↔ 41 ∉ f.text := by
  induction f with
  | primitive p =>
    have hp : 41 ≠ p.letter := (p.letter_ne (by decide)).symm
    simp [FieldType.Enclosed, FieldType.text, hp]
  | object name => simp [FieldType.Enclosed, FieldType.text]
  | array element ih => simp [FieldType.Enclosed, FieldType.text, ih]

/-- The one letter of `void` is not that of a field type, so a descriptor can be told from its
parts. -/
theorem FieldType.text_ne_void (f : FieldType) : f.text ≠ utf8 "V" := by
  have hvoid : utf8 "V" = [86] := by decide
  rw [hvoid]
  cases f with
  | primitive p => exact fun h => p.letter_ne (by decide) (List.cons.inj h).1
  | object name => simp [FieldType.text]
  | array element => simp [FieldType.text]

theorem Descriptor.methodType_injective : Function.Injective Descriptor.methodType := by
  intro d e h
  have hparams : d.params.map FieldType.text = e.params.map FieldType.text :=
    congrArg MethodType.params h
  have hret : (d.ret.map FieldType.text).getD (utf8 "V") =
      (e.ret.map FieldType.text).getD (utf8 "V") := congrArg MethodType.ret h
  refine Descriptor.ext (List.map_injective_iff.2 FieldType.text_injective hparams) ?_
  cases hd : d.ret with
  | none =>
    cases he : e.ret with
    | none => rfl
    | some f =>
      rw [hd, he] at hret
      exact absurd hret.symm f.text_ne_void
  | some f =>
    cases he : e.ret with
    | none =>
      rw [hd, he] at hret
      exact absurd hret f.text_ne_void
    | some g =>
      rw [hd, he] at hret
      rw [FieldType.text_injective hret]

end Unambiguity

section Reading

def elementEnd (s : Bytes) (i : Nat) : Except FieldError Nat :=
  Id.run (Slicing.elementEnd s i : ExceptT FieldError Id Nat).run

def fieldLength (s : Bytes) : Except FieldError Nat :=
  Id.run (Slicing.fieldLength s : ExceptT FieldError Id Nat).run

def fieldTypes (n : Nat) (s : Bytes) : Except FieldError (List Bytes) :=
  Id.run (Slicing.fieldTypes n s : ExceptT FieldError Id (List Bytes)).run

def isField (s : Bytes) : Bool := Id.run (Slicing.isField s)

theorem byte_eq {ε : Type} (s : Bytes) (i : Nat) :
    (Slicing.byte s i : ExceptT ε Id UInt8) = pure (s.getD i 0) := rfl

theorem slice_eq {ε : Type} (s : Bytes) (lo hi : Nat) :
    (Slicing.slice s lo hi : ExceptT ε Id Bytes) = pure ((s.take hi).drop lo) := rfl

theorem idxOf?_eq_some_iff {b : UInt8} {n : Nat} : s.idxOf? b = some n ↔
    ∃ before after, s = before ++ b :: after ∧ b ∉ before ∧ before.length = n := by
  have hfirst {before after : Bytes} (hb : b ∉ before) :
      (before ++ b :: after).idxOf? b = some before.length := by
    induction before with
    | nil => simp [List.idxOf?_cons]
    | cons x before ih =>
      rw [List.mem_cons, not_or] at hb
      simp [List.idxOf?_cons, Ne.symm hb.1, ih hb.2]
  constructor
  · intro h
    have hmem : b ∈ s := List.isSome_idxOf?.1 (by rw [h]; rfl)
    obtain ⟨before, after, rfl, hb⟩ := List.eq_append_cons_of_mem hmem
    rw [hfirst hb] at h
    exact ⟨before, after, rfl, hb, Option.some.inj h⟩
  · rintro ⟨before, after, rfl, hb, rfl⟩
    exact hfirst hb

theorem skipBrackets_eq {ε : Type} {n i : Nat} (h : i + n = s.length) :
    (Slicing.skipBrackets s n i : ExceptT ε Id Nat) =
      pure (i + ((s.drop i).takeWhile (· == 91)).length) := by
  induction n generalizing i with
  | zero =>
    rw [List.drop_eq_nil_of_le (by omega)]
    rfl
  | succ n ih =>
    have hlt : i < s.length := by omega
    have hbyte : s.getD i 0 = s[i] := by simp [hlt]
    rw [Slicing.skipBrackets, byte_eq, pure_bind, hbyte, List.drop_eq_getElem_cons hlt,
      List.takeWhile_cons]
    by_cases hb : s[i] = 91
    · rw [if_pos hb, if_pos (beq_iff_eq.2 hb), ih (by omega), List.length_cons]
      congr 1
      omega
    · rw [if_neg hb, if_neg (mt beq_iff_eq.1 hb)]
      rfl

end Reading

/-- A field type that is no array: its letter, and what comes behind it. -/
def Element (letter : UInt8) (more : Bytes) : Prop :=
  letter ∈ primitives ∧ more = [] ∨ letter = 76 ∧ ∃ name : ClassName, more = name.text ++ [59]

theorem Element.letter_ne {letter : UInt8} {more : Bytes} (h : Element letter more) :
    letter ≠ 91 := by
  rintro rfl
  obtain ⟨hletter, -⟩ | ⟨hletter, -⟩ := h
  · exact absurd hletter (by decide)
  · cases hletter

theorem FieldType.exists_text_iff : (∃ f : FieldType, f.text = t) ↔
    ∃ dims letter more, t = dims ++ letter :: more ∧ (∀ b ∈ dims, b = 91) ∧
      Element letter more := by
  constructor
  · rintro ⟨f, rfl⟩
    induction f with
    | primitive p =>
      exact ⟨[], p.letter, [], rfl, by simp, Or.inl ⟨(mem_primitives_iff _).2 ⟨p, rfl⟩, rfl⟩⟩
    | object name => exact ⟨[], 76, _, rfl, by simp, Or.inr ⟨rfl, name, rfl⟩⟩
    | array element ih =>
      obtain ⟨dims, letter, more, htext, hdims, helement⟩ := ih
      refine ⟨91 :: dims, letter, more, ?_, List.forall_mem_cons.2 ⟨rfl, hdims⟩, helement⟩
      rw [FieldType.text, htext, List.cons_append]
  · rintro ⟨dims, letter, more, rfl, hdims, helement⟩
    induction dims with
    | nil =>
      obtain ⟨hletter, rfl⟩ | ⟨rfl, name, rfl⟩ := helement
      · obtain ⟨p, rfl⟩ := (mem_primitives_iff letter).1 hletter
        exact ⟨.primitive p, rfl⟩
      · exact ⟨.object name, rfl⟩
    | cons b dims ih =>
      obtain ⟨rfl, hrest⟩ := List.forall_mem_cons.1 hdims
      obtain ⟨f, hf⟩ := ih hrest
      exact ⟨.array f, by rw [FieldType.text, hf, List.cons_append]⟩

theorem FieldType.text_ne_nil (f : FieldType) : f.text ≠ [] := by
  cases f <;> simp [FieldType.text]

section Fields
variable {k : Nat} {dims : Bytes} {letter : UInt8}

theorem className_iff : ((76 :: rest).idxOf? 59 = some k ∧ ¬ k ≤ 1) ↔
    ∃ more after, rest = more ++ after ∧ Element 76 more ∧ more.length = k := by
  constructor
  · rintro ⟨h, hk⟩
    obtain ⟨before, after, hparts, hb, rfl⟩ := idxOf?_eq_some_iff.1 h
    cases before with
    | nil => exact absurd (Nat.zero_le 1) hk
    | cons x name =>
      obtain ⟨rfl, rfl⟩ := List.cons.inj hparts
      have hname : name ≠ [] := by
        rintro rfl
        exact hk (Nat.le_refl 1)
      have hsemicolon : 59 ∉ name := fun hmem => hb (List.mem_cons_of_mem _ hmem)
      exact ⟨name ++ [59], after, by simp, Or.inr ⟨rfl, ⟨name, hname, hsemicolon⟩, rfl⟩, by simp⟩
  · rintro ⟨more, after, rfl, ⟨hletter, -⟩ | ⟨-, name, rfl⟩, rfl⟩
    · exact absurd hletter (by decide)
    · have hpos := List.length_pos_iff.2 name.ne_nil
      refine ⟨idxOf?_eq_some_iff.2 ⟨76 :: name.text, after, by simp, ?_, by simp⟩, ?_⟩
      · simp [name.no_semicolon]
      · rw [List.length_append, List.length_singleton]
        omega

/-- A class name ends at the first semicolon, if that does not come too early. -/
theorem elementEnd_class_iff : elementEnd (dims ++ 76 :: rest) dims.length = .ok k ↔
    ∃ n, ((76 :: rest).idxOf? 59 = some n ∧ ¬ n ≤ 1) ∧ dims.length + n + 1 = k := by
  have hbyte : (dims ++ 76 :: rest).getD dims.length 0 = 76 := by simp
  rw [elementEnd, Slicing.elementEnd, byte_eq, hbyte, pure_bind, slice_eq, pure_bind,
    List.take_length, List.drop_left, if_neg (by decide), if_pos rfl]
  cases (76 :: rest).idxOf? 59 with
  | none =>
    change (Except.error _ : Except FieldError Nat) = .ok k ↔ _
    simp
  | some n =>
    dsimp only
    by_cases hn : n ≤ 1
    · rw [if_pos hn]
      change (Except.error _ : Except FieldError Nat) = .ok k ↔ _
      simp only [reduceCtorEq, false_iff]
      rintro ⟨_, ⟨⟨⟩, hlong⟩, -⟩
      exact hlong hn
    · rw [if_neg hn]
      change (Except.ok (dims.length + n + 1) : Except FieldError Nat) = .ok k ↔ _
      rw [Except.ok.injEq]
      constructor
      · intro hk
        exact ⟨n, ⟨rfl, hn⟩, hk⟩
      · rintro ⟨_, ⟨⟨⟩, -⟩, hk⟩
        exact hk

theorem elementEnd_ok_iff : elementEnd (dims ++ letter :: rest) dims.length = .ok k ↔
    ∃ more after, rest = more ++ after ∧ Element letter more ∧
      dims.length + more.length + 1 = k := by
  by_cases hletter : letter = 76
  · subst hletter
    rw [elementEnd_class_iff]
    constructor
    · rintro ⟨n, hn, hk⟩
      obtain ⟨more, after, hparts, helement, rfl⟩ := className_iff.1 hn
      exact ⟨more, after, hparts, helement, hk⟩
    · rintro ⟨more, after, hparts, helement, hk⟩
      exact ⟨more.length, className_iff.2 ⟨more, after, hparts, helement, rfl⟩, hk⟩
  · have hbyte : (dims ++ letter :: rest).getD dims.length 0 = letter := by simp
    rw [elementEnd, Slicing.elementEnd, byte_eq, hbyte, pure_bind]
    by_cases hprimitive : letter ∈ primitives
    · rw [if_pos hprimitive]
      change (Except.ok (dims.length + 1) : Except FieldError Nat) = .ok k ↔ _
      simp [Element, hprimitive, hletter]
    · rw [if_neg hprimitive, if_neg hletter]
      change (Except.error _ : Except FieldError Nat) = .ok k ↔ _
      simp [Element, hprimitive, hletter]

theorem fieldLength_of_letter (hdims : ∀ b ∈ dims, b = 91) (hletter : letter ≠ 91) :
    fieldLength (dims ++ letter :: rest) = elementEnd (dims ++ letter :: rest) dims.length := by
  have htake : (dims ++ letter :: rest).takeWhile (· == 91) = dims := by
    rw [List.takeWhile_append_of_pos fun b hb => beq_iff_eq.2 (hdims b hb), List.takeWhile_cons,
      if_neg (by simpa using hletter), List.append_nil]
  rw [fieldLength, Slicing.fieldLength, skipBrackets_eq (Nat.zero_add _), pure_bind, Nat.zero_add,
    List.drop_zero, htake, if_neg (by simp)]
  rfl

theorem fieldLength_of_brackets (hdims : ∀ b ∈ dims, b = 91) :
    fieldLength dims = .error (.arrayOfNothing dims) := by
  have htake : dims.takeWhile (· == 91) = dims :=
    List.takeWhile_eq_self_iff.2 fun b hb => beq_iff_eq.2 (hdims b hb)
  rw [fieldLength, Slicing.fieldLength, skipBrackets_eq (Nat.zero_add _), pure_bind, Nat.zero_add,
    List.drop_zero, htake, if_pos (Nat.le_refl _)]
  rfl

/-- The length that is found is that of the field type at the front of the text. -/
theorem fieldLength_ok_iff : fieldLength s = .ok k ↔
    ∃ (f : FieldType) (rest : Bytes), s = f.text ++ rest ∧ f.text.length = k := by
  constructor
  · intro h
    have hparts : s.takeWhile (· == 91) ++ s.dropWhile (· == 91) = s :=
      List.takeWhile_append_dropWhile
    have hdims : ∀ b ∈ s.takeWhile (· == 91), b = 91 := by
      intro b hb
      simpa using List.mem_takeWhile_imp hb
    generalize s.takeWhile (· == 91) = dims at hparts hdims
    cases htail : s.dropWhile (· == 91) with
    | nil =>
      rw [htail, List.append_nil] at hparts
      cases (hparts ▸ fieldLength_of_brackets hdims).symm.trans h
    | cons letter tail =>
      have hletter : letter ≠ 91 := by
        have hhead := List.head?_dropWhile_not (· == 91) s
        rw [htail] at hhead
        simpa using hhead
      rw [htail] at hparts
      rw [← hparts, fieldLength_of_letter hdims hletter] at h
      obtain ⟨more, after, rfl, helement, rfl⟩ := elementEnd_ok_iff.1 h
      obtain ⟨f, hf⟩ := FieldType.exists_text_iff.2 ⟨dims, letter, more, rfl, hdims, helement⟩
      exact ⟨f, after, by rw [← hparts, hf]; simp, by rw [hf]; simp [Nat.add_assoc]⟩
  · rintro ⟨f, rest, rfl, rfl⟩
    obtain ⟨dims, letter, more, htext, hdims, helement⟩ := FieldType.exists_text_iff.1 ⟨f, rfl⟩
    rw [htext, List.append_assoc, List.cons_append, fieldLength_of_letter hdims helement.letter_ne]
    exact elementEnd_ok_iff.2 ⟨more, rest, rfl, helement, by simp [Nat.add_assoc]⟩

theorem fieldTypes_nil_iff {n : Nat} {ts : List Bytes} : fieldTypes n [] = .ok ts ↔
    ∃ fs : List FieldType, fs.map FieldType.text = ts ∧ [] = ts.flatten := by
  have hnil : fieldTypes n [] = .ok [] := by cases n <;> rfl
  rw [hnil, Except.ok.injEq]
  constructor
  · rintro rfl
    exact ⟨[], rfl, rfl⟩
  · rintro ⟨_ | ⟨f, fs⟩, rfl, hflat⟩
    · rfl
    · exact absurd (List.append_eq_nil_iff.1 hflat.symm).1 f.text_ne_nil

theorem fieldTypes_of_ne (hs : s ≠ []) {n : Nat} {ts : List Bytes} :
    fieldTypes (n + 1) s = .ok ts ↔ ∃ k more, fieldLength s = .ok k ∧
      fieldTypes n (s.drop k) = .ok more ∧ s.take k :: more = ts := by
  rw [fieldTypes, Slicing.fieldTypes, if_neg (by simpa using hs)]
  cases hlength : fieldLength s with
  | error e =>
    have hfails : (Slicing.fieldLength s : ExceptT FieldError Id Nat) = throw e := hlength
    rw [hfails]
    change (Except.error e : Except FieldError (List Bytes)) = .ok ts ↔ _
    simp
  | ok k =>
    have hgives : (Slicing.fieldLength s : ExceptT FieldError Id Nat) = pure k := hlength
    rw [hgives, pure_bind, slice_eq, pure_bind, slice_eq, pure_bind, List.take_length,
      List.drop_zero]
    cases hmore : fieldTypes n (s.drop k) with
    | error e =>
      have hfails : (Slicing.fieldTypes n (s.drop k) : ExceptT FieldError Id (List Bytes)) =
          throw e := hmore
      rw [hfails]
      change (Except.error e : Except FieldError (List Bytes)) = .ok ts ↔ _
      simp [hmore]
    | ok more =>
      have hgives : (Slicing.fieldTypes n (s.drop k) : ExceptT FieldError Id (List Bytes)) =
          pure more := hmore
      rw [hgives]
      change (Except.ok (s.take k :: more) : Except FieldError (List Bytes)) = .ok ts ↔ _
      simp [hmore]

theorem fieldTypes_ok_iff {n : Nat} (h : s.length ≤ n) {ts : List Bytes} :
    fieldTypes n s = .ok ts ↔
      ∃ fs : List FieldType, fs.map FieldType.text = ts ∧ s = ts.flatten := by
  induction n generalizing s ts with
  | zero =>
    rw [List.length_eq_zero_iff.1 (Nat.le_zero.1 h)]
    exact fieldTypes_nil_iff
  | succ n ih =>
    by_cases hs : s = []
    · rw [hs]
      exact fieldTypes_nil_iff
    · -- what is cut off has a byte, so the rest is short enough
      have hrest {f : FieldType} {rest : Bytes} (h : (f.text ++ rest).length ≤ n + 1) :
          rest.length ≤ n := by
        have hpos := List.length_pos_iff.2 f.text_ne_nil
        rw [List.length_append] at h
        omega
      rw [fieldTypes_of_ne hs]
      constructor
      · rintro ⟨k, more, hlength, hmore, rfl⟩
        obtain ⟨f, rest, rfl, rfl⟩ := fieldLength_ok_iff.1 hlength
        rw [List.drop_left] at hmore
        rw [List.take_left]
        obtain ⟨fs, rfl, rfl⟩ := (ih (hrest h)).1 hmore
        exact ⟨f :: fs, rfl, rfl⟩
      · rintro ⟨_ | ⟨f, fs⟩, rfl, rfl⟩
        · exact absurd rfl hs
        · rw [List.map_cons, List.flatten_cons] at h ⊢
          refine ⟨_, fs.map FieldType.text, fieldLength_ok_iff.2 ⟨f, _, rfl, rfl⟩, ?_, ?_⟩
          · rw [List.drop_left]
            exact (ih (hrest h)).2 ⟨fs, rfl, rfl⟩
          · rw [List.take_left]

theorem isField_iff : isField s = true ↔ ∃ f : FieldType, f.text = s := by
  have hwhole : isField s = true ↔ fieldLength s = .ok s.length := by
    cases hlength : fieldLength s with
    | error e =>
      have hfails : (Slicing.fieldLength s : ExceptT FieldError Id Nat).run = pure (.error e) :=
        hlength
      rw [isField, Slicing.isField, hfails]
      simp
    | ok k =>
      have hgives : (Slicing.fieldLength s : ExceptT FieldError Id Nat).run = pure (.ok k) :=
        hlength
      rw [isField, Slicing.isField, hgives]
      simp
  rw [hwhole, fieldLength_ok_iff]
  constructor
  · rintro ⟨f, rest, hs, hlength⟩
    have hrest : rest = [] := by
      rw [hs, List.length_append] at hlength
      exact List.length_eq_zero_iff.1 (by omega)
    exact ⟨f, by rw [hs, hrest, List.append_nil]⟩
  · rintro ⟨f, rfl⟩
    exact ⟨f, [], (List.append_nil _).symm, rfl⟩

end Fields

theorem Descriptor.not_mem_params (d : Descriptor) : 41 ∉ d.methodType.params.flatten := by
  intro h
  obtain ⟨t, ht, hmem⟩ := List.mem_flatten.1 h
  obtain ⟨f, hf, rfl⟩ := List.mem_map.1 ht
  exact f.enclosed_iff.1 (d.enclosed f hf) hmem

theorem returns_iff {ret : Bytes} : (ret == utf8 "V" || isField ret) = true ↔
    ∃ f : Option FieldType, (f.map FieldType.text).getD (utf8 "V") = ret := by
  rw [Bool.or_eq_true, beq_iff_eq, isField_iff]
  constructor
  · rintro (rfl | ⟨f, rfl⟩)
    · exact ⟨none, rfl⟩
    · exact ⟨some f, rfl⟩
  · rintro ⟨_ | f, rfl⟩
    · exact Or.inl rfl
    · exact Or.inr ⟨f, rfl⟩

theorem parse_closed_ok_iff {params ret : Bytes} (hclose : 41 ∉ params) {m : MethodType} :
    parse (40 :: (params ++ 41 :: ret)) = .ok m ↔ ∃ types,
      fieldTypes params.length params = .ok types ∧ (ret == utf8 "V" || isField ret) = true ∧
        { params := types, ret } = m := by
  have hstop : (40 :: (params ++ 41 :: ret)).idxOf? 41 = some (params.length + 1) :=
    idxOf?_eq_some_iff.2 ⟨40 :: params, ret, rfl, by simp [hclose], rfl⟩
  have hparams : ((40 :: (params ++ 41 :: ret)).take (params.length + 1)).drop 1 = params := by simp
  have hret : ((40 :: (params ++ 41 :: ret)).take (40 :: (params ++ 41 :: ret)).length).drop
      (params.length + 1 + 1) = ret := by
    rw [List.take_length]
    simp
  rw [parse, Slicing.methodType, if_neg (by simp), hstop]
  dsimp only
  rw [slice_eq, pure_bind, hparams]
  cases htypes : fieldTypes params.length params with
  | error e =>
    have hfails : (Slicing.fieldTypes params.length params : ExceptT FieldError Id _) = throw e :=
      htypes
    rw [hfails]
    change (Except.error _ : Except Error MethodType) = .ok m ↔ _
    simp
  | ok types =>
    have hgives : (Slicing.fieldTypes params.length params : ExceptT FieldError Id _) =
        pure types := htypes
    have hadapted (f : FieldError → Error) :
        (pure types : ExceptT FieldError Id (List Bytes)).adapt f = pure types := rfl
    rw [hgives, hadapted, pure_bind, slice_eq, pure_bind, hret]
    by_cases hvoid : ret = utf8 "V"
    · rw [if_pos hvoid]
      change (Except.ok _ : Except Error MethodType) = .ok m ↔ _
      simp [hvoid]
    · rw [if_neg hvoid]
      cases hfield : isField ret with
      | true =>
        have hyes : (Slicing.isField ret : Id Bool) = pure true := hfield
        rw [hyes]
        change (Except.ok _ : Except Error MethodType) = .ok m ↔ _
        simp
      | false =>
        have hno : (Slicing.isField ret : Id Bool) = pure false := hfield
        rw [hno]
        change (Except.error _ : Except Error MethodType) = .ok m ↔ _
        simp [hvoid]

theorem parse_ok_iff {d : Bytes} {m : MethodType} :
    parse d = .ok m ↔ d = m.text ∧ ∃ e : Descriptor, e.methodType = m := by
  constructor
  · intro h
    by_cases hopen : d.head? = some 40
    · obtain ⟨inner, rfl⟩ := List.head?_eq_some_iff.1 hopen
      by_cases hmem : 41 ∈ inner
      · obtain ⟨front, ret, rfl, hclose⟩ := List.eq_append_cons_of_mem hmem
        obtain ⟨types, htypes, hret, rfl⟩ := (parse_closed_ok_iff hclose).1 h
        obtain ⟨fs, rfl, rfl⟩ := (fieldTypes_ok_iff (Nat.le_refl _)).1 htypes
        obtain ⟨f, rfl⟩ := returns_iff.1 hret
        -- the text was cut at the first closing parenthesis
        have henclosed : ∀ g ∈ fs, g.Enclosed := by
          intro g hg
          rw [g.enclosed_iff]
          exact fun hmem => hclose (List.mem_flatten.2 ⟨_, List.mem_map_of_mem hg, hmem⟩)
        exact ⟨rfl, ⟨fs, f, henclosed⟩, rfl⟩
      · have hnone : (40 :: inner).idxOf? 41 = none :=
          List.idxOf?_eq_none_iff.2 (by simp [hmem])
        rw [parse, Slicing.methodType, if_neg (not_not_intro hopen), hnone] at h
        cases h
    · rw [parse, Slicing.methodType, if_pos hopen] at h
      cases h
  · rintro ⟨rfl, e, rfl⟩
    refine (parse_closed_ok_iff e.not_mem_params).2 ⟨e.methodType.params, ?_, ?_, rfl⟩
    · exact (fieldTypes_ok_iff (Nat.le_refl _)).2 ⟨e.params, rfl, rfl⟩
    · exact returns_iff.2 ⟨e.ret, rfl⟩

/-- A text is a method descriptor exactly if it is put together from the parts of a sentence of the
grammar, of which there is only one; the parts that are read are those of the sentence. -/
theorem parse_iff_descriptor :
    (∀ d m, parse d = .ok m ↔ d = m.text ∧ ∃! e : Descriptor, e.methodType = m) ∧
      (∀ d, (∃ m, parse d = .ok m) ↔ ∃! e : Descriptor, d = e.methodType.text) ∧
      ∀ e : Descriptor, parse e.methodType.text = .ok e.methodType := by
  have hprinted (e : Descriptor) : parse e.methodType.text = .ok e.methodType :=
    parse_ok_iff.2 ⟨rfl, e, rfl⟩
  refine ⟨fun d m => ?_, fun d => ?_, hprinted⟩
  · rw [parse_ok_iff]
    refine and_congr_right fun _ => ⟨?_, ExistsUnique.exists⟩
    rintro ⟨e, rfl⟩
    exact ⟨e, rfl, fun other h => Descriptor.methodType_injective h⟩
  · constructor
    · rintro ⟨m, h⟩
      obtain ⟨rfl, e, rfl⟩ := parse_ok_iff.1 h
      refine ⟨e, rfl, fun other hother => ?_⟩
      rw [hother, hprinted other] at h
      exact Descriptor.methodType_injective (Except.ok.inj h)
    · rintro ⟨e, rfl, -⟩
      exact ⟨_, hprinted e⟩

end ClassMachine.MethodType
