import Mathlib.Data.List.Forall2
import ClassMachine.Proofs.ClassFile.Resolution

/-! The places of constants while a class is assembled. A constant keeps its place when more are
added, so what resolves once resolves for good; `Delivers` says so of a step, and the steps are
composed with `delivers_bind`. A script of operations leaves an assembler in which every name that
it uses has a place, and every place it was given denotes what it was given for
(`script_assembled`), as long as the places fit into 16 bits. -/
namespace ClassMachine

namespace Pool

def of (entries : List Constant) : Pool :=
  { count := UInt16.ofNat (entries.length + 1), entries }

variable {p : Pool} {i : UInt16} {s : Bytes} {es fs : List Constant}

theorem get?_extend (h : es <+: fs) {c : Constant} (hc : (of es).get? i = some c) :
    (of fs).get? i = some c := by
  obtain ⟨more, rfl⟩ := h
  simp only [get?, of] at hc ⊢
  by_cases hi : i = 0
  · simp [hi] at hc
  · rw [if_neg hi] at hc ⊢
    obtain ⟨hlt, -⟩ := List.getElem?_eq_some_iff.1 hc
    rwa [List.getElem?_append_left hlt]

theorem text_extend (h : es <+: fs) (hs : (of es).text i = .ok s) : (of fs).text i = .ok s :=
  text_ok_iff.2 (get?_extend h (text_ok_iff.1 hs))

theorem className_extend (h : es <+: fs) (hs : (of es).className i = .ok s) :
    (of fs).className i = .ok s := by
  obtain ⟨j, hj, ht⟩ := className_ok_iff.1 hs
  exact className_ok_iff.2 ⟨j, get?_extend h hj, text_extend h ht⟩

/-- The last of at most 65534 entries is found by its place. -/
theorem get?_last (es : List Constant) (c : Constant) (h : es.length + 1 ≤ 65534) :
    (of (es ++ [c])).get? (UInt16.ofNat (es.length + 1)) = some c := by
  have hplace : (UInt16.ofNat (es.length + 1)).toNat = es.length + 1 := by
    rw [UInt16.toNat_ofNat']
    omega
  have hne : UInt16.ofNat (es.length + 1) ≠ 0 := by
    intro h0
    rw [h0] at hplace
    cases hplace
  rw [get?, if_neg hne, hplace]
  simp [of]

end Pool

namespace Assembler

def RawConstant.of (c : Constant) : RawConstant := ⟨c.kind.tag, c.payload⟩

structure Retains (a b : Assembler) : Prop where
  texts : ∀ s i, a.texts.get? s = some i → b.texts.get? s = some i
  classes : ∀ s i, a.classes.get? s = some i → b.classes.get? s = some i

theorem Retains.refl (a : Assembler) : Retains a a := ⟨fun _ _ h => h, fun _ _ h => h⟩

theorem Retains.trans {a b c : Assembler} (h : Retains a b) (h' : Retains b c) : Retains a c :=
  ⟨fun s i hs => h'.texts s i (h.texts s i hs), fun s i hs => h'.classes s i (h.classes s i hs)⟩

/-- Constants are added, and nothing else is changed. -/
structure Grows (a b : Assembler) : Prop where
  pool : a.pool <+: b.pool
  retains : Retains a b
  rest : b = { a with pool := b.pool, texts := b.texts, classes := b.classes }

theorem Grows.refl (a : Assembler) : Grows a a := ⟨List.prefix_rfl, Retains.refl a, rfl⟩

theorem Grows.trans {a b c : Assembler} (h : Grows a b) (h' : Grows b c) : Grows a c where
  pool := h.pool.trans h'.pool
  retains := h.retains.trans h'.retains
  rest := by
    rw [h'.rest, h.rest]

/-- The pool of an assembler holds the given constants, and the places that it remembers lead to
what they are remembered for. -/
structure Linked (a : Assembler) (es : List Constant) : Prop where
  pool : a.pool = es.map RawConstant.of
  fits : ∀ c ∈ es, c.Fits
  texts : ∀ s i, a.texts.get? s = some i → (Pool.of es).text i = .ok s
  classes : ∀ s i, a.classes.get? s = some i → (Pool.of es).className i = .ok s

theorem Linked.length {a : Assembler} {es : List Constant} (h : Linked a es) :
    a.pool.length = es.length := by
  rw [h.pool, List.length_map]

theorem Linked.transfer {a b : Assembler} {es : List Constant} (h : Linked a es)
    (hpool : b.pool = a.pool) (htexts : b.texts = a.texts) (hclasses : b.classes = a.classes) :
    Linked b es where
  pool := hpool.trans h.pool
  fits := h.fits
  texts := by
    rw [htexts]
    exact h.texts
  classes := by
    rw [hclasses]
    exact h.classes

/-- A step that keeps the places linked, if they fit into 16 bits. Its result has the property `Q`,
then and whatever is added later. -/
structure Delivers {α : Type} (act : Assembly α) (Q : Assembler → List Constant → α → Prop) :
    Prop where
  grows : ∀ a, Grows a (act a).2
  linked : ∀ a es, Linked a es → (act a).2.pool.length ≤ 65534 →
    ∃ fs, es <+: fs ∧ Linked (act a).2 fs ∧
      ∀ b gs, Retains (act a).2 b → fs <+: gs → Q b gs (act a).1

section Steps
variable {α β : Type} {act : Assembly α} {f : α → Assembly β}
  {Q Q' : Assembler → List Constant → α → Prop} {R : α → Assembler → List Constant → β → Prop}

theorem bind_run (act : Assembly α) (f : α → Assembly β) (a : Assembler) :
    (act >>= f) a = f (act a).1 (act a).2 := rfl

theorem Delivers.mono (h : Delivers act Q) (hQ : ∀ b gs x, Q b gs x → Q' b gs x) :
    Delivers act Q' where
  grows := h.grows
  linked a es ha hlen := by
    obtain ⟨fs, hfs, hlinked, hq⟩ := h.linked a es ha hlen
    exact ⟨fs, hfs, hlinked, fun b gs hb hgs => hQ b gs _ (hq b gs hb hgs)⟩

theorem delivers_pure (x : α) : Delivers (pure x) fun _ _ y => y = x where
  grows a := Grows.refl a
  linked _ es ha _ := ⟨es, List.prefix_rfl, ha, fun _ _ _ _ => rfl⟩

theorem delivers_bind (h : Delivers act Q) (hf : ∀ x, Delivers (f x) (R x)) :
    Delivers (act >>= f) fun b gs y => ∃ x, Q b gs x ∧ R x b gs y where
  grows a := (h.grows a).trans ((hf (act a).1).grows (act a).2)
  linked a es ha hlen := by
    have hgrows := (hf (act a).1).grows (act a).2
    have hfirst : (act a).2.pool.length ≤ 65534 := Nat.le_trans hgrows.pool.length_le hlen
    obtain ⟨fs, hfs, hlinked, hq⟩ := h.linked a es ha hfirst
    obtain ⟨gs, hgs, hlinked', hr⟩ := (hf (act a).1).linked (act a).2 fs hlinked hlen
    refine ⟨gs, hfs.trans hgs, hlinked', fun b ks hb hks => ⟨(act a).1, ?_, hr b ks hb hks⟩⟩
    exact hq b ks (hgrows.retains.trans hb) (hgs.trans hks)

theorem delivers_constant (c : Constant) (hc : c.Fits) :
    Delivers (constant c.kind c.payload) fun _ gs i => (Pool.of gs).get? i = some c where
  grows _ := ⟨List.prefix_append _ _, ⟨fun _ _ h => h, fun _ _ h => h⟩, rfl⟩
  linked a es ha hlen := by
    have hes : es.length + 1 ≤ 65534 := by
      have := ha.length
      simp only [constant, raw, List.length_append, List.length_singleton] at hlen
      omega
    have hplace : (constant c.kind c.payload a).1 = UInt16.ofNat (es.length + 1) := by
      simp [constant, raw, ha.length]
    refine ⟨es ++ [c], List.prefix_append es [c], ⟨?_, ?_, ?_, ?_⟩, fun b gs _ hgs => ?_⟩
    · simp [constant, raw, ha.pool, RawConstant.of]
    · simpa [or_imp, forall_and] using ⟨ha.fits, hc⟩
    · exact fun s i h => Pool.text_extend (List.prefix_append es [c]) (ha.texts s i h)
    · exact fun s i h => Pool.className_extend (List.prefix_append es [c]) (ha.classes s i h)
    · rw [hplace]
      exact Pool.get?_extend hgs (Pool.get?_last es c hes)

end Steps

theorem text_of_some {a : Assembler} {s : Bytes} {i : UInt16} (h : a.texts.get? s = some i) :
    text s a = (i, a) := by
  simp only [text, bind_run]
  rw [show ((get : Assembly Assembler) a).1.texts.get? s = _ from h]
  rfl

theorem text_of_none {a : Assembler} {s : Bytes} (h : a.texts.get? s = none) :
    let new := constant .utf8 (Constant.payload (.utf8 s)) a
    text s a = (new.1, { new.2 with texts := new.2.texts.set s new.1 }) := by
  simp only [text, bind_run]
  rw [show ((get : Assembly Assembler) a).1.texts.get? s = _ from h]
  rfl

theorem cls_of_some {a : Assembler} {name : Bytes} {i : UInt16} (h : a.classes.get? name = some i) :
    cls name a = (i, a) := by
  simp only [cls, bind_run]
  rw [show ((get : Assembly Assembler) a).1.classes.get? name = _ from h]
  rfl

theorem cls_of_none {a : Assembler} {name : Bytes} (h : a.classes.get? name = none) :
    let new := (do let n ← text name; constant .cls (Bytes.u2 n) : Assembly UInt16) a
    cls name a = (new.1, { new.2 with classes := new.2.classes.set name new.1 }) := by
  simp only [cls, bind_run]
  rw [show ((get : Assembly Assembler) a).1.classes.get? name = _ from h]
  rfl

theorem delivers_text (s : Bytes) (hs : s.length < 2 ^ 16) :
    Delivers (text s) fun b gs i => (Pool.of gs).text i = .ok s ∧ b.texts.get? s = some i where
  grows a := by
    cases h : a.texts.get? s with
    | some i =>
      rw [text_of_some h]
      exact Grows.refl a
    | none =>
      rw [text_of_none h]
      refine ⟨List.prefix_append _ _, ⟨fun t j ht => ?_, fun _ _ hc => hc⟩, rfl⟩
      have hne : s ≠ t := by
        rintro rfl
        rw [h] at ht
        cases ht
      simpa [Table.get?_set, hne, constant, raw] using ht
  linked a es ha hlen := by
    cases h : a.texts.get? s with
    | some i =>
      rw [text_of_some h]
      refine ⟨es, List.prefix_rfl, ha, fun b gs hb hgs => ⟨?_, hb.texts s i h⟩⟩
      exact Pool.text_extend hgs (ha.texts s i h)
    | none =>
      rw [text_of_none h] at hlen ⊢
      obtain ⟨fs, hfs, hlinked, hplace⟩ := (delivers_constant (.utf8 s) hs).linked a es ha hlen
      have hhere := Pool.text_ok_iff.2 (hplace _ fs (Retains.refl _) List.prefix_rfl)
      refine ⟨fs, hfs, ⟨hlinked.pool, hlinked.fits, fun t j ht => ?_, hlinked.classes⟩, ?_⟩
      · rw [Table.get?_set] at ht
        split at ht
        · rename_i heq
          subst heq
          cases ht
          exact hhere
        · exact hlinked.texts t j ht
      · intro b gs hb hgs
        exact ⟨Pool.text_extend hgs hhere, hb.texts s _ (by rw [Table.get?_set, if_pos rfl])⟩

theorem delivers_cls (name : Bytes) (hname : name.length < 2 ^ 16) :
    Delivers (cls name) fun _ gs i => (Pool.of gs).className i = .ok name := by
  have hnew : Delivers (do let n ← text name; constant .cls (Bytes.u2 n))
      fun _ gs i => (Pool.of gs).className i = .ok name := by
    refine (delivers_bind (delivers_text name hname) fun n =>
      delivers_constant (.cls n) trivial).mono fun b gs i h => ?_
    obtain ⟨n, ⟨htext, -⟩, hcls⟩ := h
    exact Pool.className_ok_iff.2 ⟨n, hcls, htext⟩
  constructor
  · intro a
    cases h : a.classes.get? name with
    | some i =>
      rw [cls_of_some h]
      exact Grows.refl a
    | none =>
      rw [cls_of_none h]
      obtain ⟨hpool, hretains, hrest⟩ := hnew.grows a
      refine ⟨hpool, ⟨hretains.texts, fun t j ht => ?_⟩, ?_⟩
      · have hne : name ≠ t := by
          rintro rfl
          rw [h] at ht
          cases ht
        rw [Table.get?_set, if_neg hne]
        exact hretains.classes t j ht
      · dsimp only at hrest ⊢
        rw [hrest]
  · intro a es ha hlen
    cases h : a.classes.get? name with
    | some i =>
      rw [cls_of_some h]
      refine ⟨es, List.prefix_rfl, ha, fun b gs hb hgs => ?_⟩
      exact Pool.className_extend hgs (ha.classes name i h)
    | none =>
      rw [cls_of_none h] at hlen ⊢
      obtain ⟨fs, hfs, hlinked, hplace⟩ := hnew.linked a es ha hlen
      have hhere := hplace _ fs (Retains.refl _) List.prefix_rfl
      refine ⟨fs, hfs, ⟨hlinked.pool, hlinked.fits, hlinked.texts, fun t j ht => ?_⟩, ?_⟩
      · rw [Table.get?_set] at ht
        split at ht
        · rename_i heq
          subst heq
          cases ht
          exact hhere
        · exact hlinked.classes t j ht
      · exact fun b gs _ hgs => Pool.className_extend hgs hhere

theorem delivers_string (s : Bytes) (hs : s.length < 2 ^ 16) :
    Delivers (string s) fun _ gs i => (Pool.of gs).stringValue i = .ok s := by
  refine (delivers_bind (delivers_text s hs) fun j =>
    delivers_constant (.string j) trivial).mono fun b gs i h => ?_
  obtain ⟨j, ⟨htext, -⟩, hstring⟩ := h
  exact Pool.stringValue_of_get? hstring htext

theorem delivers_nameAndType (name descriptor : Bytes) (hn : name.length < 2 ^ 16)
    (hd : descriptor.length < 2 ^ 16) :
    Delivers (nameAndType name descriptor) fun _ gs i =>
      (Pool.of gs).nameAndType i = .ok (name, descriptor) := by
  refine (delivers_bind (delivers_text name hn) fun j =>
    delivers_bind (delivers_text descriptor hd) fun k =>
      delivers_constant (.nameAndType j k) trivial).mono fun b gs i h => ?_
  obtain ⟨j, ⟨hname, -⟩, k, ⟨hdescriptor, -⟩, hpair⟩ := h
  exact Pool.nameAndType_of_get? hpair hname hdescriptor

theorem delivers_ref (kind : RefKind) (className name descriptor : Bytes)
    (hc : className.length < 2 ^ 16) (hn : name.length < 2 ^ 16) (hd : descriptor.length < 2 ^ 16) :
    Delivers (ref kind className name descriptor) fun _ gs i =>
      (Pool.of gs).member i kind.kind =
        .ok { kind := kind.kind, className, name, descriptor } := by
  refine (delivers_bind (delivers_cls className hc) fun j =>
    delivers_bind (delivers_nameAndType name descriptor hn hd) fun k =>
      delivers_constant (.ref kind j k) trivial).mono fun b gs i h => ?_
  obtain ⟨j, hcls, k, hpair, href⟩ := h
  exact Pool.member_of_get? href hcls hpair

def Attribute.Named (texts : Table Bytes UInt16) (attrs : List Attribute) : Prop :=
  ∀ x ∈ attrs, ∃ i, texts.get? x.name = some i

structure Member.Named (texts : Table Bytes UInt16) (m : Member) : Prop where
  name : ∃ i, texts.get? m.name = some i
  descriptor : ∃ i, texts.get? m.descriptor = some i
  attributes : Attribute.Named texts m.attributes
  code : ∀ k, m.code = some k →
    (∃ i, texts.get? (utf8 "Code") = some i) ∧ Attribute.Named texts k.attributes

theorem delivers_internAttributes (attrs : List Attribute)
    (h : ∀ x ∈ attrs, x.name.length < 2 ^ 16) :
    Delivers (internAttributes attrs) fun b _ _ => Attribute.Named b.texts attrs := by
  induction attrs with
  | nil => exact (delivers_pure ()).mono fun b gs _ _ x hx => absurd hx List.not_mem_nil
  | cons x rest ih =>
    refine (delivers_bind (delivers_text x.name (h x List.mem_cons_self)) fun _ =>
      ih fun y hy => h y (List.mem_cons_of_mem x hy)).mono fun b gs _ hq => ?_
    obtain ⟨i, ⟨-, hplace⟩, hrest⟩ := hq
    intro y hy
    rcases List.mem_cons.1 hy with rfl | hy
    · exact ⟨i, hplace⟩
    · exact hrest y hy

structure Member.NamesFit (m : Member) : Prop where
  name : m.name.length < 2 ^ 16
  descriptor : m.descriptor.length < 2 ^ 16
  attributes : ∀ x ∈ m.attributes, x.name.length < 2 ^ 16
  code : ∀ k, m.code = some k → ∀ x ∈ k.attributes, x.name.length < 2 ^ 16

theorem delivers_intern (m : Member) (h : m.NamesFit) :
    Delivers (intern m) fun b _ _ => m.Named b.texts := by
  refine (delivers_bind (delivers_text m.name h.name) fun _ =>
    delivers_bind (delivers_text m.descriptor h.descriptor) fun _ =>
      delivers_bind (delivers_internAttributes m.attributes h.attributes) fun _ =>
        (?code : Delivers _ fun b _ _ => ∀ k, m.code = some k →
          (∃ i, b.texts.get? (utf8 "Code") = some i) ∧
            Attribute.Named b.texts k.attributes)).mono fun b gs _ hq => ?named
  case code =>
    cases hk : m.code with
    | none => exact (delivers_pure ()).mono fun b gs _ _ k hk => by cases hk
    | some k =>
      refine (delivers_bind (delivers_text (utf8 "Code") (by decide)) fun _ =>
        delivers_internAttributes k.attributes (h.code k hk)).mono fun b gs _ hq k' hk' => ?_
      obtain ⟨i, ⟨-, hplace⟩, hrest⟩ := hq
      cases hk'
      exact ⟨⟨i, hplace⟩, hrest⟩
  case named =>
    obtain ⟨i, ⟨-, hname⟩, j, ⟨-, hdescriptor⟩, _, hattributes, hcode⟩ := hq
    exact ⟨⟨i, hname⟩, ⟨j, hdescriptor⟩, hattributes, hcode⟩

theorem Member.Named.of_retains {a b : Assembler} {m : Member} (h : m.Named a.texts)
    (hb : Retains a b) : m.Named b.texts := by
  have hplace {s : Bytes} (hs : ∃ i, a.texts.get? s = some i) : ∃ i, b.texts.get? s = some i := by
    obtain ⟨i, hi⟩ := hs
    exact ⟨i, hb.texts s i hi⟩
  refine ⟨hplace h.name, hplace h.descriptor, fun x hx => hplace (h.attributes x hx), ?_⟩
  intro k hk
  obtain ⟨hcode, hattributes⟩ := h.code k hk
  exact ⟨hplace hcode, fun x hx => hplace (hattributes x hx)⟩

/-! Scripts. -/

inductive Operation
  | text (s : Bytes)
  | cls (name : Bytes)
  | string (s : Bytes)
  | nameAndType (name descriptor : Bytes)
  | ref (kind : RefKind) (className name descriptor : Bytes)
  | raw (tag : UInt8) (payload : Bytes)
  | interface (name : Bytes)
  | field (m : Member)
  | method (m : Member)
  | classAttribute (x : Attribute)
  | trailing (b : Bytes)
  | codeAttribute (k : Code)

structure Outline where
  interfaces : List Bytes := []
  fields : List Member := []
  methods : List Member := []
  attributes : List Attribute := []
  trailing : Bytes := []

namespace Operation

/-- Does the operation; one that adds a constant gives its place. -/
def act : Operation → Assembly (Option UInt16)
  | .text s => some <$> Assembler.text s
  | .cls name => some <$> Assembler.cls name
  | .string s => some <$> Assembler.string s
  | .nameAndType name descriptor => some <$> Assembler.nameAndType name descriptor
  | .ref kind className name descriptor => some <$> Assembler.ref kind className name descriptor
  | .raw tag payload => some <$> Assembler.raw tag payload
  | .interface name => (fun _ => none) <$> Assembler.interface name
  | .field m => (fun _ => none) <$> Assembler.field m
  | .method m => (fun _ => none) <$> Assembler.method m
  | .classAttribute x => (fun _ => none) <$> addAttribute x
  | .trailing b => (fun _ => none) <$> addTrailing b
  | .codeAttribute k => (fun _ => none) <$> Assembler.codeAttribute k

def perform (a : Assembler) (op : Operation) : Assembler := (op.act a).2

def Denotes (pool : Pool) (i : UInt16) : Operation → Prop
  | .text s => pool.text i = .ok s
  | .cls name => pool.className i = .ok name
  | .string s => pool.stringValue i = .ok s
  | .nameAndType name descriptor => pool.nameAndType i = .ok (name, descriptor)
  | .ref kind className name descriptor =>
    pool.member i kind.kind = .ok { kind := kind.kind, className, name, descriptor }
  | .raw tag payload => ∃ c, pool.get? i = some c ∧ RawConstant.of c = ⟨tag, payload⟩
  | _ => True

def outline (o : Outline) : Operation → Outline
  | .interface name => { o with interfaces := o.interfaces ++ [name] }
  | .field m => { o with fields := o.fields ++ [m] }
  | .method m => { o with methods := o.methods ++ [m] }
  | .classAttribute x => { o with attributes := o.attributes ++ [x] }
  | .trailing b => { o with trailing := o.trailing ++ b }
  | _ => o

/-- Texts fit their fields, and a constant that is given as bytes is one of the seven kinds. -/
def NamesFit : Operation → Prop
  | .text s | .cls s | .string s | .interface s => s.length < 2 ^ 16
  | .nameAndType name descriptor => name.length < 2 ^ 16 ∧ descriptor.length < 2 ^ 16
  | .ref _ className name descriptor =>
    className.length < 2 ^ 16 ∧ name.length < 2 ^ 16 ∧ descriptor.length < 2 ^ 16
  | .raw tag payload => ∃ c : Constant, c.Fits ∧ tag = c.kind.tag ∧ payload = c.payload
  | .field m | .method m => m.NamesFit
  | .classAttribute x => x.name.length < 2 ^ 16
  | .trailing _ => True
  | .codeAttribute k => ∀ x ∈ k.attributes, x.name.length < 2 ^ 16

end Operation

def assemble (name : Bytes) (script : List Operation) : Assembler :=
  script.foldl Operation.perform (start name)

def places (a : Assembler) : List Operation → List (Operation × UInt16)
  | [] => []
  | op :: script => ((op.act a).1.map (op, ·)).toList ++ places (op.perform a) script

def outline (script : List Operation) : Outline := script.foldl Operation.outline {}

structure Assembled (name : Bytes) (o : Outline) (a : Assembler) (es : List Constant) : Prop where
  linked : Linked a es
  magic : a.magic = ClassFile.magic
  this : (Pool.of es).className a.thisClass = .ok name
  super : (Pool.of es).className a.superClass = .ok objectName
  interfaces : List.Forall₂ (fun i n => (Pool.of es).className i = .ok n) a.interfaces o.interfaces
  fields : a.fields = o.fields ∧ ∀ m ∈ o.fields, m.Named a.texts
  methods : a.methods = o.methods ∧ ∀ m ∈ o.methods, m.Named a.texts
  attributes : a.attributes = o.attributes ∧ Attribute.Named a.texts o.attributes
  trailing : a.trailing = o.trailing

section Script
variable {α : Type} {name : Bytes} {o : Outline} {a : Assembler} {es : List Constant}
  {act : Assembly α} {Q : Assembler → List Constant → α → Prop}

/-- A step that only adds constants keeps what was given before. -/
theorem Assembled.after (h : Assembled name o a es) (hact : Delivers act Q)
    (hlen : (act a).2.pool.length ≤ 65534) :
    ∃ fs, es <+: fs ∧ Assembled name o (act a).2 fs ∧
      ∀ gs, fs <+: gs → Q (act a).2 gs (act a).1 := by
  obtain ⟨fs, hfs, hlinked, hq⟩ := hact.linked a es h.linked hlen
  have hgrows := hact.grows a
  have hrest := hgrows.rest
  refine ⟨fs, hfs, ⟨hlinked, ?_, ?_, ?_, ?_, ?_, ?_, ?_, ?_⟩, fun gs => hq _ gs (Retains.refl _)⟩
  · rw [hrest]
    exact h.magic
  · rw [hrest]
    exact Pool.className_extend hfs h.this
  · rw [hrest]
    exact Pool.className_extend hfs h.super
  · rw [hrest]
    exact h.interfaces.imp fun i n hi => Pool.className_extend hfs hi
  · refine ⟨?_, fun m hm => (h.fields.2 m hm).of_retains hgrows.retains⟩
    rw [hrest]
    exact h.fields.1
  · refine ⟨?_, fun m hm => (h.methods.2 m hm).of_retains hgrows.retains⟩
    rw [hrest]
    exact h.methods.1
  · refine ⟨?_, fun x hx => ?_⟩
    · rw [hrest]
      exact h.attributes.1
    · obtain ⟨i, hi⟩ := h.attributes.2 x hx
      exact ⟨i, hgrows.retains.texts _ i hi⟩
  · rw [hrest]
    exact h.trailing

theorem forall_mem_snoc {P : α → Prop} {l : List α} {x : α} (hl : ∀ y ∈ l, P y) (hx : P x) :
    ∀ y ∈ l ++ [x], P y := by
  intro y hy
  rcases List.mem_append.1 hy with hy | hy
  · exact hl y hy
  · rw [List.mem_singleton.1 hy]
    exact hx

theorem perform_interface (n : Bytes) (a : Assembler) : Operation.perform a (.interface n) =
    { (cls n a).2 with interfaces := (cls n a).2.interfaces ++ [(cls n a).1] } := rfl

theorem perform_field (m : Member) (a : Assembler) : Operation.perform a (.field m) =
    { (intern m a).2 with fields := (intern m a).2.fields ++ [m] } := rfl

theorem perform_method (m : Member) (a : Assembler) : Operation.perform a (.method m) =
    { (intern m a).2 with methods := (intern m a).2.methods ++ [m] } := rfl

theorem perform_classAttribute (x : Attribute) (a : Assembler) :
    Operation.perform a (.classAttribute x) =
      { (text x.name a).2 with attributes := (text x.name a).2.attributes ++ [x] } := rfl

/-- The place that an operation gave denotes what it was given, then and whatever is added. -/
def Kept (op : Operation) (a : Assembler) (es : List Constant) : Prop :=
  ∀ i, (op.act a).1 = some i → ∀ gs, es <+: gs → op.Denotes (Pool.of gs) i

theorem perform_assembled (op : Operation) (hop : op.NamesFit) (h : Assembled name o a es)
    (hlen : (op.perform a).pool.length ≤ 65534) :
    ∃ fs, es <+: fs ∧ Assembled name (op.outline o) (op.perform a) fs ∧ Kept op a fs := by
  cases op with
  | text s =>
    obtain ⟨fs, hpre, hfs, hq⟩ := h.after (delivers_text s hop) hlen
    refine ⟨fs, hpre, hfs, ?_⟩
    rintro _ ⟨⟩ gs hgs
    exact (hq gs hgs).1
  | cls c =>
    obtain ⟨fs, hpre, hfs, hq⟩ := h.after (delivers_cls c hop) hlen
    refine ⟨fs, hpre, hfs, ?_⟩
    rintro _ ⟨⟩
    exact hq
  | string s =>
    obtain ⟨fs, hpre, hfs, hq⟩ := h.after (delivers_string s hop) hlen
    refine ⟨fs, hpre, hfs, ?_⟩
    rintro _ ⟨⟩
    exact hq
  | nameAndType n d =>
    obtain ⟨fs, hpre, hfs, hq⟩ := h.after (delivers_nameAndType n d hop.1 hop.2) hlen
    refine ⟨fs, hpre, hfs, ?_⟩
    rintro _ ⟨⟩
    exact hq
  | ref kind c n d =>
    obtain ⟨fs, hpre, hfs, hq⟩ := h.after (delivers_ref kind c n d hop.1 hop.2.1 hop.2.2) hlen
    refine ⟨fs, hpre, hfs, ?_⟩
    rintro _ ⟨⟩
    exact hq
  | raw tag payload =>
    obtain ⟨c, hc, rfl, rfl⟩ := hop
    obtain ⟨fs, hpre, hfs, hq⟩ := h.after (delivers_constant c hc) hlen
    refine ⟨fs, hpre, hfs, ?_⟩
    rintro _ ⟨⟩ gs hgs
    exact ⟨c, hq gs hgs, rfl⟩
  | codeAttribute k =>
    obtain ⟨fs, hpre, hfs, -⟩ := h.after (delivers_internAttributes k.attributes hop) hlen
    exact ⟨fs, hpre, hfs, nofun⟩
  | trailing b =>
    refine ⟨es, List.prefix_rfl, ?_, nofun⟩
    exact { h with
      linked := h.linked.transfer rfl rfl rfl
      trailing := congrArg (· ++ b) h.trailing }
  | interface n =>
    rw [perform_interface] at hlen ⊢
    obtain ⟨fs, hpre, hfs, hq⟩ := h.after (delivers_cls n hop) hlen
    refine ⟨fs, hpre, ?_, nofun⟩
    exact { hfs with
      linked := hfs.linked.transfer rfl rfl rfl
      interfaces := List.rel_append hfs.interfaces (.cons (hq fs List.prefix_rfl) .nil) }
  | field m =>
    rw [perform_field] at hlen ⊢
    obtain ⟨fs, hpre, hfs, hq⟩ := h.after (delivers_intern m hop) hlen
    refine ⟨fs, hpre, ?_, nofun⟩
    exact { hfs with
      linked := hfs.linked.transfer rfl rfl rfl
      fields := ⟨congrArg (· ++ [m]) hfs.fields.1,
        forall_mem_snoc hfs.fields.2 (hq fs List.prefix_rfl)⟩ }
  | method m =>
    rw [perform_method] at hlen ⊢
    obtain ⟨fs, hpre, hfs, hq⟩ := h.after (delivers_intern m hop) hlen
    refine ⟨fs, hpre, ?_, nofun⟩
    exact { hfs with
      linked := hfs.linked.transfer rfl rfl rfl
      methods := ⟨congrArg (· ++ [m]) hfs.methods.1,
        forall_mem_snoc hfs.methods.2 (hq fs List.prefix_rfl)⟩ }
  | classAttribute x =>
    rw [perform_classAttribute] at hlen ⊢
    obtain ⟨fs, hpre, hfs, hq⟩ := h.after (delivers_text x.name hop) hlen
    refine ⟨fs, hpre, ?_, nofun⟩
    exact { hfs with
      linked := hfs.linked.transfer rfl rfl rfl
      attributes := ⟨congrArg (· ++ [x]) hfs.attributes.1,
        forall_mem_snoc hfs.attributes.2 ⟨_, (hq fs List.prefix_rfl).2⟩⟩ }

theorem perform_extends (op : Operation) (hop : op.NamesFit) (a : Assembler) :
    a.pool <+: (op.perform a).pool ∧ Retains a (op.perform a) := by
  have hgrows {b : Assembler} (h : Grows a b) : a.pool <+: b.pool ∧ Retains a b :=
    ⟨h.pool, h.retains⟩
  cases op with
  | text s => exact hgrows ((delivers_text s hop).grows a)
  | cls c => exact hgrows ((delivers_cls c hop).grows a)
  | string s => exact hgrows ((delivers_string s hop).grows a)
  | nameAndType n d => exact hgrows ((delivers_nameAndType n d hop.1 hop.2).grows a)
  | ref kind c n d => exact hgrows ((delivers_ref kind c n d hop.1 hop.2.1 hop.2.2).grows a)
  | raw tag payload => exact ⟨List.prefix_append a.pool _, ⟨fun _ _ h => h, fun _ _ h => h⟩⟩
  | codeAttribute k => exact hgrows ((delivers_internAttributes k.attributes hop).grows a)
  | trailing b => exact ⟨List.prefix_rfl, ⟨fun _ _ h => h, fun _ _ h => h⟩⟩
  | interface n =>
    obtain ⟨hpool, htexts, hclasses⟩ := hgrows ((delivers_cls n hop).grows a)
    exact ⟨hpool, htexts, hclasses⟩
  | field m =>
    obtain ⟨hpool, htexts, hclasses⟩ := hgrows ((delivers_intern m hop).grows a)
    exact ⟨hpool, htexts, hclasses⟩
  | method m =>
    obtain ⟨hpool, htexts, hclasses⟩ := hgrows ((delivers_intern m hop).grows a)
    exact ⟨hpool, htexts, hclasses⟩
  | classAttribute x =>
    obtain ⟨hpool, htexts, hclasses⟩ := hgrows ((delivers_text x.name hop).grows a)
    exact ⟨hpool, htexts, hclasses⟩

theorem perform_pool (op : Operation) (hop : op.NamesFit) (a : Assembler) :
    a.pool <+: (op.perform a).pool := (perform_extends op hop a).1

theorem script_pool (script : List Operation) (hscript : ∀ op ∈ script, op.NamesFit)
    (a : Assembler) : a.pool <+: (script.foldl Operation.perform a).pool := by
  induction script generalizing a with
  | nil => exact List.prefix_rfl
  | cons op script ih =>
    have hrest := fun x hx => hscript x (List.mem_cons_of_mem op hx)
    exact (perform_pool op (hscript op List.mem_cons_self) a).trans (ih hrest (op.perform a))

/-- The places are linked after a script if its constants fit into the pool. -/
theorem script_assembled (script : List Operation) (hscript : ∀ op ∈ script, op.NamesFit)
    (h : Assembled name o a es)
    (hlen : (script.foldl Operation.perform a).pool.length ≤ 65534) :
    ∃ fs, es <+: fs ∧
      Assembled name (script.foldl Operation.outline o) (script.foldl Operation.perform a) fs ∧
      ∀ x ∈ places a script, x.1.Denotes (Pool.of fs) x.2 := by
  induction script generalizing o a es with
  | nil => exact ⟨es, List.prefix_rfl, h, nofun⟩
  | cons op script ih =>
    have hrest := fun x hx => hscript x (List.mem_cons_of_mem op hx)
    have hop := hscript op List.mem_cons_self
    have hstep : (op.perform a).pool.length ≤ 65534 :=
      Nat.le_trans (script_pool script hrest (op.perform a)).length_le hlen
    obtain ⟨fs, hfs, hassembled, hkept⟩ := perform_assembled op hop h hstep
    obtain ⟨gs, hgs, hfinal, hplaces⟩ := ih hrest hassembled hlen
    refine ⟨gs, hfs.trans hgs, hfinal, fun x hx => ?_⟩
    rcases List.mem_append.1 hx with hx | hx
    · obtain ⟨i, hi, rfl⟩ := Option.map_eq_some_iff.1 (Option.mem_toList.1 hx)
      exact hkept i hi gs hgs
    · exact hplaces x hx

theorem start_assembled (hname : name.length < 2 ^ 16) (hlen : (start name).pool.length ≤ 65534) :
    ∃ es, Assembled name {} (start name) es := by
  let act : Assembly (UInt16 × UInt16) := do
    let this ← cls name
    let super ← cls objectName
    return (this, super)
  have hact : Delivers act fun _ gs r => (Pool.of gs).className r.1 = .ok name ∧
      (Pool.of gs).className r.2 = .ok objectName := by
    refine (delivers_bind (delivers_cls name hname) fun this =>
      delivers_bind (delivers_cls objectName (by decide)) fun super =>
        delivers_pure (this, super)).mono fun b gs r h => ?_
    obtain ⟨this, hthis, super, hsuper, rfl⟩ := h
    exact ⟨hthis, hsuper⟩
  have hempty : Linked {} [] := by
    refine ⟨rfl, fun c hc => absurd hc List.not_mem_nil, fun s i h => ?_, fun s i h => ?_⟩
    · cases h
    · cases h
  obtain ⟨fs, -, hlinked, hq⟩ := hact.linked {} [] hempty hlen
  have hrest := (hact.grows {}).rest
  obtain ⟨hthis, hsuper⟩ := hq _ fs (Retains.refl _) List.prefix_rfl
  have hinterfaces : (start name).interfaces = [] := congrArg Assembler.interfaces hrest
  refine ⟨fs, ?_⟩
  exact
    { linked := hlinked.transfer rfl rfl rfl
      magic := congrArg Assembler.magic hrest
      this := hthis
      super := hsuper
      interfaces := by
        rw [hinterfaces]
        exact .nil
      fields := ⟨congrArg Assembler.fields hrest, fun m hm => absurd hm List.not_mem_nil⟩
      methods := ⟨congrArg Assembler.methods hrest, fun m hm => absurd hm List.not_mem_nil⟩
      attributes := ⟨congrArg Assembler.attributes hrest, fun x hx => absurd hx List.not_mem_nil⟩
      trailing := congrArg Assembler.trailing hrest }

theorem assemble_assembled (name : Bytes) (script : List Operation) (hname : name.length < 2 ^ 16)
    (hscript : ∀ op ∈ script, op.NamesFit) (hlen : (assemble name script).pool.length ≤ 65534) :
    ∃ es, Assembled name (outline script) (assemble name script) es ∧
      ∀ x ∈ places (start name) script, x.1.Denotes (Pool.of es) x.2 := by
  have hpool := (script_pool script hscript (start name)).length_le
  obtain ⟨es, hes⟩ := start_assembled hname (Nat.le_trans hpool hlen)
  obtain ⟨fs, -, hfs, hplaces⟩ := script_assembled script hscript hes hlen
  exact ⟨fs, hfs, hplaces⟩

end Script

end Assembler

end ClassMachine
