import ClassMachine.Proofs.ClassFile.Grammar

/-! Following the links of a member reference. There are six of them, followed in a fixed order, and
nothing keeps one from leading nowhere, to an entry of another kind or back to where it came from.
A reference resolves exactly if all of them hold (`WellLinked`), and otherwise the first that does
not is reported (`FirstBroken`). Main statement: `member_follows_links`. -/
namespace ClassMachine
open ClassFile (Error)

/-! The kinds tell the entries of a pool apart. -/

namespace Constant
variable {c : Constant}

theorem eq_utf8_of_kind (h : c.kind = .utf8) : ∃ b, c = .utf8 b := by
  cases c with
  | utf8 b => exact ⟨b, rfl⟩
  | ref k i j => cases k <;> cases h
  | _ => cases h

theorem eq_cls_of_kind (h : c.kind = .cls) : ∃ i, c = .cls i := by
  cases c with
  | cls i => exact ⟨i, rfl⟩
  | ref k i j => cases k <;> cases h
  | _ => cases h

theorem eq_nameAndType_of_kind (h : c.kind = .nameAndType) : ∃ i j, c = .nameAndType i j := by
  cases c with
  | nameAndType i j => exact ⟨i, j, rfl⟩
  | ref k i j => cases k <;> cases h
  | _ => cases h

theorem kind_ne_none (c : Constant) : c.kind ≠ .none := by
  cases c with
  | utf8 => exact (by decide : Kind.utf8 ≠ .none)
  | cls => exact (by decide : Kind.cls ≠ .none)
  | string => exact (by decide : Kind.string ≠ .none)
  | nameAndType => exact (by decide : Kind.nameAndType ≠ .none)
  | ref k =>
    have hk : k.kind ≠ .none := by cases k <;> decide
    exact hk

theorem eq_ref_of_kind {k : RefKind} (h : c.kind = k.kind) : ∃ i j, c = .ref k i j := by
  cases c with
  | ref k' i j =>
    obtain rfl : k' = k := by
      revert h
      cases k' <;> cases k <;> simp only [kind, RefKind.kind] <;> decide
    exact ⟨i, j, rfl⟩
  | _ => cases k <;> cases h

/-! An entry holds something to look up only if it is of the kind for that. -/

theorem kind_of_utf8? {b : Bytes} (h : c.utf8? = some b) : c.kind = .utf8 := by
  cases c with
  | utf8 => rfl
  | _ => cases h

theorem kind_of_cls? {i : UInt16} (h : c.cls? = some i) : c.kind = .cls := by
  cases c with
  | cls => rfl
  | _ => cases h

theorem kind_of_string? {i : UInt16} (h : c.string? = some i) : c.kind = .string := by
  cases c with
  | string => rfl
  | _ => cases h

theorem kind_of_nameAndType? {pair : UInt16 × UInt16} (h : c.nameAndType? = some pair) :
    c.kind = .nameAndType := by
  cases c with
  | nameAndType => rfl
  | _ => cases h

end Constant

namespace Pool

inductive Hop
  | reference
  | cls
  | className
  | nameAndType
  | name
  | descriptor
deriving DecidableEq

namespace Hop

def order : List Hop := [reference, cls, className, nameAndType, name, descriptor]

def earlier (hop : Hop) : List Hop := order.takeWhile (· ≠ hop)

def expected (kind : Kind) : Hop → Kind
  | reference => kind
  | cls => .cls
  | nameAndType => .nameAndType
  | className | name | descriptor => .utf8

def index? : Hop → Constant → Option UInt16
  | cls, .ref _ owner _ => some owner
  | className, .cls i => some i
  | nameAndType, .ref _ _ pair => some pair
  | name, .nameAndType i _ => some i
  | descriptor, .nameAndType _ i => some i
  | _, _ => none

/-- The steps that are named when a link does not hold, the outermost first. -/
def steps (kind : Kind) : Hop → List String
  | reference => []
  | cls => [s!"{kind.name} class"]
  | className => [s!"{kind.name} class", "class name"]
  | nameAndType => [s!"{kind.name} name and type"]
  | name => [s!"{kind.name} name and type", "member name"]
  | descriptor => [s!"{kind.name} name and type", "member descriptor"]

def error (kind : Kind) (hop : Hop) (index : UInt16) (actual : Kind) : Error :=
  (hop.steps kind).foldr (.during .resolving) (.unresolved index (hop.expected kind) actual)

end Hop

def next (p : Pool) (hop : Hop) (i : UInt16) : Option UInt16 := (p.get? i).bind hop.index?

/-- Where the links of the reference at an index lead, as far as there are entries to start from. -/
def link (p : Pool) (index : UInt16) : Hop → Option UInt16
  | .reference => some index
  | .cls => p.next .cls index
  | .className => (p.next .cls index).bind (p.next .className)
  | .nameAndType => p.next .nameAndType index
  | .name => (p.next .nameAndType index).bind (p.next .name)
  | .descriptor => (p.next .nameAndType index).bind (p.next .descriptor)

/-- The link leads to an entry of the kind that is expected there. Only three kinds can be expected
of the reference itself. -/
def Holds (p : Pool) (index : UInt16) (kind : Kind) (hop : Hop) : Prop :=
  (hop = .reference → ∃ k : RefKind, k.kind = kind) ∧
    ∃ i, p.link index hop = some i ∧ p.kindAt i = hop.expected kind

structure FirstBroken (p : Pool) (index : UInt16) (kind : Kind) (hop : Hop) (i : UInt16) :
    Prop where
  earlier : ∀ h ∈ hop.earlier, p.Holds index kind h
  link : p.link index hop = some i
  broken : ¬ p.Holds index kind hop

/-- The reference is of the kind, and its links lead to the three texts of the member. -/
def WellLinked (p : Pool) (index : UInt16) (kind : Kind) (m : MemberRef) : Prop :=
  ∃ (k : RefKind) (owner ownerName pair name descriptor : UInt16),
    k.kind = kind ∧ p.get? index = some (.ref k owner pair) ∧
    p.get? owner = some (.cls ownerName) ∧ p.get? ownerName = some (.utf8 m.className) ∧
    p.get? pair = some (.nameAndType name descriptor) ∧
    p.get? name = some (.utf8 m.name) ∧ p.get? descriptor = some (.utf8 m.descriptor) ∧
    m.kind = kind

def visited (p : Pool) (index : UInt16) : List UInt16 := Hop.order.filterMap (p.link index)

section Lookup
variable {p : Pool} {i : UInt16} {s : Bytes} {kind : Kind}

@[simp]
theorem resolving_ok {α : Type} (part : String) (a : α) :
    LookUp.resolving part (.ok a : Except Error α) = .ok a := rfl

@[simp]
theorem resolving_error {α : Type} (part : String) (e : Error) :
    LookUp.resolving part (.error e : Except Error α) = .error (.during .resolving part e) := rfl

theorem resolving_ok_iff {α : Type} {part : String} {x : Except Error α} {a : α} :
    LookUp.resolving part x = .ok a ↔ x = .ok a := by
  cases x <;> simp

theorem fetch_of_some {α : Type} {content : Constant → Option α} {a : α}
    (h : (p.get? i).bind content = some a) :
    (LookUp.fetch p i kind content : Except Error α) = .ok a := by
  simp only [LookUp.fetch, h]

theorem fetch_of_none {α : Type} {content : Constant → Option α}
    (h : (p.get? i).bind content = none) :
    (LookUp.fetch p i kind content : Except Error α) = .error (p.unresolved i kind) := by
  simp only [LookUp.fetch, h]

theorem text_ok_iff : p.text i = .ok s ↔ p.get? i = some (.utf8 s) := by
  simp only [LookUp.text, LookUp.fetch]
  cases p.get? i with
  | none => simp
  | some c => cases c <;> simp [Constant.utf8?]

theorem className_ok_iff : p.className i = .ok s ↔
    ∃ j, p.get? i = some (.cls j) ∧ p.text j = .ok s := by
  simp only [LookUp.className, LookUp.fetch]
  cases p.get? i with
  | none => simp [bind, Except.bind]
  | some c => cases c <;> simp [Constant.cls?, bind, Except.bind, resolving_ok_iff]

theorem stringValue_of_get? {j : UInt16} (hi : p.get? i = some (.string j))
    (hj : p.text j = .ok s) : p.stringValue i = .ok s := by
  have hfetch : (LookUp.fetch p i .string Constant.string? : Except Error UInt16) = .ok j :=
    fetch_of_some (by rw [hi]; rfl)
  simp only [LookUp.stringValue, hfetch, bind, Except.bind, hj, resolving_ok]

theorem fetch_nameAndType {j k : UInt16} (hi : p.get? i = some (.nameAndType j k)) :
    (LookUp.fetch p i .nameAndType Constant.nameAndType? : Except Error (UInt16 × UInt16)) =
      .ok (j, k) := fetch_of_some (by rw [hi]; rfl)

theorem nameAndType_of_get? {j k : UInt16} {d : Bytes} (hi : p.get? i = some (.nameAndType j k))
    (hj : p.text j = .ok s) (hk : p.text k = .ok d) : p.nameAndType i = .ok (s, d) := by
  simp only [LookUp.nameAndType, fetch_nameAndType hi, bind, Except.bind, hj, hk, resolving_ok]
  rfl

theorem fetch_ref {j k : UInt16} {kind : RefKind} (hi : p.get? i = some (.ref kind j k)) :
    (LookUp.fetch p i kind.kind (Constant.ref? kind.kind) : Except Error (UInt16 × UInt16)) =
      .ok (j, k) := fetch_of_some (by simp [hi, Constant.ref?])

theorem member_of_get? {j k : UInt16} {kind : RefKind} {c n d : Bytes}
    (hi : p.get? i = some (.ref kind j k)) (hj : p.className j = .ok c)
    (hk : p.nameAndType k = .ok (n, d)) :
    p.member i kind.kind =
      .ok { kind := kind.kind, className := c, name := n, descriptor := d } := by
  simp only [LookUp.member, fetch_ref hi, bind, Except.bind, hj, hk, resolving_ok]
  rfl

theorem kindAt_of_get? {c : Constant} (h : p.get? i = some c) : p.kindAt i = c.kind := by
  rw [kindAt, h]

theorem exists_of_kindAt (hkind : kind ≠ .none) (h : p.kindAt i = kind) :
    ∃ c, p.get? i = some c ∧ c.kind = kind := by
  rw [kindAt] at h
  cases hget : p.get? i with
  | none =>
    rw [hget] at h
    exact absurd h.symm hkind
  | some c =>
    rw [hget] at h
    exact ⟨c, rfl, h⟩

theorem kindAt_eq_none_iff : p.kindAt i = .none ↔ p.get? i = none := by
  rw [kindAt]
  cases p.get? i with
  | none => exact iff_of_true rfl rfl
  | some c => exact iff_of_false c.kind_ne_none (Option.some_ne_none c)

theorem fetch_of_kindAt_ne {α : Type} {content : Constant → Option α}
    (hcontent : ∀ {c a}, content c = some a → c.kind = kind) (h : p.kindAt i ≠ kind) :
    (LookUp.fetch p i kind content : Except Error α) = .error (p.unresolved i kind) := by
  refine fetch_of_none (Option.bind_eq_none_iff.2 fun c hget => ?_)
  refine Option.eq_none_iff_forall_ne_some.2 fun a ha => h ?_
  rw [kindAt_of_get? hget, hcontent ha]

theorem text_of_kindAt_ne (h : p.kindAt i ≠ .utf8) : p.text i = .error (p.unresolved i .utf8) :=
  fetch_of_kindAt_ne Constant.kind_of_utf8? h

theorem className_of_kindAt_ne (h : p.kindAt i ≠ .cls) :
    p.className i = .error (p.unresolved i .cls) := by
  rw [className, LookUp.className, fetch_of_kindAt_ne Constant.kind_of_cls? h]
  rfl

theorem stringValue_of_kindAt_ne (h : p.kindAt i ≠ .string) :
    p.stringValue i = .error (p.unresolved i .string) := by
  rw [stringValue, LookUp.stringValue, fetch_of_kindAt_ne Constant.kind_of_string? h]
  rfl

theorem nameAndType_of_kindAt_ne (h : p.kindAt i ≠ .nameAndType) :
    p.nameAndType i = .error (p.unresolved i .nameAndType) := by
  rw [nameAndType, LookUp.nameAndType, fetch_of_kindAt_ne Constant.kind_of_nameAndType? h]
  rfl

end Lookup

section Links
variable {p q : Pool} {index i j owner pair : UInt16} {kind : Kind} {k : RefKind} {hop hop' : Hop}
  {m : MemberRef} {e : Error} {s : Bytes}

theorem holds_iff (hhop : hop ≠ .reference) (hlink : p.link index hop = some i) :
    p.Holds index kind hop ↔ p.kindAt i = hop.expected kind := by
  constructor
  · rintro ⟨-, j, hj, hkind⟩
    rw [hlink] at hj
    cases hj
    exact hkind
  · exact fun h => ⟨fun hr => absurd hr hhop, i, hlink, h⟩

theorem holds_reference_iff : p.Holds index kind .reference ↔
    ∃ (k : RefKind) (owner pair : UInt16),
      k.kind = kind ∧ p.get? index = some (.ref k owner pair) := by
  constructor
  · rintro ⟨hkind, i, hlink, hat⟩
    obtain ⟨k, rfl⟩ := hkind rfl
    cases hlink
    obtain ⟨c, hc, hk⟩ := exists_of_kindAt (by cases k <;> decide) hat
    obtain ⟨owner, pair, rfl⟩ := Constant.eq_ref_of_kind hk
    exact ⟨k, owner, pair, rfl, hc⟩
  · rintro ⟨k, owner, pair, rfl, hget⟩
    exact ⟨fun _ => ⟨k, rfl⟩, index, rfl, kindAt_of_get? hget⟩

theorem exists_utf8 (h : p.kindAt i = .utf8) : ∃ b, p.get? i = some (.utf8 b) := by
  obtain ⟨c, hc, hkind⟩ := exists_of_kindAt (by decide) h
  obtain ⟨b, rfl⟩ := Constant.eq_utf8_of_kind hkind
  exact ⟨b, hc⟩

/-! Where the links lead, by the entries they start from. -/

theorem link_cls (href : p.get? index = some (.ref k owner pair)) :
    p.link index .cls = some owner := by
  simp [link, next, href, Hop.index?]

theorem link_className (href : p.get? index = some (.ref k owner pair))
    (howner : p.get? owner = some (.cls i)) : p.link index .className = some i := by
  simp [link, next, href, howner, Hop.index?]

theorem link_nameAndType (href : p.get? index = some (.ref k owner pair)) :
    p.link index .nameAndType = some pair := by
  simp [link, next, href, Hop.index?]

theorem link_name (href : p.get? index = some (.ref k owner pair))
    (hpair : p.get? pair = some (.nameAndType i j)) : p.link index .name = some i := by
  simp [link, next, href, hpair, Hop.index?]

theorem link_descriptor (href : p.get? index = some (.ref k owner pair))
    (hpair : p.get? pair = some (.nameAndType i j)) : p.link index .descriptor = some j := by
  simp [link, next, href, hpair, Hop.index?]

/-! The links in order. -/

theorem member_of_not_reference (h : ¬ p.Holds index kind .reference) :
    p.member index kind = .error (.unresolved index kind (p.kindAt index)) := by
  have hnone : (p.get? index).bind (Constant.ref? kind) = none := by
    refine Option.bind_eq_none_iff.2 fun c hget => ?_
    cases c with
    | ref k owner pair =>
      refine if_neg fun hkind => h ?_
      exact holds_reference_iff.2 ⟨k, owner, pair, hkind, hget⟩
    | _ => rfl
  rw [member, LookUp.member, fetch_of_none hnone]
  rfl

theorem member_of_className_error (href : p.get? index = some (.ref k owner pair))
    (h : p.className owner = .error e) : p.member index k.kind =
      .error (.during .resolving s!"{k.kind.name} class" e) := by
  simp only [LookUp.member, fetch_ref href, bind, Except.bind, h, resolving_error]

theorem member_of_nameAndType_error (href : p.get? index = some (.ref k owner pair))
    (hc : p.className owner = .ok s) (h : p.nameAndType pair = .error e) : p.member index k.kind =
      .error (.during .resolving s!"{k.kind.name} name and type" e) := by
  simp only [LookUp.member, fetch_ref href, bind, Except.bind, hc, h, resolving_ok,
    resolving_error]

theorem firstBroken_of_ne (hhop : hop ≠ .reference) (hlink : p.link index hop = some i)
    (hne : p.kindAt i ≠ hop.expected kind) (h : ∀ h ∈ hop.earlier, p.Holds index kind h) :
    p.FirstBroken index kind hop i :=
  ⟨h, hlink, fun hholds => hne ((holds_iff hhop hlink).1 hholds)⟩

def Refused (p : Pool) (index : UInt16) (kind : Kind) : Prop :=
  ∃ hop i, p.FirstBroken index kind hop i ∧
    p.member index kind = .error (hop.error kind i (p.kindAt i))

theorem class_links (href : p.get? index = some (.ref k owner pair)) :
    (∃ n b, p.get? owner = some (.cls n) ∧ p.get? n = some (.utf8 b) ∧
      ∀ h ∈ Hop.nameAndType.earlier, p.Holds index k.kind h) ∨ p.Refused index k.kind := by
  have hreference : ∀ h ∈ Hop.cls.earlier, p.Holds index k.kind h :=
    List.forall_mem_singleton.2 (holds_reference_iff.2 ⟨k, owner, pair, rfl, href⟩)
  have hlink := link_cls href
  by_cases hcls : p.kindAt owner = .cls
  case neg =>
    exact .inr ⟨.cls, owner, firstBroken_of_ne (by decide) hlink hcls hreference,
      member_of_className_error href (className_of_kindAt_ne hcls)⟩
  obtain ⟨c, howner, hkind⟩ := exists_of_kindAt (by decide) hcls
  obtain ⟨n, rfl⟩ := Constant.eq_cls_of_kind hkind
  have hearlier : ∀ h ∈ Hop.className.earlier, p.Holds index k.kind h := List.forall_mem_append.2
    ⟨hreference, List.forall_mem_singleton.2 ((holds_iff (by decide) hlink).2 hcls)⟩
  have hlinkName := link_className href howner
  by_cases hname : p.kindAt n = .utf8
  case neg =>
    refine .inr ⟨.className, n, firstBroken_of_ne (by decide) hlinkName hname hearlier,
      member_of_className_error href ?_⟩
    have hfetch : (LookUp.fetch p owner .cls Constant.cls? : Except Error UInt16) = .ok n :=
      fetch_of_some (by rw [howner]; rfl)
    simp only [LookUp.className, hfetch, bind, Except.bind, text_of_kindAt_ne hname,
      resolving_error]
    rfl
  obtain ⟨b, hb⟩ := exists_utf8 hname
  exact .inl ⟨n, b, howner, hb, List.forall_mem_append.2
    ⟨hearlier, List.forall_mem_singleton.2 ((holds_iff (by decide) hlinkName).2 hname)⟩⟩

theorem nameAndType_links {n : UInt16} {b : Bytes} (href : p.get? index = some (.ref k owner pair))
    (howner : p.get? owner = some (.cls n)) (hb : p.get? n = some (.utf8 b))
    (hearlier : ∀ h ∈ Hop.nameAndType.earlier, p.Holds index k.kind h) :
    (∃ m, p.WellLinked index k.kind m) ∨ p.Refused index k.kind := by
  have hclass : p.className owner = .ok b := className_ok_iff.2 ⟨n, howner, text_ok_iff.2 hb⟩
  have hlink := link_nameAndType href
  by_cases hpair : p.kindAt pair = .nameAndType
  case neg =>
    exact .inr ⟨.nameAndType, pair, firstBroken_of_ne (by decide) hlink hpair hearlier,
      member_of_nameAndType_error href hclass (nameAndType_of_kindAt_ne hpair)⟩
  obtain ⟨c, hget, hkind⟩ := exists_of_kindAt (by decide) hpair
  obtain ⟨name, descriptor, rfl⟩ := Constant.eq_nameAndType_of_kind hkind
  have hearlier : ∀ h ∈ Hop.name.earlier, p.Holds index k.kind h := List.forall_mem_append.2
    ⟨hearlier, List.forall_mem_singleton.2 ((holds_iff (by decide) hlink).2 hpair)⟩
  have hlinkName := link_name href hget
  by_cases hname : p.kindAt name = .utf8
  case neg =>
    refine .inr ⟨.name, name, firstBroken_of_ne (by decide) hlinkName hname hearlier,
      member_of_nameAndType_error href hclass ?_⟩
    simp only [LookUp.nameAndType, fetch_nameAndType hget, bind, Except.bind,
      text_of_kindAt_ne hname, resolving_error]
    rfl
  obtain ⟨b₁, hb₁⟩ := exists_utf8 hname
  have hearlier : ∀ h ∈ Hop.descriptor.earlier, p.Holds index k.kind h := List.forall_mem_append.2
    ⟨hearlier, List.forall_mem_singleton.2 ((holds_iff (by decide) hlinkName).2 hname)⟩
  have hlinkDescriptor := link_descriptor href hget
  by_cases hdescriptor : p.kindAt descriptor = .utf8
  case neg =>
    refine .inr ⟨.descriptor, descriptor,
      firstBroken_of_ne (by decide) hlinkDescriptor hdescriptor hearlier,
      member_of_nameAndType_error href hclass ?_⟩
    simp only [LookUp.nameAndType, fetch_nameAndType hget, bind, Except.bind, text_ok_iff.2 hb₁,
      text_of_kindAt_ne hdescriptor, resolving_ok, resolving_error]
    rfl
  obtain ⟨b₂, hb₂⟩ := exists_utf8 hdescriptor
  exact .inl ⟨⟨k.kind, b, b₁, b₂⟩, k, owner, n, pair, name, descriptor, rfl, href, howner, hb, hget,
    hb₁, hb₂, rfl⟩

/-- The links are followed one by one: either all of them hold, or there is a first one that does
not. -/
theorem wellLinked_or_refused (p : Pool) (index : UInt16) (kind : Kind) :
    (∃ m, p.WellLinked index kind m) ∨ p.Refused index kind := by
  by_cases h : p.Holds index kind .reference
  case neg =>
    exact .inr ⟨.reference, index, ⟨nofun, rfl, h⟩, member_of_not_reference h⟩
  obtain ⟨k, owner, pair, rfl, href⟩ := holds_reference_iff.1 h
  rcases class_links href with ⟨n, b, howner, hb, hearlier⟩ | hrefused
  · exact nameAndType_links href howner hb hearlier
  · exact .inr hrefused

theorem member_of_wellLinked (h : p.WellLinked index kind m) : p.member index kind = .ok m := by
  obtain ⟨k, owner, n, pair, name, descriptor, rfl, href, howner, hn, hpair, hname, hdescriptor,
    hkind⟩ := h
  have hclass := className_ok_iff.2 ⟨n, howner, text_ok_iff.2 hn⟩
  have htexts := nameAndType_of_get? hpair (text_ok_iff.2 hname) (text_ok_iff.2 hdescriptor)
  rw [member_of_get? href hclass htexts, ← hkind]

theorem member_ok_iff : p.member index kind = .ok m ↔ p.WellLinked index kind m := by
  constructor
  · intro h
    rcases wellLinked_or_refused p index kind with ⟨m', hm'⟩ | ⟨hop, i, -, herror⟩
    · rw [member_of_wellLinked hm'] at h
      cases h
      exact hm'
    · rw [herror] at h
      cases h
  · exact member_of_wellLinked

theorem holds_of_wellLinked (h : p.WellLinked index kind m) (hop : Hop) :
    p.Holds index kind hop := by
  obtain ⟨k, owner, n, pair, name, descriptor, rfl, href, howner, hn, hpair, hname, hdescriptor,
    -⟩ := h
  cases hop with
  | reference => exact holds_reference_iff.2 ⟨k, owner, pair, rfl, href⟩
  | cls => exact ⟨nofun, owner, link_cls href, kindAt_of_get? howner⟩
  | className => exact ⟨nofun, n, link_className href howner, kindAt_of_get? hn⟩
  | nameAndType => exact ⟨nofun, pair, link_nameAndType href, kindAt_of_get? hpair⟩
  | name => exact ⟨nofun, name, link_name href hpair, kindAt_of_get? hname⟩
  | descriptor => exact ⟨nofun, descriptor, link_descriptor href hpair, kindAt_of_get? hdescriptor⟩

theorem Hop.eq_or_mem_earlier (hop hop' : Hop) :
    hop = hop' ∨ hop ∈ hop'.earlier ∨ hop' ∈ hop.earlier := by
  cases hop <;> cases hop' <;> decide

theorem FirstBroken.unique (h : p.FirstBroken index kind hop i)
    (h' : p.FirstBroken index kind hop' j) : hop = hop' ∧ i = j := by
  rcases Hop.eq_or_mem_earlier hop hop' with rfl | hmem | hmem
  · exact ⟨rfl, Option.some.inj (h.link.symm.trans h'.link)⟩
  · exact absurd (h'.earlier hop hmem) h.broken
  · exact absurd (h.earlier hop' hmem) h'.broken

theorem member_error_iff : p.member index kind = .error e ↔
    ∃ hop i, p.FirstBroken index kind hop i ∧ e = hop.error kind i (p.kindAt i) := by
  rcases wellLinked_or_refused p index kind with ⟨m, hm⟩ | ⟨hop, i, hbroken, herror⟩
  · rw [member_of_wellLinked hm]
    constructor
    · nofun
    · rintro ⟨hop, i, hbroken, -⟩
      exact absurd (holds_of_wellLinked hm hop) hbroken.broken
  · rw [herror]
    constructor
    · rintro ⟨⟩
      exact ⟨hop, i, hbroken, rfl⟩
    · rintro ⟨hop', i', hbroken', rfl⟩
      obtain ⟨rfl, rfl⟩ := hbroken.unique hbroken'
      rfl

theorem kindAt_of_member (h : p.member index kind = .ok m) : p.kindAt index = kind := by
  obtain ⟨k, owner, n, pair, name, descriptor, rfl, href, -⟩ := member_ok_iff.1 h
  exact kindAt_of_get? href

theorem method_of_member (k : RefKind) (hk : k ≠ .field) (h : p.member index k.kind = .ok m) :
    p.method index = .ok m := by
  have hkind := kindAt_of_member h
  cases k with
  | field => exact absurd rfl hk
  | method => exact (if_neg (by rw [hkind]; decide)).trans h
  | interfaceMethod => exact (if_pos hkind).trans h

/-! Another pool gives the same if it has the same entries where the links lead. -/

def Hop.source : Hop → Hop
  | .reference | .cls | .nameAndType => .reference
  | .className => .cls
  | .name | .descriptor => .nameAndType

theorem link_eq_bind (hhop : hop ≠ .reference) :
    p.link index hop = (p.link index hop.source).bind (p.next hop) := by
  cases hop with
  | reference => exact absurd rfl hhop
  | _ => rfl

theorem mem_visited (h : p.link index hop = some i) : i ∈ p.visited index :=
  List.mem_filterMap.2 ⟨hop, by cases hop <;> decide, h⟩

theorem link_congr (h : ∀ i ∈ p.visited index, q.get? i = p.get? i) (hop : Hop) :
    q.link index hop = p.link index hop := by
  have hstep (hop : Hop) (hhop : hop ≠ .reference)
      (hsource : q.link index hop.source = p.link index hop.source) :
      q.link index hop = p.link index hop := by
    rw [link_eq_bind hhop, link_eq_bind hhop, hsource]
    refine Option.bind_congr fun i hi => ?_
    rw [next, next, h i (mem_visited hi)]
  have hcls : q.link index .cls = p.link index .cls := hstep .cls nofun rfl
  have hpair : q.link index .nameAndType = p.link index .nameAndType := hstep .nameAndType nofun rfl
  cases hop with
  | reference => rfl
  | cls => exact hcls
  | className => exact hstep .className nofun hcls
  | nameAndType => exact hpair
  | name => exact hstep .name nofun hpair
  | descriptor => exact hstep .descriptor nofun hpair

theorem kindAt_congr (h : q.get? i = p.get? i) : q.kindAt i = p.kindAt i := by
  rw [kindAt, kindAt, h]

theorem holds_congr (h : ∀ i ∈ p.visited index, q.get? i = p.get? i) (kind : Kind) (hop : Hop) :
    q.Holds index kind hop ↔ p.Holds index kind hop := by
  refine and_congr_right fun _ => exists_congr fun i => ?_
  rw [link_congr h hop]
  refine and_congr_right fun hlink => ?_
  rw [kindAt_congr (h i (mem_visited hlink))]

theorem wellLinked_congr (h : ∀ i ∈ p.visited index, q.get? i = p.get? i)
    (hm : p.WellLinked index kind m) : q.WellLinked index kind m := by
  obtain ⟨k, owner, n, pair, name, descriptor, hkind, href, howner, hn, hpair, hname, hdescriptor,
    hm⟩ := hm
  have hlink (hop : Hop) (i : UInt16) (c : Constant) (hi : p.link index hop = some i)
      (hc : p.get? i = some c) : q.get? i = some c := (h i (mem_visited hi)).trans hc
  exact ⟨k, owner, n, pair, name, descriptor, hkind, hlink .reference index _ rfl href,
    hlink .cls owner _ (link_cls href) howner, hlink .className n _ (link_className href howner) hn,
    hlink .nameAndType pair _ (link_nameAndType href) hpair,
    hlink .name name _ (link_name href hpair) hname,
    hlink .descriptor descriptor _ (link_descriptor href hpair) hdescriptor, hm⟩

theorem member_congr (h : ∀ i ∈ p.visited index, q.get? i = p.get? i) (kind : Kind) :
    q.member index kind = p.member index kind := by
  cases hp : p.member index kind with
  | ok m => exact member_ok_iff.2 (wellLinked_congr h (member_ok_iff.1 hp))
  | error e =>
    obtain ⟨hop, i, hbroken, rfl⟩ := member_error_iff.1 hp
    refine member_error_iff.2 ⟨hop, i, ⟨?_, ?_, ?_⟩, ?_⟩
    · exact fun x hx => (holds_congr h kind x).2 (hbroken.earlier x hx)
    · rw [link_congr h, hbroken.link]
    · exact fun hholds => hbroken.broken ((holds_congr h kind hop).1 hholds)
    · rw [kindAt_congr (h i (mem_visited hbroken.link))]

end Links

/-- There is no entry at the index 0 or at the count of a pool that was read, and there is one at
every index between them. -/
theorem kindAt_eq_none_of_read {count : UInt16} {s t : ClassFile.Scan} {p : Pool}
    (h : (ClassFile.Parser.pool count : ClassFile.Parser Pool) s = .ok p t) (i : UInt16) :
    p.kindAt i = .none ↔ i = 0 ∨ count ≤ i := by
  obtain ⟨-, hlength, -, -⟩ := (ClassFile.Parser.pool_ok_iff count s t p).1 h
  rw [kindAt_eq_none_iff, get?]
  by_cases hi : i = 0
  · simp [hi]
  · have hpos : 0 < i.toNat := by
      rw [Nat.pos_iff_ne_zero]
      exact fun h0 => hi (UInt16.toNat_inj.1 h0)
    rw [if_neg hi, List.getElem?_eq_none_iff, hlength, or_iff_right hi, UInt16.le_iff_toNat_le]
    omega

/-- In a pool that was read, a reference resolves to the texts that its links lead to, or the error
is about the first link that does not hold; six entries at most decide about it. -/
theorem member_follows_links (count : UInt16) (s t : ClassFile.Scan) (p : Pool)
    (h : (ClassFile.Parser.pool count : ClassFile.Parser Pool) s = .ok p t) (index : UInt16)
    (kind : Kind) :
    (∀ m, p.member index kind = .ok m ↔ p.WellLinked index kind m) ∧
    (∀ e, p.member index kind = .error e ↔
      ∃ hop i, p.FirstBroken index kind hop i ∧ e = hop.error kind i (p.kindAt i)) ∧
    (∀ i, p.kindAt i = .none ↔ i = 0 ∨ count ≤ i) ∧
    (p.kindAt index = .interfaceMethodref →
      p.method index = p.member index .interfaceMethodref) ∧
    (p.kindAt index ≠ .interfaceMethodref → p.method index = p.member index .methodref) ∧
    (p.visited index).length ≤ 6 ∧
    ∀ q : Pool, (∀ i ∈ p.visited index, q.get? i = p.get? i) →
      q.member index kind = p.member index kind ∧ q.method index = p.method index := by
  refine ⟨fun m => member_ok_iff, fun e => member_error_iff, kindAt_eq_none_of_read h,
    fun hkind => if_pos hkind, fun hkind => if_neg hkind, List.length_filterMap_le _ _, ?_⟩
  intro q hq
  refine ⟨member_congr hq kind, ?_⟩
  have hkind : q.kindAt index = p.kindAt index :=
    kindAt_congr (hq index (@mem_visited p index index .reference rfl))
  have hmethod (p : Pool) : p.method index = if p.kindAt index = .interfaceMethodref then
      p.member index .interfaceMethodref else p.member index .methodref := rfl
  rw [hmethod, hmethod, hkind, member_congr hq, member_congr hq]

/-- The class of the method has itself for its name, and the name and type leads back to the method
and to itself. -/
def circular : Pool := { count := 4, entries := [.ref .method 2 3, .cls 2, .nameAndType 1 3] }

theorem circular_reported :
    let s : ClassFile.Scan := { cursor := ⟨circular.entries.flatMap Constant.layout, 10⟩ }
    (∃ t, (ClassFile.Parser.pool 4 : ClassFile.Parser Pool) s = .ok circular t) ∧
      circular.member 1 .methodref = .error (.during .resolving "Methodref class"
        (.during .resolving "class name" (.unresolved 2 .utf8 .cls))) := by
  intro s
  have hread : (ClassFile.Parser.pool 4 : ClassFile.Parser Pool) s =
      .ok circular ⟨⟨[], 23⟩, []⟩ := by
    refine (ClassFile.Parser.pool_ok_iff ..).2 ⟨rfl, rfl, ?_, ⟨rfl, rfl⟩, rfl⟩
    exact List.forall_mem_cons.2 ⟨trivial, List.forall_mem_cons.2
      ⟨trivial, List.forall_mem_singleton.2 trivial⟩⟩
  have hreference : circular.Holds 1 .methodref .reference := ⟨fun _ => ⟨.method, rfl⟩, 1, rfl, rfl⟩
  have hcls : circular.Holds 1 .methodref .cls := ⟨nofun, 2, rfl, rfl⟩
  have hbroken : circular.FirstBroken 1 .methodref .className 2 :=
    firstBroken_of_ne (by decide) rfl (by decide)
      (List.forall_mem_cons.2 ⟨hreference, List.forall_mem_singleton.2 hcls⟩)
  have herror := (member_follows_links 4 s _ circular hread 1 .methodref).2.1
  exact ⟨⟨_, hread⟩, (herror _).2 ⟨.className, 2, hbroken, rfl⟩⟩

end Pool

end ClassMachine
