import ClassMachine.Proofs.ClassFile.Grammar

/-! How class files are refused. Whatever goes wrong while a class file is read raises one error,
with the steps that led to it around it (`body_refused`): its offset lies inside the input, and if
it is about a tag, the tag stands in the input behind entries of supported kinds. Only a truncation
is wrapped once more, so that each refusal is classified by exactly one error of its chain. -/
namespace ClassMachine.ClassFile

inductive Link
  | truncated (at_ : Truncation)
  | malformed (offset : Nat)
  | unsupportedVersion (major minor want : UInt16)
  | unsupportedConstant (index : Nat) (tag : UInt8)
  | unknownTag (index : Nat) (tag : UInt8)
  | unresolved (index : UInt16) (expected actual : Kind)
deriving DecidableEq

namespace Link

/-- All errors but a truncation say by themselves why a file is refused. -/
def classifies : Link → Bool
  | .truncated _ => false
  | _ => true

def truncation? : Link → Option Truncation
  | .truncated t => some t
  | _ => none

def malformed? : Link → Bool
  | .malformed _ => true
  | _ => false

def Inside (n : Nat) : Link → Prop
  | .truncated t => t.offset + t.got ≤ n ∧ t.got < t.need
  | .malformed offset => offset ≤ n
  | _ => True

def tag? : Link → Option (Nat × UInt8)
  | .unsupportedConstant i tag | .unknownTag i tag => some (i, tag)
  | _ => none

/-- How an error stands in the chain of a refusal: a truncation is no classification by itself. -/
def classified : Link → List Link
  | .truncated t => [.malformed t.offset, .truncated t]
  | link => [link]

theorem mem_classified {link other : Link} (h : other ∈ link.classified) :
    other = link ∨ ∃ t, link = .truncated t ∧ other = .malformed t.offset := by
  cases link with
  | truncated t =>
    obtain rfl | hlast := List.mem_cons.1 h
    · exact Or.inr ⟨t, rfl, rfl⟩
    · exact Or.inl (List.mem_singleton.1 hlast)
  | _ => exact Or.inl (List.mem_singleton.1 h)

theorem malformed_before {t : Truncation} {before after : List Link}
    (h : (truncated t).classified = before ++ .truncated t :: after) :
    .malformed t.offset ∈ before := by
  cases before with
  | nil =>
    obtain ⟨hfirst, -⟩ := List.cons.inj h
    cases hfirst
  | cons first more =>
    obtain ⟨rfl, -⟩ := List.cons.inj h
    exact List.mem_cons_self

end Link

namespace Error

/-- The errors of a chain, the outermost first. The steps between them are no errors of their
own. -/
def chain : Error → List Link
  | .truncated t => [.truncated t]
  | .truncatedStream offset e => .malformed offset :: e.chain
  | .badMagic _ => [.malformed 0]
  | .codeTooLong offset _ _ | .lengthMismatch offset _ _ => [.malformed offset]
  | .unsupportedVersion major minor want => [.unsupportedVersion major minor want]
  | .unsupportedConstant i kind => [.unsupportedConstant i kind.tag]
  | .unknownTag i tag => [.unknownTag i tag]
  | .unresolved i expected actual => [.unresolved i expected actual]
  | .tooDeep => []
  | .during _ _ e => e.chain

theorem truncation?_eq (e : Error) : e.truncation? = e.chain.findSome? Link.truncation? := by
  induction e with
  | truncatedStream offset e ih =>
    rw [truncation?, chain, List.findSome?_cons, ih]
    rfl
  | during activity part e ih => simpa [truncation?, chain] using ih
  | _ => rfl

theorem malformed_eq (e : Error) : e.malformed = e.chain.any Link.malformed? := by
  induction e with
  | during activity part e ih => simpa [malformed, chain] using ih
  | _ => rfl

/-- A truncation that stands alone is wrapped, any other error is classified as it is. -/
theorem chain_classify {e : Error} {link : Link} (h : e.chain = [link]) :
    e.classify.chain = link.classified := by
  have ht := e.truncation?_eq
  have hm := e.malformed_eq
  rw [h] at ht hm
  cases link with
  | truncated t =>
    have hclassify : e.classify = .truncatedStream t.offset e := by
      rw [classify, ht, hm]
      rfl
    rw [hclassify, chain, h]
    rfl
  | _ =>
    have hclassify : e.classify = e := by
      rw [classify, ht]
      rfl
    rw [hclassify, h]
    rfl

end Error

/-- The byte string starts as a class file that declares more than `i` entries in its pool, and
behind `i - 1` whole entries the byte `tag` stands where the next one has its tag. -/
def TagAt (want : UInt16) (data : Bytes) (i : Nat) (tag : UInt8) : Prop :=
  ∃ (minor count : UInt16) (earlier : List Constant) (rest : Bytes),
    data = Bytes.u4 magic ++ (Bytes.u2 minor ++ Bytes.u2 want) ++ Bytes.u2 count ++
      earlier.flatMap Constant.layout ++ tag :: rest ∧
    (∀ c ∈ earlier, c.Fits ∧ c.kind.supported = true) ∧
    1 ≤ i ∧ earlier.length + 1 = i ∧ i < count.toNat

/-- What is true of an error about a tag: the tag stands in the input, and it is of the sort that
the error says. -/
def Link.Shown (want : UInt16) (data : Bytes) : Link → Prop
  | .unsupportedConstant i tag =>
    TagAt want data i tag ∧ Kind.recognized ⟨tag⟩ = true ∧ Kind.supported ⟨tag⟩ = false
  | .unknownTag i tag => TagAt want data i tag ∧ Kind.recognized ⟨tag⟩ = false
  | _ => True

def Error.Refused (n : Nat) (e : Error) : Prop :=
  ∃ link, e.chain = [link] ∧ link.Inside n ∧ link.tag? = none

namespace Parser
open Fallible Reading
variable {α β : Type} {n k c : Nat}

/-- Reading goes on inside of `n` bytes, and less than `k` bytes are left together with `c` others
that were read. -/
def Room (n k c : Nat) (s : Scan) : Prop :=
  s.cursor.offset + s.cursor.rest.length ≤ n ∧ s.cursor.rest.length + c < k

theorem Room.mono {s : Scan} {k' c' : Nat} (h : Room n k c s) (hk : k + c' ≤ k' + c) :
    Room n k' c' s := by
  obtain ⟨hn, hc⟩ := h
  exact ⟨hn, by omega⟩

abbrev Roomy (n k : Nat) (p : Parser α) : Prop :=
  Triple (Room n k 0) p (fun _ => Room n k 0) fun e _ => e.Refused n

theorem triple_during {pre : Scan → Prop} {p : Parser α} {post : α → Scan → Prop}
    {fails : Error → Scan → Prop} (activity : Activity) (part : String)
    (h : Triple pre p post fun e s => fails (.during activity part e) s) :
    Triple pre (during activity part p) post fails := by
  intro s hs
  have hr := h s hs
  simp only [during]
  revert hr
  cases p s with
  | ok a t => exact id
  | error e t => exact id

/-- Each of the items leads from what is known before it to what is known behind it. -/
theorem triple_items {I : Nat → Scan → Prop} {item : Nat → Parser α} {fails : Error → Scan → Prop}
    (room m i : Nat) (h : ∀ j, j < i + m → Triple (I j) (item j) (fun _ => I (j + 1)) fails) :
    Triple (I i) (items room item m i) (fun _ => I (i + m)) fails := by
  simp only [items]
  induction m generalizing i with
  | zero => exact triple_pure fun s hs => hs
  | succ m ih =>
    refine triple_bind (h i (by omega)) fun a => ?_
    refine triple_bind (ih (i + 1) fun j hj => h j (by omega)) fun as => ?_
    refine triple_pure fun s hs => ?_
    rwa [Nat.add_assoc, Nat.add_comm 1 m] at hs

theorem roomy_items {item : Nat → Parser α} (h : ∀ i, Roomy n k (item i)) (room m i : Nat) :
    Roomy n k (items room item m i) :=
  triple_items (I := fun _ => Room n k 0) room m i fun j _ => h j

/-! Reads. -/

/-- A read of `m` bytes that the input has passes over them, and else it is the truncation that is
raised. -/
theorem triple_taking (activity : Activity) (part : String) (m : Nat) (f : Bytes → α) :
    Triple (Room n k c) (field activity part (Cursor.taking m f)) (fun _ => Room n k (c + m))
      fun e _ => e.Refused n := by
  intro s hs
  obtain ⟨hn, hk⟩ := hs
  simp only [field]
  cases hr : Cursor.taking m f s.cursor with
  | ok a c' =>
    obtain ⟨b, hb, ⟨hrest, hoffset⟩, -⟩ := (Cursor.taking_ok_iff m f s.cursor c' a).1 hr
    have hlen := congrArg List.length hrest
    rw [List.length_append] at hlen
    exact ⟨by dsimp only; omega, by dsimp only; omega⟩
  | error t c' =>
    obtain ⟨hlt, rfl⟩ := Cursor.truncation_of_taking hr
    exact ⟨_, rfl, ⟨hn, hlt⟩, rfl⟩

theorem field_error {activity : Activity} {part : String} {r : Reader α} {s t : Scan} {e : Error}
    (h : field activity part r s = .error e t) : ∃ u, e = .during activity part (.truncated u) := by
  simp only [field] at h
  split at h
  · cases h
  · cases h
    exact ⟨_, rfl⟩

theorem triple_u1 (part : String) : Triple (Room n k c) (u1 part : Parser UInt8)
    (fun _ => Room n k (c + 1)) fun e _ => e.Refused n := by
  simp only [u1, Cursor.u1_eq_taking]
  exact triple_taking _ part _ _

theorem triple_u2 (part : String) : Triple (Room n k c) (u2 part : Parser UInt16)
    (fun _ => Room n k (c + 2)) fun e _ => e.Refused n := by
  simp only [u2, Cursor.u2_eq_taking]
  exact triple_taking _ part _ _

theorem triple_u4 (part : String) : Triple (Room n k c) (u4 part : Parser UInt32)
    (fun _ => Room n k (c + 4)) fun e _ => e.Refused n := by
  simp only [u4, Cursor.u4_eq_taking]
  exact triple_taking _ part _ _

theorem triple_bytes (activity : Activity) (part : String) (m : Nat) :
    Triple (Room n k c) (bytes activity part m : Parser Bytes) (fun _ => Room n k (c + m))
      fun e _ => e.Refused n := by
  simp only [bytes, Cursor.take_eq_taking]
  exact triple_taking _ part _ _

theorem roomy_of_triple {p : Parser α}
    (h : Triple (Room n k 0) p (fun _ => Room n k c) fun e _ => e.Refused n) : Roomy n k p :=
  h.weaken (fun _ hs => hs) fun _ _ hs => hs.mono (by omega)

theorem roomy_u2 (part : String) : Roomy n k (u2 part) :=
  roomy_of_triple (triple_u2 part)

theorem roomy_pure (x : α) : Roomy n k (pure x : Parser α) := triple_pure fun _ hs => hs

theorem roomy_throw {e : Error} (h : e.Refused n) : Roomy n k (throw e : Parser α) :=
  triple_throw fun _ _ => h

theorem roomy_bind {p : Parser α} {f : α → Parser β} (hp : Roomy n k p)
    (hf : ∀ a, Roomy n k (f a)) : Roomy n k (p >>= f) := triple_bind hp hf

theorem roomy_during {p : Parser α} (activity : Activity) (part : String) (h : Roomy n k p) :
    Roomy n k (during activity part p) := triple_during activity part h

/-! Attributes. A level of attributes takes eighteen bytes, so there is always a level left for the
bytes that there are. -/

section Attributes
variable {depth : Nat} {nested : Parser (List Attribute)}

theorem triple_code (hn : Roomy n (18 * depth) nested) (nameIndex : UInt16) (payload : Bytes)
    (start : Nat) :
    Triple (Room n (18 * depth + 10) 0) (code nested nameIndex payload start) (fun _ _ => True)
      fun e _ => e.Refused n := by
  refine triple_bind (triple_u2 _) fun maxStack => triple_bind (triple_u2 _) fun maxLocals => ?_
  refine triple_bind (triple_u4 _) fun codeLength => ?_
  refine triple_ite (fun hlong => ?_) fun hfits => ?_
  · intro s hs
    exact ⟨_, rfl, Nat.le_trans (Nat.le_add_right _ _) hs.1, rfl⟩
  · refine triple_bind (triple_bytes _ _ _) fun bytes => triple_bind (triple_u2 _) fun m => ?_
    refine triple_bind (triple_bytes _ _ _) fun _ => ?_
    refine triple_bind ((roomy_during _ _ hn).weaken (fun s hs => hs.mono (by omega))
      fun _ _ hs => hs) fun attributes => ?_
    refine triple_bind (J := fun stop _ => stop ≤ n)
      (fun s hs => Nat.le_trans (Nat.le_add_right _ _) hs.1) fun stop => ?_
    refine triple_ite (fun _ => triple_pure fun _ _ => trivial) fun _ => ?_
    exact triple_throw fun s hs => ⟨_, rfl, hs, rfl⟩

theorem triple_payload (part : String) (start m : Nat) :
    Triple (fun s => s.cursor.offset = start ∧ Room n k c s) (bytes .reading part m : Parser Bytes)
      (fun b s => start + b.length ≤ n ∧ b.length + c < k ∧ Room n k c s)
      fun e _ => e.Refused n := by
  intro s hs
  obtain ⟨rfl, hroom⟩ := hs
  have htriple := triple_bytes .reading part m s hroom
  cases hr : (bytes .reading part m : Parser Bytes) s with
  | error e t => rwa [hr] at htriple
  | ok b t =>
    obtain ⟨hb, ⟨hrest, hoffset⟩, -⟩ := (bytes_ok_iff .reading part m s t b).1 hr
    obtain ⟨hn, hk⟩ := hroom
    have hlen := congrArg List.length hrest
    rw [List.length_append] at hlen
    exact ⟨by omega, by omega, by omega, by omega⟩

theorem triple_name {I : Scan → Prop} (part : String) (pool : Pool) (index : UInt16) :
    Triple I (text part pool index : Parser Bytes) (fun _ => I) fun e _ => e.Refused n := by
  simp only [text, LookUp.text, LookUp.fetch]
  split
  · exact triple_pure fun _ hs => hs
  · exact triple_throw fun _ _ => ⟨_, rfl, trivial, rfl⟩

theorem roomy_oneAttribute (hn : Roomy n (18 * depth) nested) (pool : Pool) (i : Nat) :
    Roomy n (18 * depth + 16) (oneAttribute nested pool i) := by
  refine triple_bind (triple_u2 _) fun nameIndex => triple_bind (triple_u4 _) fun length => ?_
  refine triple_bind (J := fun start s => s.cursor.offset = start ∧ Room n _ 6 s)
    (fun s hs => ⟨rfl, hs⟩) fun start => ?_
  refine triple_bind (triple_payload _ start _) fun payload => ?_
  refine triple_bind (triple_name _ pool nameIndex) fun name => triple_ite (fun _ => ?_) fun _ => ?_
  · refine triple_during _ _ fun s hs => ?_
    obtain ⟨hend, hlen, hroom⟩ := hs
    have hinside : Room n (18 * depth + 10) 0 ⟨⟨payload, start⟩, s.diagnostics⟩ :=
      ⟨hend, by dsimp only; omega⟩
    have hr := triple_code hn nameIndex payload start _ hinside
    simp only [inside]
    revert hr
    cases code nested nameIndex payload start ⟨⟨payload, start⟩, s.diagnostics⟩ with
    | ok a t => exact fun _ => hroom.mono (by omega)
    | error e t => exact id
  · exact fun s hs => hs.2.2.mono (by omega)

theorem roomy_attributes (pool : Pool) (depth : Nat) :
    Roomy n (18 * depth) (attributes pool depth) := by
  induction depth with
  | zero =>
    intro s hs
    exact absurd hs.2 (Nat.not_lt_zero _)
  | succ depth ih =>
    refine triple_bind (triple_u2 _) fun count => ?_
    exact (roomy_items (roomy_oneAttribute ih pool) count.toNat _ 0).weaken
      (fun s hs => hs.mono (by omega)) fun _ s hs => hs.mono (by omega)

theorem roomy_member (pool : Pool) (depth : Nat) : Roomy n (18 * depth) (member pool depth) := by
  refine roomy_bind (roomy_u2 _) fun flags => roomy_bind (roomy_u2 _) fun nameIndex => ?_
  refine roomy_bind (roomy_u2 _) fun descriptorIndex => ?_
  exact roomy_bind (roomy_during _ _ (roomy_attributes pool depth)) fun as => roomy_pure _

end Attributes

/-! The pool. -/

section Pool
variable {want : UInt16} {data : Bytes}

def Explained (want : UInt16) (data : Bytes) (e : Error) : Prop :=
  ∃ link, e.chain = [link] ∧ link.Inside data.length ∧ link.Shown want data

theorem explained_of_refused {e : Error} (h : e.Refused data.length) : Explained want data e := by
  obtain ⟨link, hchain, hinside, htag⟩ := h
  refine ⟨link, hchain, hinside, ?_⟩
  cases link with
  | unsupportedConstant i tag => cases htag
  | unknownTag i tag => cases htag
  | _ => trivial

theorem triple_explained {pre : Scan → Prop} {p : Parser α} {post : α → Scan → Prop}
    (h : Triple pre p post fun e _ => e.Refused data.length) :
    Triple pre p post fun e _ => Explained want data e := by
  intro s hs
  have hr := h s hs
  revert hr
  cases p s with
  | ok a t => exact id
  | error e t => exact explained_of_refused

def Reached (want : UInt16) (data : Bytes) (minor count : UInt16) (k i : Nat) (s : Scan) : Prop :=
  Room data.length k 0 s ∧ 1 ≤ i ∧ ∃ earlier : List Constant, earlier.length + 1 = i ∧
    (∀ c ∈ earlier, c.Fits ∧ c.kind.supported = true) ∧
    data = Bytes.u4 magic ++ (Bytes.u2 minor ++ Bytes.u2 want) ++ Bytes.u2 count ++
      earlier.flatMap Constant.layout ++ s.cursor.rest

theorem roomy_constantOf (i : Nat) (kind : Kind) : Roomy n k (constantOf i kind) := by
  refine triple_ite (fun _ => ?_) fun _ => ?_
  · refine roomy_bind (roomy_u2 _) fun length => ?_
    exact roomy_bind (roomy_of_triple (triple_bytes _ _ _)) fun bytes => roomy_pure _
  · refine roomy_bind (roomy_u2 _) fun a => ?_
    refine triple_ite (fun _ => roomy_pure _) fun _ => ?_
    refine triple_ite (fun _ => roomy_pure _) fun _ => ?_
    refine roomy_bind (roomy_u2 _) fun b => ?_
    refine triple_ite (fun _ => roomy_pure _) fun _ => ?_
    refine triple_ite (fun _ => roomy_pure _) fun _ => ?_
    exact triple_ite (fun _ => roomy_pure _) fun _ => roomy_pure _

theorem constant_explained {minor count : UInt16} {i : Nat} (hi : i < count.toNat) {s t : Scan}
    {e : Error} (hs : Reached want data minor count k i s)
    (h : (constant i : Parser Constant) s = .error e t) : Explained want data e := by
  obtain ⟨hroom, hpos, earlier, hlen, hearlier, hdata⟩ := hs
  obtain he | ⟨tag, u, htag, he⟩ := (bind_error_iff _ _ s t e).1 h
  · exact explained_of_refused ((triple_u1 _).error hroom he)
  · have hroom' : Room data.length k 0 u := ((triple_u1 _).ok hroom htag).mono (by omega)
    have hshown : TagAt want data i tag := by
      obtain ⟨⟨hrest, -⟩, -⟩ := (u1_ok_iff _ s u tag).1 htag
      rw [hrest] at hdata
      exact ⟨minor, count, earlier, u.cursor.rest, hdata, hearlier, hpos, hlen, hi⟩
    by_cases hrecognized : Kind.recognized ⟨tag⟩ = false
    · rw [if_pos hrecognized] at he
      cases he
      exact ⟨_, rfl, trivial, hshown, hrecognized⟩
    · rw [if_neg hrecognized] at he
      by_cases hsupported : Kind.supported ⟨tag⟩ = false
      · rw [if_pos hsupported] at he
        cases he
        exact ⟨_, rfl, trivial, hshown, by simpa using hrecognized, hsupported⟩
      · rw [if_neg hsupported] at he
        exact explained_of_refused ((roomy_constantOf i ⟨tag⟩).error hroom' he)

theorem constant_reached {minor count : UInt16} {i : Nat} {s t : Scan} {c : Constant}
    (hs : Reached want data minor count k i s) (h : (constant i : Parser Constant) s = .ok c t) :
    Reached want data minor count k (i + 1) t := by
  obtain ⟨⟨hn, hk⟩, hpos, earlier, hlen, hearlier, hdata⟩ := hs
  obtain ⟨hfits, ⟨hrest, hoffset⟩, -⟩ := (constant_ok_iff i s c t).1 h
  have hbytes := congrArg List.length hrest
  rw [List.length_append] at hbytes
  refine ⟨⟨by omega, by omega⟩, by omega, earlier ++ [c], by simp [hlen], ?_, ?_⟩
  · intro d hd
    obtain hd | hd := List.mem_append.1 hd
    · exact hearlier d hd
    · rw [List.mem_singleton.1 hd]
      exact ⟨hfits, c.kind_supported⟩
  · rw [hdata, hrest]
    simp

theorem triple_pool (minor count : UInt16) :
    Triple (Reached want data minor count k 1) (pool count) (fun _ => Room data.length k 0)
      fun e _ => Explained want data e := by
  refine triple_bind (triple_items (I := Reached want data minor count k) _ (count.toNat - 1) 1 ?_)
    fun entries => triple_pure fun s hs => hs.1
  intro i hi s hs
  cases hr : (constant i : Parser Constant) s with
  | ok c t => exact constant_reached hs hr
  | error e t =>
    exact constant_explained (by have := hs.2.1; omega) hs hr

end Pool

/-! The whole file. -/

section File
variable {want : UInt16} {data : Bytes}

theorem roomy_header : Roomy n k (header want) := by
  refine roomy_bind (roomy_of_triple (triple_u4 _)) fun found => ?_
  refine triple_ite (fun _ => roomy_throw ⟨_, rfl, Nat.zero_le n, rfl⟩) fun _ => ?_
  refine roomy_bind (roomy_u2 _) fun minor => roomy_bind (roomy_u2 _) fun major => ?_
  exact triple_ite (fun _ => roomy_throw ⟨_, rfl, trivial, rfl⟩) fun _ => roomy_pure _

theorem triple_header (want : UInt16) :
    Triple (fun s => s.cursor.rest = data ∧ Room data.length k 0 s)
      (header want : Parser (UInt16 × UInt16))
      (fun version s => Room data.length k 0 s ∧
        data = Bytes.u4 magic ++ (Bytes.u2 version.1 ++ Bytes.u2 want) ++ s.cursor.rest)
      fun e _ => e.Refused data.length := by
  intro s hs
  obtain ⟨hdata, hroom⟩ := hs
  cases hr : (header want : Parser (UInt16 × UInt16)) s with
  | error e t => exact roomy_header.error hroom hr
  | ok version t =>
    obtain ⟨hmajor, ⟨hrest, -⟩, -⟩ := (header_ok_iff want version.1 version.2 s t).1 hr
    refine ⟨roomy_header.ok hroom hr, ?_⟩
    rw [← hdata, hrest, hmajor]

theorem triple_count (minor : UInt16) :
    Triple (fun s => Room data.length k 0 s ∧
        data = Bytes.u4 magic ++ (Bytes.u2 minor ++ Bytes.u2 want) ++ s.cursor.rest)
      (u2 "constant pool count" : Parser UInt16)
      (fun count => Reached want data minor count k 1) fun e _ => e.Refused data.length := by
  intro s hs
  obtain ⟨hroom, hdata⟩ := hs
  cases hr : (u2 "constant pool count" : Parser UInt16) s with
  | error e t => exact (roomy_u2 _).error hroom hr
  | ok count t =>
    obtain ⟨⟨hrest, -⟩, -⟩ := (u2_ok_iff _ s t count).1 hr
    refine ⟨(roomy_u2 _).ok hroom hr, Nat.le_refl 1, [], rfl, by simp, ?_⟩
    rw [hdata, hrest]
    simp

/-- Whatever is wrong with a class file, the one error that is raised is explained by its bytes. -/
theorem body_refused (want : UInt16) (depth : Nat) :
    Triple (fun s => s.cursor.rest = data ∧ Room data.length (18 * depth) 0 s) (body want depth)
      (fun _ _ => True) fun e _ => Explained want data e := by
  have hmembers (part : Nat → String) (pool : Pool) (m : Nat) : Roomy data.length (18 * depth)
      (items m (fun i => during .parsing (part i) (member pool depth)) m 0) :=
    roomy_items (fun i => roomy_during _ _ (roomy_member pool depth)) m m 0
  refine triple_bind (triple_explained (triple_header want)) fun ⟨minor, major⟩ => ?_
  refine triple_bind (triple_explained (triple_count minor)) fun count => ?_
  refine triple_bind (triple_during _ _ (triple_pool minor count)) fun pool => ?_
  -- behind the pool no error is about a tag
  refine triple_explained (Triple.weaken (I := Room data.length (18 * depth) 0)
    (J := fun _ => Room data.length (18 * depth) 0) ?_ (fun _ hs => hs) fun _ _ _ => trivial)
  refine roomy_bind (roomy_u2 _) fun flags => roomy_bind (roomy_u2 _) fun thisClass => ?_
  refine roomy_bind (roomy_u2 _) fun superClass => roomy_bind (roomy_u2 _) fun ni => ?_
  refine roomy_bind (roomy_items (fun i => roomy_u2 _) _ _ 0) fun interfaces => ?_
  refine roomy_bind (roomy_u2 _) fun nf => roomy_bind (hmembers _ pool _) fun fields => ?_
  refine roomy_bind (roomy_u2 _) fun nm => roomy_bind (hmembers _ pool _) fun methods => ?_
  exact roomy_bind (roomy_during _ _ (roomy_attributes pool depth)) fun as => roomy_pure _

end File

end Parser

/-- A refusal is an error of the body: nothing behind a class is an error. -/
theorem body_of_parse_error {want : UInt16} {data : Bytes} {e : Error}
    (h : (parse want data).1 = .error e) :
    ∃ raised s, (Parser.body want (depthFor data.length) : Parser ClassFile)
      { cursor := ⟨data, 0⟩ } = .error raised s ∧ e = raised.classify := by
  rw [parse, parseTo] at h
  cases hr : (Parser.classFile want (depthFor data.length) : Parser ClassFile)
    { cursor := ⟨data, 0⟩ } with
  | ok c s =>
    rw [hr] at h
    cases h
  | error raised s =>
    rw [hr] at h
    cases h
    obtain hb | ⟨c, t, -, ht⟩ := (Fallible.bind_error_iff _ _ _ _ _).1 hr
    · exact ⟨raised, s, hb, rfl⟩
    · obtain ⟨u, hu, -⟩ := Parser.trailing_ok t
      rw [Fallible.bind_of_ok hu] at ht
      cases ht

theorem parse_explained {want : UInt16} {data : Bytes} {e : Error}
    (h : (parse want data).1 = .error e) :
    ∃ link : Link, e.chain = link.classified ∧ link.Inside data.length ∧ link.Shown want data := by
  have hroom : Parser.Room data.length (18 * depthFor data.length) 0 { cursor := ⟨data, 0⟩ } := by
    constructor
    · exact Nat.le_of_eq (Nat.zero_add _)
    · dsimp only [depthFor]
      omega
  obtain ⟨raised, s, hbody, rfl⟩ := body_of_parse_error h
  obtain ⟨link, hchain, hinside, hshown⟩ :=
    (Parser.body_refused want (depthFor data.length)).error ⟨rfl, hroom⟩ hbody
  exact ⟨link, Error.chain_classify hchain, hinside, hshown⟩

structure Error.Classified (want : UInt16) (data : Bytes) (e : Error) : Prop where
  once : (e.chain.filter Link.classifies).length = 1
  beneath : ∀ before t after, e.chain = before ++ .truncated t :: after →
    .malformed t.offset ∈ before
  offset : ∀ o, .malformed o ∈ e.chain → o ≤ data.length
  truncation : ∀ t, .truncated t ∈ e.chain → t.offset ≤ data.length ∧ t.got < t.need
  unsupported : ∀ i tag, .unsupportedConstant i tag ∈ e.chain →
    TagAt want data i tag ∧ Kind.recognized ⟨tag⟩ = true ∧ Kind.supported ⟨tag⟩ = false
  unknown : ∀ i tag, .unknownTag i tag ∈ e.chain →
    TagAt want data i tag ∧ Kind.recognized ⟨tag⟩ = false

theorem classified_of_link {want : UInt16} {data : Bytes} {e : Error} {link : Link}
    (h : e.chain = link.classified) (hinside : link.Inside data.length)
    (hshown : link.Shown want data) : e.Classified want data := by
  -- the error itself stands in the chain, and over it at most the file that is malformed
  have hself {other : Link} (hmem : other ∈ e.chain) (hother : ∀ o, other ≠ .malformed o) :
      link = other := by
    rw [h] at hmem
    obtain rfl | ⟨t, -, ho⟩ := Link.mem_classified hmem
    · rfl
    · exact absurd ho (hother _)
  constructor
  case once =>
    rw [h]
    cases link <;> rfl
  case beneath =>
    intro before t after hsplit
    obtain rfl : link = .truncated t := hself (by simp [hsplit]) (by simp)
    exact Link.malformed_before (h ▸ hsplit)
  case offset =>
    intro o hmem
    rw [h] at hmem
    obtain rfl | ⟨t, rfl, ho⟩ := Link.mem_classified hmem
    · exact hinside
    · cases ho
      exact Nat.le_trans (Nat.le_add_right _ _) hinside.1
  case truncation =>
    intro t hmem
    obtain rfl := hself hmem (by simp)
    exact ⟨Nat.le_trans (Nat.le_add_right _ _) hinside.1, hinside.2⟩
  case unsupported =>
    intro i tag hmem
    obtain rfl := hself hmem (by simp)
    exact hshown
  case unknown =>
    intro i tag hmem
    obtain rfl := hself hmem (by simp)
    exact hshown

/-- What does not start like a class file is malformed, be it for its bytes or for lack of them. -/
theorem parse_malformed {want : UInt16} {data : Bytes}
    (h : data.take 4 ≠ [0xCA, 0xFE, 0xBA, 0xBE]) :
    ∃ e offset causes, (parse want data).1 = .error e ∧ e.chain = .malformed offset :: causes := by
  let start : Scan := { cursor := ⟨data, 0⟩ }
  have herror (raised : Error) (s : Scan)
      (hr : (Parser.header want : Parser (UInt16 × UInt16)) start = .error raised s) :
      (parse want data).1 = .error raised.classify := by
    have hfile : (Parser.classFile want (depthFor data.length) : Parser ClassFile) start =
        .error raised s := Fallible.bind_of_error (Fallible.bind_of_error hr _) _
    rw [parse, parseTo, hfile]
  cases hr : (Reading.u4 "magic number" : Parser UInt32) start with
  | error raised s =>
    have hheader : (Parser.header want : Parser (UInt16 × UInt16)) start = .error raised s :=
      Fallible.bind_of_error hr _
    obtain ⟨t, rfl⟩ := Parser.field_error hr
    have hchain : (Error.during .reading "magic number" (.truncated t)).chain =
        [.truncated t] := rfl
    exact ⟨_, _, _, herror _ _ hheader, Error.chain_classify hchain⟩
  | ok found s =>
    obtain ⟨⟨hrest, -⟩, -⟩ := (Parser.u4_ok_iff _ start s found).1 hr
    have hfound : found ≠ magic := by
      rintro rfl
      apply h
      rw [show data = Bytes.u4 magic ++ s.cursor.rest from hrest]
      rfl
    have hheader : (Parser.header want : Parser (UInt16 × UInt16)) start =
        .error (.badMagic found) s := by
      rw [Parser.header, Fallible.bind_of_ok hr, if_pos hfound]
      rfl
    exact ⟨_, 0, [], herror _ _ hheader, rfl⟩

/-- Every refusal is classified by exactly one error of its chain, and what the chain says about the
input is true. What does not start like a class file is malformed. -/
theorem parse_refusal_classified (want : UInt16) (data : Bytes) :
    (∀ e, (parse want data).1 = .error e → e.Classified want data) ∧
    (data.take 4 ≠ [0xCA, 0xFE, 0xBA, 0xBE] → ∃ e offset causes,
      (parse want data).1 = .error e ∧ e.chain = .malformed offset :: causes) := by
  constructor
  · intro e h
    obtain ⟨link, hchain, hinside, hshown⟩ := parse_explained h
    exact classified_of_link hchain hinside hshown
  · exact parse_malformed

def oddTag : Bytes := [0xCA, 0xFE, 0xBA, 0xBE, 0, 0, 0, 50, 0, 3, 7, 0, 1, 99]

theorem oddTag_classified :
    (parse 50 oddTag).1 = .error (.during .parsing "constant pool" (.unknownTag 2 99)) ∧
      TagAt 50 oddTag 2 99 := by
  have h : (parse 50 oddTag).1 = .error (.during .parsing "constant pool" (.unknownTag 2 99)) := rfl
  have hclassified := (parse_refusal_classified 50 oddTag).1 _ h
  exact ⟨h, (hclassified.unknown 2 99 (List.mem_singleton_self _)).1⟩

end ClassMachine.ClassFile
