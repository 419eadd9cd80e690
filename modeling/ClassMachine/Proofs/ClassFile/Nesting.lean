import ClassMachine.Proofs.ClassFile.Truncation

/-! How deep Code attributes are nested. A survey reads a class file and keeps the Code payloads
that reading goes into, whether it succeeds or not; what it reads is what the parser reads
(`erased`), and it keeps a payload for each Code attribute (`records_classFile`). Of a payload, ten
bytes come before its attributes, two count them, and six come before the payload of one of them.
Main statement: the levels are bounded by the length of the input, and so is the depth that reading
needs. -/
namespace ClassMachine.ClassFile
open Fallible Reading

/-- A Code payload that was entered: how long it is, and the payloads entered from it. -/
inductive Descent
  | into (size : Nat) (inner : List Descent)

namespace Descent

def size : Descent → Nat
  | into size _ => size

mutual

def levels : Descent → Nat
  | into _ inner => levelsAll inner + 1

def levelsAll : List Descent → Nat
  | [] => 0
  | d :: ds => max d.levels (levelsAll ds)

end

/-- Every payload is at least eighteen bytes shorter than the one from which it is entered. -/
inductive Shrinking : Descent → Prop
  | into {size : Nat} {inner : List Descent} (shorter : ∀ d ∈ inner, d.size + 18 ≤ size)
      (shrinking : ∀ d ∈ inner, d.Shrinking) : Shrinking (into size inner)

theorem levelsAll_le {ds : List Descent} {n : Nat} (h : ∀ d ∈ ds, d.levels ≤ n) :
    levelsAll ds ≤ n := by
  induction ds with
  | nil => exact Nat.zero_le n
  | cons d ds ih =>
    obtain ⟨hd, hds⟩ := List.forall_mem_cons.1 h
    exact Nat.max_le.2 ⟨hd, ih hds⟩

theorem Shrinking.levels_le {d : Descent} (h : d.Shrinking) : d.levels ≤ d.size / 18 + 1 := by
  induction h with
  | @into size inner shorter _ ih =>
    have hinner : levelsAll inner ≤ size / 18 := by
      refine levelsAll_le fun d hd => Nat.le_trans (ih d hd) ?_
      have := shorter d hd
      omega
    exact Nat.succ_le_succ hinner

inductive Traces : List Attribute → List Descent → Prop
  | nil : Traces [] []
  | other {nameIndex : UInt16} {name info : Bytes} {as : List Attribute} {ds : List Descent}
      (rest : Traces as ds) : Traces (.other nameIndex name info :: as) ds
  | code {nameIndex maxStack maxLocals : UInt16} {bytes : Bytes} {nested as : List Attribute}
      {size : Nat} {inner ds : List Descent} (inside : Traces nested inner) (rest : Traces as ds) :
      Traces (.code nameIndex maxStack maxLocals bytes nested :: as) (into size inner :: ds)

theorem Traces.append {as as' : List Attribute} {ds ds' : List Descent} (h : Traces as ds)
    (h' : Traces as' ds') : Traces (as ++ as') (ds ++ ds') := by
  induction h with
  | nil => exact h'
  | other _ ih => exact ih.other
  | code inside _ _ ih => exact inside.code ih

end Descent

def allAttributes (c : ClassFile) : List Attribute :=
  c.fields.flatMap Member.attributes ++ (c.methods.flatMap Member.attributes ++ c.attributes)

/-- The state of a survey: that of reading, the payloads entered so far, and whether the depth was
used up. -/
structure Survey where
  scan : Scan
  descents : List Descent := []
  spent : Bool := false

abbrev Surveyor := EStateM Error Survey

namespace Surveyor
variable {α β : Type}

def plain (p : Parser α) : Surveyor α := fun v =>
  match p v.scan with
  | .ok a s => .ok a { v with scan := s }
  | .error e s => .error e { v with scan := s }

/-- A payload that is entered is kept, and what is entered while it is read belongs to it. -/
instance : Reading Surveyor where
  u1 part := plain (u1 part)
  u2 part := plain (u2 part)
  u4 part := plain (u4 part)
  bytes activity part n := plain (bytes activity part n)
  text part pool index := plain (text part pool index)
  offset := plain offset
  diagnose d := plain (diagnose d)
  refuse e := plain (refuse e)
  tooDeep := fun v => .error .tooDeep { v with spent := true }
  during activity part g := fun v =>
    match g v with
    | .ok a v => .ok a v
    | .error e v => .error (.during activity part e) v
  inside payload start g := fun v =>
    match g ⟨⟨⟨payload, start⟩, v.scan.diagnostics⟩, [], v.spent⟩ with
    | .ok a t => .ok a ⟨{ v.scan with diagnostics := t.scan.diagnostics },
        v.descents ++ [.into payload.length t.descents], t.spent⟩
    | .error e t => .error e ⟨{ v.scan with diagnostics := t.scan.diagnostics },
        v.descents ++ [.into payload.length t.descents], t.spent⟩
  items _ item n i := inTurn item n i
  trailing := plain trailing

def erase : EStateM.Result Error Survey α → EStateM.Result Error Scan α
  | .ok a v => .ok a v.scan
  | .error e v => .error e v.scan

/-- The survey came to what the parser came to, by payloads that shrink towards the inside and leave
at least `k` of `n` bytes; the depth is used up only if they hold `b` bytes of attributes. -/
structure Follows (k n b : Nat) (v : Survey) (r : EStateM.Result Error Survey α)
    (r' : EStateM.Result Error Scan α) : Prop where
  erased : erase r = r'
  entered : ∃ ds, (final r).descents = v.descents ++ ds ∧
    ∀ d ∈ ds, d.size + k ≤ n ∧ d.Shrinking
  spent : (final r).spent = true → v.spent = true ∨ b + k ≤ n + 8

/-- The survey reads what the parser reads, and `k` of the bytes in front of it are in no payload
that it enters. -/
def Surveys (k b : Nat) (g : Surveyor α) (p : Parser α) : Prop :=
  ∀ v, Follows k v.scan.cursor.rest.length b v (g v) (p v.scan)

variable {k k' m n n' b : Nat} {v : Survey} {g : Surveyor α} {p : Parser α} {f : α → Surveyor β}
  {q : α → Parser β}

theorem Follows.mono {r : EStateM.Result Error Survey α} {r' : EStateM.Result Error Scan α}
    (h : Follows k n b v r r') (hn : n + k' ≤ n' + k) : Follows k' n' b v r r' := by
  obtain ⟨herased, ⟨ds, hds, hsmall⟩, hspent⟩ := h
  refine ⟨herased, ⟨ds, hds, fun d hd => ?_⟩, fun hr => (hspent hr).imp_right fun hb => by omega⟩
  obtain ⟨hsize, hd⟩ := hsmall d hd
  exact ⟨by omega, hd⟩

theorem follows_of_idle {r : EStateM.Result Error Survey α} {r' : EStateM.Result Error Scan α}
    (h : erase r = r') (hsame : (final r).descents = v.descents ∧ (final r).spent = v.spent) :
    Follows k n b v r r' := by
  obtain ⟨hdescents, hspent⟩ := hsame
  exact ⟨h, ⟨[], by rw [hdescents, List.append_nil], by simp⟩, fun hr => Or.inl (hspent ▸ hr)⟩

theorem follows_plain (p : Parser α) : Follows k n b v (plain p v) (p v.scan) := by
  simp only [plain]
  cases p v.scan with
  | ok a s => exact follows_of_idle rfl ⟨rfl, rfl⟩
  | error e s => exact follows_of_idle rfl ⟨rfl, rfl⟩

theorem follows_bind (hg : Follows k n b v (g v) (p v.scan))
    (hf : ∀ a t, p v.scan = .ok a t.scan → Follows k n b t (f a t) (q a t.scan)) :
    Follows k n b v ((g >>= f) v) ((p >>= q) v.scan) := by
  obtain ⟨herased, ⟨ds, hds, hsmall⟩, hspent⟩ := hg
  cases hr : g v with
  | error e t =>
    rw [hr] at herased hds hspent
    rw [bind_of_error hr, bind_of_error herased.symm]
    exact ⟨rfl, ⟨ds, hds, hsmall⟩, hspent⟩
  | ok a t =>
    rw [hr] at herased hds hspent
    rw [bind_of_ok hr, bind_of_ok herased.symm]
    obtain ⟨herased', ⟨more, hmore, hsmall'⟩, hspent'⟩ := hf a t herased.symm
    refine ⟨herased', ⟨ds ++ more, ?_, fun d hd => ?_⟩, fun h => (hspent' h).elim hspent Or.inr⟩
    · rw [hmore, ← List.append_assoc, ← hds]
      rfl
    · exact (List.mem_append.1 hd).elim (hsmall d) (hsmall' d)

theorem surveys_plain (p : Parser α) : Surveys k b (plain p) p := fun _ => follows_plain p

theorem surveys_pure (x : α) : Surveys k b (pure x : Surveyor α) (pure x) :=
  fun _ => follows_of_idle rfl ⟨rfl, rfl⟩

/-- The bytes that the first step consumes are in no payload that the second one enters. -/
theorem surveys_bind (hp : Parser.Consumes m p) (hg : Surveys (k + m) b g p)
    (hf : ∀ a, Surveys k b (f a) (q a)) : Surveys (k + m) b (g >>= f) (p >>= q) := by
  intro v
  refine follows_bind (hg v) fun a t ht => (hf a t).mono ?_
  have hrest := hp _ _ _ ht
  omega

theorem surveys_next (hp : Parser.Sequential p) (hg : Surveys k b g p)
    (hf : ∀ a, Surveys k b (f a) (q a)) : Surveys k b (g >>= f) (p >>= q) :=
  surveys_bind hp.consumes hg hf

theorem follows_during (activity : Activity) (part : String)
    (h : Follows k n b v (g v) (p v.scan)) :
    Follows k n b v (during activity part g v) (during activity part p v.scan) := by
  obtain ⟨herased, hentered, hspent⟩ := h
  simp only [during, ← herased]
  revert hentered hspent
  cases g v with
  | ok a t => exact fun hentered hspent => ⟨rfl, hentered, hspent⟩
  | error e t => exact fun hentered hspent => ⟨rfl, hentered, hspent⟩

theorem surveys_during (activity : Activity) (part : String) (h : Surveys k b g p) :
    Surveys k b (during activity part g) (during activity part p) :=
  fun v => follows_during activity part (h v)

theorem surveys_items {item : Nat → Surveyor α} {item' : Nat → Parser α}
    (hs : ∀ i, Parser.Sequential (item' i)) (h : ∀ i, Surveys k b (item i) (item' i))
    (room n i : Nat) : Surveys k b (items room item n i) (items room item' n i) := by
  induction n generalizing i with
  | zero => exact surveys_pure []
  | succ n ih =>
    refine surveys_next (hs i) (h i) fun a => ?_
    exact surveys_next (Parser.sequential_items hs room n (i + 1)) (ih (i + 1)) fun as =>
      surveys_pure (a :: as)

theorem surveys_related (k b : Nat) :
    Parser.Related fun α (g : Surveyor α) (p : Parser α) =>
      Parser.Sequential p ∧ Surveys k b g p where
  pure x := ⟨Parser.sequential_pure x, surveys_pure x⟩
  bind hp hf := ⟨Parser.sequential_bind hp.1 fun a => (hf a).1,
    surveys_next hp.1 hp.2 fun a => (hf a).2⟩
  u1 part := ⟨Parser.sequential_u1 part, surveys_plain _⟩
  u2 part := ⟨Parser.sequential_u2 part, surveys_plain _⟩
  u4 part := ⟨Parser.sequential_u4 part, surveys_plain _⟩
  bytes activity part n := ⟨Parser.sequential_bytes activity part n, surveys_plain _⟩
  text part pool index := ⟨Parser.sequential_resolve part (pool.text index), surveys_plain _⟩
  offset := ⟨Parser.sequential_offset, surveys_plain _⟩
  diagnose d := ⟨Parser.sequential_diagnose d, surveys_plain _⟩
  refuse e _ := ⟨Parser.sequential_throw e, surveys_plain _⟩
  during activity part h :=
    ⟨Parser.sequential_during activity part h.1, surveys_during activity part h.2⟩
  items _ h := ⟨Parser.sequential_items (fun i => (h i).1) _ _ _,
    surveys_items (fun i => (h i).1) (fun i => (h i).2) _ _ _⟩

theorem follows_inside {payload : Bytes} (start : Nat) (h : Surveys 18 b g p)
    (hpayload : payload.length + k ≤ n) :
    Follows k n (b + 18) v (inside payload start g v) (inside payload start p v.scan) := by
  obtain ⟨herased, ⟨ds, hds, hsmall⟩, hspent⟩ :=
    h ⟨⟨⟨payload, start⟩, v.scan.diagnostics⟩, [], v.spent⟩
  have hshrinking : (Descent.into payload.length ds).Shrinking :=
    .into (fun d hd => (hsmall d hd).1) fun d hd => (hsmall d hd).2
  have hall : ∀ d ∈ [Descent.into payload.length ds], d.size + k ≤ n ∧ d.Shrinking := by
    intro d hd
    rw [List.mem_singleton.1 hd]
    exact ⟨hpayload, hshrinking⟩
  have hroom (hb : b + 18 ≤ payload.length + 8) : b + 18 + k ≤ n + 8 := by omega
  simp only [inside, ← herased]
  cases hr : g ⟨⟨⟨payload, start⟩, v.scan.diagnostics⟩, [], v.spent⟩ with
  | ok a t =>
    rw [hr] at hds hspent
    obtain rfl : t.descents = ds := hds
    exact ⟨rfl, ⟨_, rfl, hall⟩, fun ht => (hspent ht).imp_right hroom⟩
  | error e t =>
    rw [hr] at hds hspent
    obtain rfl : t.descents = ds := hds
    exact ⟨rfl, ⟨_, rfl, hall⟩, fun ht => (hspent ht).imp_right hroom⟩

section Attributes
variable {nested : Surveyor (List Attribute)} {nested' : Parser (List Attribute)}

/-- The attributes inside a Code payload come after ten other bytes of it. -/
theorem surveys_code (hs : Parser.Sequential nested') (h : Surveys k b nested nested')
    (nameIndex : UInt16) (payload : Bytes) (start : Nat) :
    Surveys (k + 10) b (Parser.code nested nameIndex payload start)
      (Parser.code nested' nameIndex payload start) := by
  refine surveys_bind (k := k + 8) (Parser.consumes_u2 _) (surveys_plain _) fun maxStack => ?_
  refine surveys_bind (k := k + 6) (Parser.consumes_u2 _) (surveys_plain _) fun maxLocals => ?_
  refine surveys_bind (k := k + 2) (Parser.consumes_u4 _) (surveys_plain _) fun codeLength => ?_
  by_cases hlong : payload.length < codeLength.toNat
  · rw [if_pos hlong, if_pos hlong]
    exact surveys_next Parser.sequential_offset (surveys_plain _) fun stop => surveys_plain _
  · rw [if_neg hlong, if_neg hlong]
    refine surveys_next (Parser.sequential_bytes _ _ _) (surveys_plain _) fun code => ?_
    refine surveys_bind (k := k) (Parser.consumes_u2 _) (surveys_plain _) fun exceptions => ?_
    refine surveys_next (Parser.sequential_bytes _ _ _) (surveys_plain _) fun _ => ?_
    refine surveys_next (Parser.sequential_during _ _ hs) (surveys_during _ _ h) fun as => ?_
    refine surveys_next Parser.sequential_offset (surveys_plain _) fun stop => ?_
    by_cases hlength : stop - start = payload.length
    · rw [if_pos hlength, if_pos hlength]
      exact surveys_pure _
    · rw [if_neg hlength, if_neg hlength]
      exact surveys_plain _

/-- A payload comes after six other bytes of its attribute. -/
theorem surveys_oneAttribute (hs : Parser.Sequential nested') (h : Surveys 8 b nested nested')
    (pool : Pool) (i : Nat) :
    Surveys 6 (b + 18) (Parser.oneAttribute nested pool i)
      (Parser.oneAttribute nested' pool i) := by
  intro v
  refine follows_bind (follows_plain _) fun nameIndex v₁ h₁ => ?_
  refine follows_bind (follows_plain _) fun length v₂ h₂ => ?_
  refine follows_bind (follows_plain _) fun start v₃ h₃ => ?_
  refine follows_bind (follows_plain _) fun payload v₄ h₄ => ?_
  refine follows_bind (follows_plain _) fun name v₅ _ => ?_
  by_cases hcode : name = utf8 "Code"
  · rw [if_pos hcode, if_pos hcode]
    refine follows_during _ _ (follows_inside start ?_ (Parser.payload_length_le h₁ h₂ h₃ h₄))
    exact surveys_code hs h nameIndex payload start
  · rw [if_neg hcode, if_neg hcode]
    exact follows_bind (follows_plain _) fun _ v₆ _ => follows_of_idle rfl ⟨rfl, rfl⟩

theorem surveys_attributes (pool : Pool) (depth : Nat) :
    Surveys 8 (18 * depth) (Parser.attributes pool depth) (Parser.attributes pool depth) := by
  induction depth with
  | zero =>
    -- no level is left, so the depth is used up and nothing is entered
    exact fun v => ⟨rfl, ⟨[], (List.append_nil _).symm, by simp⟩, fun _ => Or.inr (by simp)⟩
  | succ depth ih =>
    have hs := Parser.sequential_attributes pool depth
    refine surveys_bind (k := 6) (Parser.consumes_u2 _) (surveys_plain _) fun count => ?_
    exact surveys_items (Parser.sequential_oneAttribute _ pool) (surveys_oneAttribute hs ih pool)
      _ count.toNat 0

end Attributes

theorem surveys_classFile (want : UInt16) (depth : Nat) :
    Surveys 8 (18 * depth) (Parser.classFile want depth) (Parser.classFile want depth) := by
  obtain ⟨hs, hbody⟩ := (surveys_related 8 (18 * depth)).body want fun pool =>
    ⟨Parser.sequential_attributes pool depth, surveys_attributes pool depth⟩
  refine surveys_next hs hbody fun c v => ?_
  exact follows_bind (follows_plain _) fun _ t _ => follows_of_idle rfl ⟨rfl, rfl⟩

/-! What a survey keeps if all is read. -/

def Records (P : α → List Descent → Prop) (g : Surveyor α) : Prop :=
  ∀ v a t, g v = .ok a t → ∃ ds, t.descents = v.descents ++ ds ∧ P a ds

section Records
variable {P : α → List Descent → Prop} {Q : β → List Descent → Prop}

theorem records_pure {x : α} (h : P x []) : Records P (pure x : Surveyor α) := by
  intro v a t hr
  cases hr
  exact ⟨[], (List.append_nil _).symm, h⟩

theorem records_refuse (e : Error) : Records P (refuse e : Surveyor α) := by
  intro v a t hr
  cases hr

theorem records_bind (hg : Records P g)
    (hf : ∀ a ds, P a ds → Records (fun b more => Q b (ds ++ more)) (f a)) :
    Records Q (g >>= f) := by
  intro v b u hr
  obtain ⟨a, t, ha, hb⟩ := (bind_ok_iff g f v u b).1 hr
  obtain ⟨ds, hds, hP⟩ := hg v a t ha
  obtain ⟨more, hmore, hQ⟩ := hf a ds hP t b u hb
  exact ⟨ds ++ more, by rw [hmore, hds, List.append_assoc], hQ⟩

/-- A step that enters no payload. -/
abbrev Idle (g : Surveyor α) : Prop := Records (fun _ ds => ds = []) g

theorem records_idle (hg : Idle g) (hf : ∀ a, Records Q (f a)) : Records Q (g >>= f) :=
  records_bind hg fun a ds hds => by simpa [hds] using hf a

theorem idle_plain (p : Parser α) : Idle (plain p) := by
  intro v a t hr
  simp only [plain] at hr
  split at hr
  · cases hr
    exact ⟨[], (List.append_nil _).symm, rfl⟩
  · cases hr

theorem records_plain (p : Parser α) (hf : ∀ a, Records Q (f a)) : Records Q (plain p >>= f) :=
  records_idle (idle_plain p) hf

theorem records_during (activity : Activity) (part : String) (h : Records P g) :
    Records P (during activity part g) := by
  intro v a t hr
  simp only [during] at hr
  split at hr
  · rename_i hg
    cases hr
    exact h v a t hg
  · cases hr

theorem records_inside (payload : Bytes) (start : Nat) (h : Records P g) :
    Records (fun a ds => ∃ inner, P a inner ∧ ds = [.into payload.length inner])
      (inside payload start g) := by
  intro v a t hr
  simp only [inside] at hr
  split at hr
  · rename_i t' hg
    obtain ⟨inner, hinner, hP⟩ := h _ _ _ hg
    cases hr
    exact ⟨_, rfl, inner, hP, by rw [hinner]; rfl⟩
  · cases hr

theorem records_items {item : Nat → Surveyor α} (of : α → List Attribute)
    (h : ∀ i, Records (fun a => Descent.Traces (of a)) (item i)) (room n i : Nat) :
    Records (fun as => Descent.Traces (as.flatMap of)) (items room item n i) := by
  simp only [items]
  induction n generalizing i with
  | zero => exact records_pure .nil
  | succ n ih =>
    refine records_bind (h i) fun a ds hds => records_bind (ih (i + 1)) fun as more hmore => ?_
    refine records_pure ?_
    rw [List.append_nil, List.flatMap_cons]
    exact hds.append hmore

theorem idle_items {item : Nat → Surveyor α} (h : ∀ i, Idle (item i)) (room n i : Nat) :
    Idle (items room item n i) := by
  simp only [items]
  induction n generalizing i with
  | zero => exact records_pure rfl
  | succ n ih =>
    exact records_idle (h i) fun a => records_idle (ih (i + 1)) fun as => records_pure rfl

theorem idle_related : Parser.Related fun α (g _ : Surveyor α) => Idle g where
  pure _ := records_pure rfl
  bind hp hf := records_idle hp hf
  u1 _ := idle_plain _
  u2 _ := idle_plain _
  u4 _ := idle_plain _
  bytes _ _ _ := idle_plain _
  text _ _ _ := idle_plain _
  offset := idle_plain _
  diagnose _ := idle_plain _
  refuse e _ := records_refuse e
  during := records_during
  items _ h := idle_items h _ _ _

end Records

theorem records_code {nested : Surveyor (List Attribute)} (h : Records Descent.Traces nested)
    (nameIndex : UInt16) (payload : Bytes) (start : Nat) :
    Records (fun a inner => ∀ size, Descent.Traces [a] [.into size inner])
      (Parser.code nested nameIndex payload start) := by
  refine records_plain _ fun maxStack => records_plain _ fun maxLocals => ?_
  refine records_plain _ fun codeLength => ?_
  by_cases hlong : payload.length < codeLength.toNat
  · rw [if_pos hlong]
    exact records_plain _ fun stop => records_refuse _
  · rw [if_neg hlong]
    refine records_plain _ fun bytes => records_plain _ fun exceptions => ?_
    refine records_plain _ fun _ => ?_
    refine records_bind (records_during _ _ h) fun as inner hinner => records_plain _ fun stop => ?_
    by_cases hlength : stop - start = payload.length
    · rw [if_pos hlength]
      refine records_pure fun size => ?_
      rw [List.append_nil]
      exact hinner.code .nil
    · rw [if_neg hlength]
      exact records_refuse _

theorem records_oneAttribute {nested : Surveyor (List Attribute)}
    (h : Records Descent.Traces nested) (pool : Pool) (i : Nat) :
    Records (fun a => Descent.Traces [a]) (Parser.oneAttribute nested pool i) := by
  refine records_plain _ fun nameIndex => records_plain _ fun length => ?_
  refine records_plain _ fun start => records_plain _ fun payload => records_plain _ fun name => ?_
  by_cases hcode : name = utf8 "Code"
  · rw [if_pos hcode]
    intro v a t hr
    obtain ⟨ds, hds, inner, hinner, rfl⟩ := records_during _ _
      (records_inside payload start (records_code h nameIndex payload start)) v a t hr
    exact ⟨_, hds, hinner payload.length⟩
  · rw [if_neg hcode]
    exact records_plain _ fun _ => records_pure (.other .nil)

theorem records_attributes (pool : Pool) (depth : Nat) :
    Records Descent.Traces (Parser.attributes pool depth) := by
  induction depth with
  | zero =>
    intro v as t hr
    cases hr
  | succ depth ih =>
    refine records_plain _ fun count => ?_
    have hitems := records_items (fun a => [a]) (records_oneAttribute ih pool) count.toNat
      count.toNat 0
    simpa using hitems

theorem records_member (pool : Pool) (depth : Nat) :
    Records (fun m : Member => Descent.Traces m.attributes) (Parser.member pool depth) := by
  refine records_plain _ fun flags => records_plain _ fun nameIndex => ?_
  refine records_plain _ fun descriptorIndex => ?_
  refine records_bind (records_during _ _ (records_attributes pool depth)) fun as ds hds => ?_
  refine records_pure ?_
  rwa [List.append_nil]

theorem records_body (want : UInt16) (depth : Nat) :
    Records (fun c : ClassFile => Descent.Traces c.allAttributes) (Parser.body want depth) := by
  have hmembers (pool : Pool) (part : Nat → String) (n : Nat) :
      Records (fun ms => Descent.Traces (ms.flatMap Member.attributes))
        (items n (fun i => during .parsing (part i) (Parser.member pool depth)) n 0) :=
    records_items _ (fun i => records_during _ _ (records_member pool depth)) n n 0
  refine records_idle (idle_related.header want) fun version => records_plain _ fun count => ?_
  refine records_idle (records_during _ _ (idle_related.pool count)) fun pool => ?_
  refine records_plain _ fun flags => records_plain _ fun thisClass => ?_
  refine records_plain _ fun superClass => records_plain _ fun ni => ?_
  refine records_idle (idle_items (fun i => idle_plain _) _ _ _) fun is => ?_
  refine records_plain _ fun nf => records_bind (hmembers pool _ _) fun fields ds hfields => ?_
  refine records_plain _ fun nm => records_bind (hmembers pool _ _) fun methods ds' hmethods => ?_
  refine records_bind (records_during _ _ (records_attributes pool depth)) fun as ds'' has => ?_
  refine records_pure ?_
  rw [List.append_nil]
  exact hfields.append (hmethods.append has)

theorem records_classFile (want : UInt16) (depth : Nat) :
    Records (fun c : ClassFile => Descent.Traces c.allAttributes)
      (Parser.classFile want depth) := by
  refine records_bind (records_body want depth) fun c ds hds => records_plain _ fun _ => ?_
  refine records_pure ?_
  rwa [List.append_nil]

end Surveyor

/-- More depth than there are bytes for changes nothing. -/
theorem parseTo_eq_of_le {d d' : Nat} {data : Bytes} (want : UInt16)
    (hdata : data.length < 18 * d) (h : d ≤ d') : parseTo d' want data = parseTo d want data := by
  have hbody := Parser.agree_body want h { cursor := ⟨data, 0⟩ } hdata
  have hfile : (Parser.classFile want d' : Parser ClassFile) { cursor := ⟨data, 0⟩ } =
      (Parser.classFile want d : Parser ClassFile) { cursor := ⟨data, 0⟩ } :=
    bind_of_eq hbody.symm _
  rw [parseTo, parseTo, hfile]

/-- A survey comes to what the parser comes to. The payloads that are entered become at least
eighteen bytes shorter from each to the next, so that the depth is never used up and more makes no
difference. -/
theorem nesting_bounded (want : UInt16) (data : Bytes) :
    let start : Scan := { cursor := ⟨data, 0⟩ }
    let survey (depth : Nat) := (Parser.classFile want depth : Surveyor ClassFile) { scan := start }
    let levels := data.length / 18 + 1
    (∀ depth,
      Surveyor.erase (survey depth) = (Parser.classFile want depth : Parser ClassFile) start ∧
      (∀ c v, survey depth = .ok c v → Descent.Traces c.allAttributes v.descents) ∧
      ∀ d ∈ (final (survey depth)).descents, d.Shrinking ∧ d.levels ≤ levels) ∧
    ∀ more, (final (survey (levels + more))).spent = false ∧
      parseTo (levels + more) want data = parse want data := by
  intro start survey levels
  have hlevels : data.length < 18 * levels := by omega
  refine ⟨fun depth => ?_, fun more => ⟨?_, ?_⟩⟩
  · obtain ⟨herased, ⟨ds, hds, hsmall⟩, -⟩ :=
      Surveyor.surveys_classFile want depth { scan := start }
    refine ⟨herased, fun c v hr => ?_, fun d hd => ?_⟩
    · obtain ⟨traced, htraced, htraces⟩ := Surveyor.records_classFile want depth _ c v hr
      rwa [htraced]
    · rw [hds] at hd
      obtain ⟨hsize, hshrinking⟩ := hsmall d hd
      have hsize : d.size ≤ data.length := Nat.le_of_add_right_le hsize
      refine ⟨hshrinking, Nat.le_trans hshrinking.levels_le ?_⟩
      exact Nat.succ_le_succ (Nat.div_le_div_right hsize)
  · have hspent := (Surveyor.surveys_classFile want (levels + more) { scan := start }).spent
    refine Bool.eq_false_iff.2 fun htrue => ?_
    obtain hnever | hroom := hspent htrue
    · cases hnever
    · have hroom : 18 * (levels + more) ≤ data.length := Nat.le_of_add_le_add_right hroom
      omega
  · have hparse : parse want data = parseTo levels want data :=
      parseTo_eq_of_le want hlevels (Nat.le_succ levels)
    rw [hparse]
    exact parseTo_eq_of_le want hlevels (Nat.le_add_right levels more)

/-- A payload of thirty bytes in which there is nothing but one of twelve. -/
example : (final ((Parser.attributes { count := 2, entries := [.utf8 (utf8 "Code")] } 9 :
    Surveyor (List Attribute)) { scan := { cursor := ⟨[0, 1, 0, 1, 0, 0, 0, 30] ++
      List.replicate 10 0 ++ [0, 1, 0, 1, 0, 0, 0, 12] ++ List.replicate 12 0, 0⟩ } })).descents =
    [.into 30 [.into 12 []]] := by
  cbv

end ClassMachine.ClassFile
