import ClassMachine.Proofs.ClassFile.Grammar
import ClassMachine.Proofs.ClassFile.Steps

/-! What happens to a class file that is cut off or that goes on. Reading a part depends on the bytes
that it consumes and on nothing behind them, and a cut inside these bytes is found by the read that
it falls into (`Sequential`). A Code payload is entered only when all its bytes are there, so a cut
file never gets deeper than it has room for (`agree_body`). Main statement: there is exactly one
place where a class ends. -/
namespace ClassMachine.ClassFile

def Error.EndedAt (e : Error) (stop : Nat) : Prop :=
  e.malformed = false ∧ ∃ t, e.truncation? = some t ∧ t.offset + t.got = stop ∧ t.got < t.need

def Scan.facing (s : Scan) (rest : Bytes) : Scan := { s with cursor := ⟨rest, s.cursor.offset⟩ }

theorem Error.classify_of_endedAt {e : Error} {stop : Nat} (h : e.EndedAt stop) :
    ∃ t, e.classify = .truncatedStream t.offset e ∧ e.truncation? = some t ∧
      t.offset + t.got = stop ∧ t.got < t.need := by
  obtain ⟨hmalformed, t, ht, hstop, hneed⟩ := h
  exact ⟨t, by rw [classify, ht, hmalformed], ht, hstop, hneed⟩

namespace Parser
open Fallible Reading
variable {α β : Type} {p q : Parser α} {f g : α → Parser β}

/-- What a successful step consumes decides about it: it does the same whatever comes behind, and
if some of it is missing the step finds the end of the input. -/
def Sequential (p : Parser α) : Prop :=
  ∀ s a s', p s = .ok a s' → ∃ b, s.cursor.Passes b s'.cursor ∧
    (∀ rest, p (s.facing (b ++ rest)) = .ok a (s'.facing rest)) ∧
    ∀ kept missing, b = kept ++ missing → missing ≠ [] →
      ∃ e t, p (s.facing kept) = .error e t ∧ e.EndedAt (s.cursor.offset + kept.length)

theorem sequential_of_idle
    (h : ∀ s a s', p s = .ok a s' → s'.cursor = s.cursor ∧
      ∀ rest, p (s.facing rest) = .ok a (s'.facing rest)) : Sequential p := by
  intro s a s' hp
  obtain ⟨hcursor, hrest⟩ := h s a s' hp
  refine ⟨[], ⟨by rw [hcursor]; rfl, by rw [hcursor]; rfl⟩, hrest, ?_⟩
  intro kept missing hnil hmissing
  exact absurd (List.append_eq_nil_iff.1 hnil.symm).2 hmissing

theorem sequential_pure (a : α) : Sequential (pure a) := by
  refine sequential_of_idle fun s b s' h => ?_
  obtain ⟨rfl, rfl⟩ := (pure_ok_iff a b s s').1 h
  exact ⟨rfl, fun rest => rfl⟩

theorem sequential_throw (e : Error) : Sequential (throw e : Parser α) := by
  intro s a s' h
  exact ((throw_ok_iff e a s s').1 h).elim

theorem sequential_offset : Sequential offset := by
  refine sequential_of_idle fun s n s' h => ?_
  obtain ⟨rfl, rfl⟩ := (offset_ok_iff s s' n).1 h
  exact ⟨rfl, fun rest => rfl⟩

theorem sequential_diagnose (d : Diagnostic) : Sequential (diagnose d) := by
  refine sequential_of_idle fun s u s' h => ?_
  cases h
  exact ⟨rfl, fun rest => rfl⟩

theorem sequential_resolve (part : String) (x : Except Error α) : Sequential (resolve part x) := by
  cases x with
  | ok a => exact sequential_pure a
  | error e => exact sequential_throw _

theorem sequential_inside (payload : Bytes) (start : Nat) (p : Parser α) :
    Sequential (inside payload start p) := by
  refine sequential_of_idle fun s a s' h => ?_
  obtain ⟨t, ht, rfl⟩ := (inside_ok_iff payload start p s s' a).1 h
  refine ⟨rfl, fun rest => (inside_ok_iff _ _ _ _ _ _).2 ⟨t, ht, rfl⟩⟩

theorem sequential_during (activity : Activity) (part : String) (h : Sequential p) :
    Sequential (during activity part p) := by
  intro s a s' hp
  obtain ⟨b, hpasses, hrest, hcut⟩ := h s a s' ((during_ok_iff ..).1 hp)
  refine ⟨b, hpasses, fun rest => (during_ok_iff ..).2 (hrest rest), ?_⟩
  intro kept missing hb hmissing
  obtain ⟨e, t, he, hended⟩ := hcut kept missing hb hmissing
  exact ⟨.during activity part e, t, by simp only [during, he], hended⟩

/-- Of two steps the second one sees the cut, if the first one does not. -/
theorem sequential_bind (hp : Sequential p) (hf : ∀ a, Sequential (f a)) :
    Sequential (p >>= f) := by
  intro s c s'' h
  obtain ⟨a, s', ha, hc⟩ := (bind_ok_iff p f s s'' c).1 h
  obtain ⟨b, ⟨hbytes, hoffset⟩, hrest, hcut⟩ := hp s a s' ha
  obtain ⟨b', ⟨hbytes', hoffset'⟩, hrest', hcut'⟩ := hf a s' c s'' hc
  refine ⟨b ++ b', ⟨?_, ?_⟩, fun rest => ?_, ?_⟩
  · rw [hbytes, hbytes', List.append_assoc]
  · rw [hoffset', hoffset, List.length_append, Nat.add_assoc]
  · rw [List.append_assoc, bind_of_ok (hrest (b' ++ rest)), hrest']
  · intro kept missing hsum hmissing
    rcases List.append_eq_append_iff.1 hsum with ⟨more, hkept, hmore⟩ | ⟨more, hb, hmore⟩
    · obtain ⟨e, t, he, hended⟩ := hcut' more missing hmore hmissing
      refine ⟨e, t, ?_, ?_⟩
      · rw [hkept, bind_of_ok (hrest more)]
        exact he
      · rwa [hoffset, Nat.add_assoc, ← List.length_append, ← hkept] at hended
    · cases more with
      | nil =>
        -- the cut falls between the two steps, and the second one finds nothing
        rw [List.append_nil] at hb
        rw [List.nil_append] at hmore
        obtain ⟨e, t, he, hended⟩ := hcut' [] b' rfl (hmore ▸ hmissing)
        refine ⟨e, t, ?_, ?_⟩
        · have hfirst := hrest []
          rw [List.append_nil, hb] at hfirst
          rw [bind_of_ok hfirst]
          exact he
        · rwa [hoffset, hb] at hended
      | cons x more =>
        obtain ⟨e, t, he, hended⟩ := hcut kept (x :: more) hb (List.cons_ne_nil x more)
        exact ⟨e, t, bind_of_error he f, hended⟩

theorem sequential_items {item : Nat → Parser α} (h : ∀ i, Sequential (item i)) (room n i : Nat) :
    Sequential (items room item n i) := by
  simp only [items]
  induction n generalizing i with
  | zero => exact sequential_pure []
  | succ n ih =>
    exact sequential_bind (h i) fun a => sequential_bind (ih (i + 1)) fun as =>
      sequential_pure (a :: as)

/-- A read looks at the bytes that it takes and at no others. -/
theorem sequential_taking (activity : Activity) (part : String) (n : Nat) (f : Bytes → α) :
    Sequential (field activity part (Cursor.taking n f)) := by
  intro s a s' h
  obtain ⟨hr, hnotes⟩ := (field_ok_iff activity part (Cursor.taking n f) s s' a).1 h
  obtain ⟨b, hlen, hpasses, hf⟩ := (Cursor.taking_ok_iff n f s.cursor s'.cursor a).1 hr
  refine ⟨b, hpasses, fun rest => ?_, ?_⟩
  · have hrest : Cursor.taking n f ⟨b ++ rest, s.cursor.offset⟩ =
        .ok a ⟨rest, s'.cursor.offset⟩ :=
      (Cursor.taking_ok_iff ..).2 ⟨b, hlen, ⟨rfl, hpasses.2⟩, hf⟩
    exact (field_ok_iff ..).2 ⟨hrest, hnotes⟩
  · intro kept missing hb hmissing
    have hlt : kept.length < n := by
      have := List.length_pos_iff.2 hmissing
      rw [← hlen, hb, List.length_append]
      omega
    refine ⟨_, _, by rw [field, Cursor.taking_of_lt hlt]; rfl, rfl, _, rfl, rfl, hlt⟩

theorem sequential_u1 (part : String) : Sequential (u1 part) := by
  simp only [u1, Cursor.u1_eq_taking]
  exact sequential_taking _ part _ _

theorem sequential_u2 (part : String) : Sequential (u2 part) := by
  simp only [u2, Cursor.u2_eq_taking]
  exact sequential_taking _ part _ _

theorem sequential_u4 (part : String) : Sequential (u4 part) := by
  simp only [u4, Cursor.u4_eq_taking]
  exact sequential_taking _ part _ _

theorem sequential_bytes (activity : Activity) (part : String) (n : Nat) :
    Sequential (bytes activity part n) := by
  simp only [bytes, Cursor.take_eq_taking]
  exact sequential_taking _ part _ _

/-! The parts of a class file. -/

theorem sequential_related : Related fun α (p _ : Parser α) => Sequential p where
  pure := sequential_pure
  bind := sequential_bind
  u1 := sequential_u1
  u2 := sequential_u2
  u4 := sequential_u4
  bytes := sequential_bytes
  text part pool index := sequential_resolve part (pool.text index)
  offset := sequential_offset
  diagnose := sequential_diagnose
  refuse e _ := sequential_throw e
  during := sequential_during
  items _ h := sequential_items h _ _ _

/-- Whatever reads the attributes inside a Code payload, the bytes of the file are read before. -/
theorem sequential_oneAttribute (nested : Parser (List Attribute)) (pool : Pool) (i : Nat) :
    Sequential (oneAttribute nested pool i) :=
  sequential_related.oneAttribute (q := nested)
    (fun _ payload start => sequential_during _ _ (sequential_inside payload start _)) pool i

theorem sequential_attributes (pool : Pool) (depth : Nat) : Sequential (attributes pool depth) := by
  cases depth with
  | zero => exact sequential_throw .tooDeep
  | succ depth =>
    exact sequential_related.attributes (e := depth) pool (sequential_oneAttribute _ pool)

theorem sequential_body (want : UInt16) (depth : Nat) : Sequential (body want depth) :=
  sequential_related.body (e := depth) want fun pool => sequential_attributes pool depth

/-! The depth to which attributes are read. -/

def Consumes (n : Nat) (p : Parser α) : Prop :=
  ∀ s a s', p s = .ok a s' → s'.cursor.rest.length + n ≤ s.cursor.rest.length

theorem Sequential.consumes (h : Sequential p) : Consumes 0 p := by
  intro s a s' hp
  obtain ⟨b, ⟨hbytes, -⟩, -⟩ := h s a s' hp
  rw [hbytes, List.length_append]
  omega

theorem consumes_of_passes {n : Nat} (h : ∀ s a s', p s = .ok a s' →
    ∃ b, b.length = n ∧ s.Passes b [] s') : Consumes n p := by
  intro s a s' hp
  obtain ⟨b, hlen, ⟨hbytes, -⟩, -⟩ := h s a s' hp
  rw [hbytes, List.length_append]
  omega

theorem consumes_u2 (part : String) : Consumes 2 (u2 part) :=
  consumes_of_passes fun s n s' h => ⟨Bytes.u2 n, rfl, (u2_ok_iff part s s' n).1 h⟩

theorem consumes_u4 (part : String) : Consumes 4 (u4 part) :=
  consumes_of_passes fun s n s' h => ⟨Bytes.u4 n, rfl, (u4_ok_iff part s s' n).1 h⟩

def Agree (n : Nat) (p q : Parser α) : Prop := ∀ s, s.cursor.rest.length < n → p s = q s

theorem agree_refl (n : Nat) (p : Parser α) : Agree n p p := fun _ _ => rfl

theorem agree_during {n : Nat} (activity : Activity) (part : String) (h : Agree n p q) :
    Agree n (during activity part p) (during activity part q) := by
  intro s hs
  simp only [during, h s hs]

/-- What the first step consumes is not there for the second one. -/
theorem agree_bind {m n : Nat} (hp : Consumes m p) (hpq : Agree (n + m) p q)
    (hfg : ∀ a, Agree n (f a) (g a)) : Agree (n + m) (p >>= f) (q >>= g) := by
  intro s hs
  cases hr : p s with
  | error e t => rw [bind_of_error hr, bind_of_error (hpq s hs ▸ hr)]
  | ok a t =>
    rw [bind_of_ok hr, bind_of_ok (hpq s hs ▸ hr)]
    have hlen := hp s a t hr
    exact hfg a t (by omega)

theorem agree_next {n : Nat} (hp : Sequential p) (hpq : Agree n p q)
    (hfg : ∀ a, Agree n (f a) (g a)) : Agree n (p >>= f) (q >>= g) :=
  agree_bind hp.consumes hpq hfg

theorem agree_items {item item' : Nat → Parser α} {n : Nat} (hs : ∀ i, Sequential (item i))
    (h : ∀ i, Agree n (item i) (item' i)) (room k i : Nat) :
    Agree n (items room item k i) (items room item' k i) := by
  induction k generalizing i with
  | zero => exact agree_refl n _
  | succ k ih =>
    refine agree_next (hs i) (h i) fun a => ?_
    exact agree_next (sequential_items hs room k (i + 1)) (ih (i + 1)) fun as => agree_refl n _

theorem agree_related (n : Nat) : Related fun α (p q : Parser α) => Sequential p ∧ Agree n p q where
  pure x := ⟨sequential_pure x, agree_refl n _⟩
  bind hp hf := ⟨sequential_bind hp.1 fun a => (hf a).1, agree_next hp.1 hp.2 fun a => (hf a).2⟩
  u1 part := ⟨sequential_u1 part, agree_refl n _⟩
  u2 part := ⟨sequential_u2 part, agree_refl n _⟩
  u4 part := ⟨sequential_u4 part, agree_refl n _⟩
  bytes activity part m := ⟨sequential_bytes activity part m, agree_refl n _⟩
  text part pool index := ⟨sequential_resolve part (pool.text index), agree_refl n _⟩
  offset := ⟨sequential_offset, agree_refl n _⟩
  diagnose d := ⟨sequential_diagnose d, agree_refl n _⟩
  refuse e _ := ⟨sequential_throw e, agree_refl n _⟩
  during activity part h :=
    ⟨sequential_during activity part h.1, agree_during activity part h.2⟩
  items _ h := ⟨sequential_items (fun i => (h i).1) _ _ _,
    agree_items (fun i => (h i).1) (fun i => (h i).2) _ _ _⟩

section Depth
variable {nested nested' : Parser (List Attribute)} {n : Nat}

theorem agree_code (hn : Sequential nested) (h : Agree n nested nested') (nameIndex : UInt16)
    (payload : Bytes) (start : Nat) :
    Agree (n + 10) (code nested nameIndex payload start) (code nested' nameIndex payload start) := by
  refine agree_bind (n := n + 8) (consumes_u2 _) (agree_refl _ _) fun maxStack => ?_
  refine agree_bind (n := n + 6) (consumes_u2 _) (agree_refl _ _) fun maxLocals => ?_
  refine agree_bind (n := n + 2) (consumes_u4 _) (agree_refl _ _) fun codeLength => ?_
  by_cases hlong : payload.length < codeLength.toNat
  · rw [if_pos hlong, if_pos hlong]
    exact agree_refl _ _
  · rw [if_neg hlong, if_neg hlong]
    refine agree_next (sequential_bytes _ _ _) (agree_refl _ _) fun bytes => ?_
    refine agree_bind (n := n) (consumes_u2 _) (agree_refl _ _) fun exceptions => ?_
    refine agree_next (sequential_bytes _ _ _) (agree_refl _ _) fun _ => ?_
    exact agree_next (sequential_during _ _ hn) (agree_during _ _ h) fun as => agree_refl _ _

/-- A payload comes after six other bytes of its attribute. -/
theorem payload_length_le {part part' part'' : String} {s t₁ t₂ t₃ t₄ : Scan} {nameIndex : UInt16}
    {length : UInt32} {start m : Nat} {payload : Bytes}
    (h₁ : (u2 part : Parser UInt16) s = .ok nameIndex t₁)
    (h₂ : (u4 part' : Parser UInt32) t₁ = .ok length t₂)
    (h₃ : (offset : Parser Nat) t₂ = .ok start t₃)
    (h₄ : (bytes .reading part'' m : Parser Bytes) t₃ = .ok payload t₄) :
    payload.length + 6 ≤ s.cursor.rest.length := by
  have h₁ := consumes_u2 _ s nameIndex t₁ h₁
  have h₂ := consumes_u4 _ t₁ length t₂ h₂
  obtain ⟨-, rfl⟩ := (offset_ok_iff t₂ t₃ start).1 h₃
  obtain ⟨-, ⟨hbytes, -⟩, -⟩ := (bytes_ok_iff _ _ _ t₂ t₄ payload).1 h₄
  have hlen := congrArg List.length hbytes
  rw [List.length_append] at hlen
  omega

theorem agree_oneAttribute (hn : Sequential nested) (h : Agree n nested nested') (pool : Pool)
    (i : Nat) : Agree (n + 16) (oneAttribute nested pool i) (oneAttribute nested' pool i) := by
  intro s hs
  refine bind_congr_ok fun nameIndex t₁ h₁ => bind_congr_ok fun length t₂ h₂ => ?_
  refine bind_congr_ok fun start t₃ h₃ => bind_congr_ok fun payload t₄ h₄ => ?_
  refine bind_congr_ok fun name t₅ _ => ?_
  by_cases hcode : name = utf8 "Code"
  · rw [if_pos hcode, if_pos hcode]
    have hpayload := payload_length_le h₁ h₂ h₃ h₄
    have hinside := agree_code hn h nameIndex payload start ⟨⟨payload, start⟩, t₅.diagnostics⟩
      (by dsimp only; omega)
    simp only [during, inside, hinside]
  · rw [if_neg hcode, if_neg hcode]

/-- A level of attributes takes eighteen bytes, so more depth is of no use to short inputs. -/
theorem agree_attributes (pool : Pool) {d d' : Nat} (h : d ≤ d') :
    Agree (18 * d) (attributes pool d) (attributes pool d') := by
  induction d generalizing d' with
  | zero =>
    intro s hs
    exact absurd hs (Nat.not_lt_zero _)
  | succ d ih =>
    obtain ⟨d', rfl⟩ : ∃ k, d' = k + 1 := ⟨d' - 1, by omega⟩
    have hnested := ih (Nat.le_of_succ_le_succ h)
    refine agree_bind (n := 18 * d + 16) (consumes_u2 _) (agree_refl _ _) fun count => ?_
    exact agree_items (sequential_oneAttribute _ pool)
      (agree_oneAttribute (sequential_attributes pool d) hnested pool) _ _ 0

/-- No class file is read differently because of a greater depth than it has room for. -/
theorem agree_body (want : UInt16) {d d' : Nat} (h : d ≤ d') :
    Agree (18 * d) (body want d) (body want d') :=
  ((agree_related (18 * d)).body want fun pool =>
    ⟨sequential_attributes pool d, agree_attributes pool h⟩).2

end Depth

end Parser

theorem lt_depthFor (n : Nat) : n < 18 * depthFor n := by
  rw [depthFor]
  omega

theorem depthFor_le {m n : Nat} (h : m ≤ n) : depthFor m ≤ depthFor n := by
  have hdiv : m / 18 ≤ n / 18 := Nat.div_le_div_right h
  rw [depthFor, depthFor]
  omega

/-- A class file that is cut off is refused by the read that the cut falls into. -/
theorem parse_cut {want : UInt16} {c : ClassFile} {t : Tables} (hwf : c.WellFormed want t)
    {kept missing : Bytes} (hcut : c.layout t = kept ++ missing) (hmissing : missing ≠ []) :
    ∃ e u ds, parse want kept = (.error (.truncatedStream u.offset e), ds) ∧
      e.truncation? = some u ∧ u.offset + u.got = kept.length ∧ u.got < u.need := by
  let whole : Scan := { cursor := ⟨c.layout t, 0⟩ }
  let depth := depthFor (c.layout t).length
  have hbody : (Parser.body want depth : Parser ClassFile) whole =
      .ok c ⟨⟨[], (c.layout t).length⟩, c.notes t 0⟩ := by
    refine (Parser.body_ok_iff ..).2 ⟨shallow_of_length_le c t _ (Nat.le_refl _), t, hwf, ?_⟩
    exact ⟨⟨(List.append_nil _).symm, (Nat.zero_add _).symm⟩, rfl⟩
  obtain ⟨b, ⟨hb, -⟩, -, hshort⟩ := Parser.sequential_body want depth whole _ _ hbody
  have hbytes : b = kept ++ missing := by
    rw [← hcut]
    exact (List.append_nil b).symm.trans hb.symm
  obtain ⟨e, s, he, hended⟩ := hshort kept missing hbytes hmissing
  -- the cut file is read to a smaller depth, which makes no difference
  have hle : depthFor kept.length ≤ depth := depthFor_le (by rw [hcut, List.length_append]; omega)
  have hagree := Parser.agree_body want hle (whole.facing kept) (lt_depthFor kept.length)
  rw [he] at hagree
  obtain ⟨u, hclassify, htrunc, hstop, hneed⟩ := Error.classify_of_endedAt hended
  refine ⟨e, u, s.diagnostics, ?_, htrunc, by rw [hstop]; exact Nat.zero_add _, hneed⟩
  have hfile : (Parser.classFile want (depthFor kept.length) : Parser ClassFile)
      { cursor := ⟨kept, 0⟩ } = .error e s := Fallible.bind_of_error hagree _
  rw [parse, parseTo, hfile]
  simp only [hclassify]

/-- The class in an input ends at `stop`: if less is kept, the read that runs into the end says so,
and whatever is put behind it is noted and changes nothing else. -/
structure EndsAt (want : UInt16) (data : Bytes) (stop : Nat) : Prop where
  cut : ∀ n < stop, ∃ e t ds, parse want (data.take n) = (.error (.truncatedStream t.offset e), ds) ∧
    e.truncation? = some t ∧ t.offset + t.got = n ∧ t.got < t.need
  extended : ∃ c ds, parse want (data.take stop) = (.ok c, ds) ∧
    ∀ ext, parse want (data.take stop ++ ext) =
      (.ok c, ds ++ if ext = [] then [] else [.trailingData (stop + 1)])

theorem EndsAt.not_lt {want : UInt16} {data : Bytes} {m n : Nat} (hm : EndsAt want data m)
    (hn : EndsAt want data n) : ¬ m < n := by
  intro hlt
  obtain ⟨e, t, ds, hcut, -⟩ := hn.cut m hlt
  obtain ⟨c, ds', hwhole, -⟩ := hm.extended
  rw [hcut] at hwhole
  cases hwhole

/-- In an input that is read there is exactly one place where the class ends, and it is the end of
its layout. -/
theorem exists_unique_end (want : UInt16) (data : Bytes) (c : ClassFile)
    (h : (parse want data).1 = .ok c) :
    ∃ stop ≤ data.length, (∃ tables, c.WellFormed want tables ∧ data.take stop = c.layout tables) ∧
      EndsAt want data stop ∧ ∀ other, EndsAt want data other → other = stop := by
  obtain ⟨t, trailing, hwf, rfl, -⟩ :=
    (parse_eq_iff want data c (parse want data).2).1 (Prod.ext h rfl)
  have htake : (c.layout t ++ trailing).take (c.layout t).length = c.layout t := List.take_left' rfl
  have hends : EndsAt want (c.layout t ++ trailing) (c.layout t).length := by
    constructor
    · intro n hn
      have hsplit := List.take_append_drop n (c.layout t)
      have hkept : ((c.layout t).take n).length = n := List.length_take_of_le (Nat.le_of_lt hn)
      obtain ⟨e, u, ds, hcut⟩ := parse_cut hwf hsplit.symm (by simpa using hn)
      rw [hkept] at hcut
      refine ⟨e, u, ds, ?_⟩
      rwa [List.take_append_of_le_length (Nat.le_of_lt hn)]
    · rw [htake]
      refine ⟨c, c.notes t 0, ?_, fun ext => ?_⟩
      · exact (parse_eq_iff ..).2 ⟨t, [], hwf, (List.append_nil _).symm, (List.append_nil _).symm⟩
      · exact (parse_eq_iff ..).2 ⟨t, ext, hwf, rfl, rfl⟩
  refine ⟨(c.layout t).length, by simp, ⟨t, hwf, htake⟩, hends, fun other hother => ?_⟩
  exact Nat.le_antisymm (Nat.not_lt.1 (hends.not_lt hother)) (Nat.not_lt.1 (hother.not_lt hends))

def oneMethod : ClassFile :=
  { major := 50, pool := { count := 2, entries := [.utf8 (utf8 "Code")] },
    methods := [{ flags := ⟨9⟩, nameIndex := 1, descriptorIndex := 1,
                  attributes := [.code 1 0 0 [0xB1] []] }] }

theorem length_blankEntry : (List.replicate 8 0 : Bytes).length = 8 := rfl

def oneMethodTables : Tables :=
  { methods := [[{ entries := [⟨List.replicate 8 0, length_blankEntry⟩] }]] }

theorem oneMethod_wellFormed : oneMethod.WellFormed 50 oneMethodTables := by
  have hname : oneMethod.pool.text 1 = .ok (utf8 "Code") := rfl
  have hattribute : Attribute.AllFit oneMethod.pool [.code 1 0 0 [0xB1] []]
      [{ entries := [⟨List.replicate 8 0, rfl⟩] }] :=
    ⟨⟨hname, by decide, by decide, by decide, by decide, trivial⟩, trivial⟩
  refine ⟨rfl, rfl, ?_, by decide, ⟨by decide, trivial⟩, ⟨by decide, ?_⟩, ⟨by decide, trivial⟩⟩
  · intro k hk
    rw [List.mem_singleton.1 hk]
    exact (by decide : (utf8 "Code").length < 2 ^ 16)
  · exact ⟨⟨by decide, hattribute⟩, trivial⟩

/-- One byte too many does not hide where the class ends. -/
theorem oneMethod_ends_once :
    (parse 50 (oneMethod.layout oneMethodTables ++ [0xFF])).1 = .ok oneMethod ∧
    ∃ stop, EndsAt 50 (oneMethod.layout oneMethodTables ++ [0xFF]) stop ∧
      ∀ other, EndsAt 50 (oneMethod.layout oneMethodTables ++ [0xFF]) other → other = stop := by
  have hread : (parse 50 (oneMethod.layout oneMethodTables ++ [0xFF])).1 = .ok oneMethod := by
    rw [(parse_eq_iff 50 _ oneMethod _).2 ⟨oneMethodTables, [0xFF], oneMethod_wellFormed, rfl, rfl⟩]
  obtain ⟨stop, -, -, hends, hunique⟩ := exists_unique_end 50 _ oneMethod hread
  exact ⟨hread, stop, hends, hunique⟩

end ClassMachine.ClassFile
