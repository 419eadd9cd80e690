import ClassMachine.Proofs.ClassFile.Steps
import ClassMachine.Proofs.Indexing

/-! Class files, with arrays that are indexed. -/
namespace ClassMachine.Indexing
open ClassFile (Error)
variable {α : Type}

section Pool
variable (p : Pool) (index : UInt16)

/-- The pool as an array. There is nothing at index 0, and a pool that declares no entries is
empty. -/
def slots : List (Option Constant) :=
  if p.count = 0 ∧ p.entries.isEmpty then [] else none :: p.entries.map some

def kindAt : Option Kind :=
  if (slots p).length ≤ index.toNat then some .none
  else do
    match ← at? (slots p) index.toNat with
    | none => some .none
    | some c => some c.kind

instance : LookUp (OptionT (Except Error)) where
  fetch p index kind content :=
    if index = 0 ∨ (slots p).length ≤ index.toNat then fail (.unresolved index kind .none)
    else do
      match ← within (at? (slots p) index.toNat) with
      | none => fail (.unresolved index kind .none)
      | some c =>
        match content c with
        | some a => pure a
        | none => fail (.unresolved index kind c.kind)
  kindAt p index := within (kindAt p index)
  resolving part x := refailing (.during .resolving part) x

variable {p index}

theorem slots_getElem? (h : index.toNat < (slots p).length) :
    (slots p)[index.toNat]? = some (p.get? index) := by
  rw [slots] at h ⊢
  split at h
  · exact absurd h (Nat.not_lt_zero _)
  · rename_i hne
    rw [if_neg hne, Pool.get?]
    by_cases hzero : index = 0
    · rw [if_pos hzero, hzero]
      rfl
    · have hpos : index.toNat = index.toNat - 1 + 1 := by
        have : index.toNat ≠ 0 := fun h0 => hzero (UInt16.toNat_inj.1 h0)
        omega
      rw [List.length_cons, List.length_map] at h
      rw [if_neg hzero, hpos, List.getElem?_cons_succ, Nat.add_sub_cancel, List.getElem?_map,
        List.getElem?_eq_getElem (by omega)]
      rfl

theorem get?_of_slots_le (h : (slots p).length ≤ index.toNat) : p.get? index = none := by
  rw [Pool.get?]
  split
  · rfl
  · rename_i hzero
    apply List.getElem?_eq_none
    rw [slots] at h
    split at h
    · rename_i hempty
      rw [List.isEmpty_iff.1 hempty.2]
      exact Nat.zero_le _
    · rw [List.length_cons, List.length_map] at h
      omega

theorem agrees_fetch (kind : Kind) (content : Constant → Option α) :
    Agrees (LookUp.fetch p index kind content : OptionT (Except Error) α)
      (LookUp.fetch p index kind content) := by
  have hnone (h : p.get? index = none) :
      (LookUp.fetch p index kind content : Except Error α) =
        throw (.unresolved index kind .none) := by
    simp only [LookUp.fetch, Pool.unresolved, Pool.kindAt, h]
    rfl
  by_cases hout : index = 0 ∨ (slots p).length ≤ index.toNat
  · have hget : p.get? index = none := by
      obtain rfl | hle := hout
      · rfl
      · exact get?_of_slots_le hle
    rw [hnone hget]
    simp only [LookUp.fetch, if_pos hout]
    exact agrees_fail _
  · have hlt : index.toNat < (slots p).length := by omega
    have hslot := (at?_natCast _ _).trans (slots_getElem? hlt)
    cases hget : p.get? index with
    | none =>
      rw [hnone hget]
      simp only [LookUp.fetch, if_neg hout, within_some hslot, hget]
      exact agrees_fail _
    | some c =>
      simp only [LookUp.fetch, if_neg hout, within_some hslot, hget, Option.bind_some]
      cases content c with
      | some a => exact agrees_pure a
      | none =>
        simp only [Pool.unresolved, Pool.kindAt, hget]
        exact agrees_fail _

theorem kindAt_eq : kindAt p index = some (p.kindAt index) := by
  rw [kindAt]
  by_cases hout : (slots p).length ≤ index.toNat
  · rw [if_pos hout, Pool.kindAt, get?_of_slots_le hout]
  · rw [if_neg hout, at?_natCast, slots_getElem? (by omega), Pool.kindAt]
    cases p.get? index <;> rfl

theorem agrees_kindAt : Agrees (m := Except Error) (LookUp.kindAt p index)
    (LookUp.kindAt p index) := agrees_within kindAt_eq

theorem agrees_resolving (part : String) {x : OptionT (Except Error) α} {y : Except Error α}
    (h : Agrees x y) : Agrees (LookUp.resolving part x) (LookUp.resolving part y) :=
  agrees_refailing _ h

theorem agrees_text : Agrees (LookUp.text p index) (p.text index) := agrees_fetch _ _

theorem agrees_className : Agrees (LookUp.className p index) (p.className index) :=
  agrees_bind (agrees_fetch _ _) fun _ => agrees_resolving _ agrees_text

theorem agrees_stringValue : Agrees (LookUp.stringValue p index) (p.stringValue index) :=
  agrees_bind (agrees_fetch _ _) fun _ => agrees_resolving _ agrees_text

theorem agrees_nameAndType : Agrees (LookUp.nameAndType p index) (p.nameAndType index) := by
  refine agrees_bind (agrees_fetch _ _) fun pair => ?_
  refine agrees_bind (agrees_resolving _ agrees_text) fun name => ?_
  exact agrees_bind (agrees_resolving _ agrees_text) fun descriptor => agrees_pure _

theorem agrees_member (kind : Kind) :
    Agrees (LookUp.member p index kind) (p.member index kind) := by
  refine agrees_bind (agrees_fetch _ _) fun ref => ?_
  refine agrees_bind (agrees_resolving _ agrees_className) fun className => ?_
  exact agrees_bind (agrees_resolving _ agrees_nameAndType) fun pair => agrees_pure _

theorem agrees_method : Agrees (LookUp.method p index) (p.method index) :=
  agrees_bind agrees_kindAt fun _ =>
    agrees_ite (fun _ => agrees_member _) fun _ => agrees_member _

end Pool

/-! Reading. -/

section Numbers

def buffer : Bytes := [0, 0, 0, 0]

def fill (n : Nat) : OptionT Reader Bytes := do
  let _ ← within (slice? buffer 0 n)
  let bytes ← Cursor.take n
  within (slice? (bytes ++ buffer.drop n) 0 n)

def u1 : OptionT Reader UInt8 := do
  let b ← fill 1
  within (at? b 0)

def u2 : OptionT Reader UInt16 := do
  let b ← fill 2
  let y ← within (at? b 1)
  let x ← within (at? b 0)
  pure (Bytes.toU2 x y)

def u4 : OptionT Reader UInt32 := do
  let b ← fill 4
  let d ← within (at? b 3)
  let c ← within (at? b 2)
  let y ← within (at? b 1)
  let x ← within (at? b 0)
  pure (Bytes.toU4 x y c d)

theorem agrees_u1 : Agrees u1 Cursor.u1 := by
  funext c
  obtain ⟨rest, offset⟩ := c
  match rest with
  | [] => rfl
  | a :: rest => rfl

theorem agrees_u2 : Agrees u2 Cursor.u2 := by
  funext c
  obtain ⟨rest, offset⟩ := c
  match rest with
  | [] => rfl
  | [a] => rfl
  | a :: b :: rest => rfl

theorem agrees_u4 : Agrees u4 Cursor.u4 := by
  funext c
  obtain ⟨rest, offset⟩ := c
  match rest with
  | [] => rfl
  | [a] => rfl
  | [a, b] => rfl
  | [a, b, x] => rfl
  | a :: b :: x :: y :: rest => rfl

end Numbers

section Parts
open ClassFile (Scan Parser Activity Reading inTurn)
variable {β : Type}

def setItems (item : Nat → OptionT Parser α) :
    Nat → Nat → List (Option α) → OptionT Parser (List (Option α))
  | 0, _, array => pure array
  | n + 1, i, array => do
    let a ← item i
    let array ← within (set? array i (some a))
    setItems item n (i + 1) array

instance : Reading (OptionT Parser) where
  u1 part := OptionT.mk (Parser.field .reading part u1.run)
  u2 part := OptionT.mk (Parser.field .reading part u2.run)
  u4 part := OptionT.mk (Parser.field .reading part u4.run)
  bytes activity part n := liftM (Reading.bytes activity part n : Parser Bytes)
  text part pool index := OptionT.mk (Parser.resolve part
    (LookUp.text pool index : OptionT (Except Error) Bytes).run)
  offset := liftM (Reading.offset : Parser Nat)
  diagnose d := liftM (Reading.diagnose d : Parser Unit)
  refuse e := fail e
  tooDeep := fail .tooDeep
  during activity part g := OptionT.mk (Reading.during activity part g.run)
  inside payload start g := OptionT.mk (Reading.inside payload start g.run)
  items room item n i := do
    let array ← setItems item n i (List.replicate room none)
    pure (array.filterMap id)
  trailing := liftM (Reading.trailing : Parser Unit)

theorem agrees_read (activity : Activity) (part : String) {r : OptionT Reader α} {q : Reader α}
    (h : Agrees r q) :
    Agrees (OptionT.mk (Parser.field activity part r.run)) (Parser.field activity part q) := by
  refine agrees_iff.2 fun s => ?_
  have hr := agrees_iff.1 h s.cursor
  simp only [OptionT.run_mk, Parser.field, hr]
  cases q s.cursor <;> rfl

theorem agrees_during (activity : Activity) (part : String) {g : OptionT Parser α} {p : Parser α}
    (h : Agrees g p) :
    Agrees (Reading.during activity part g) (Reading.during activity part p) := by
  refine agrees_iff.2 fun s => ?_
  have hg := agrees_iff.1 h s
  change Reading.during activity part g.run s = _
  simp only [Reading.during, hg]
  cases p s <;> rfl

theorem agrees_inside (payload : Bytes) (start : Nat) {g : OptionT Parser α} {p : Parser α}
    (h : Agrees g p) :
    Agrees (Reading.inside payload start g) (Reading.inside payload start p) := by
  refine agrees_iff.2 fun s => ?_
  have hg := agrees_iff.1 h { s with cursor := ⟨payload, start⟩ }
  change Reading.inside payload start g.run s = _
  simp only [Reading.inside, hg]
  cases p { s with cursor := ⟨payload, start⟩ } <;> rfl

theorem agrees_resolve (part : String) {x : OptionT (Except Error) α} {y : Except Error α}
    (h : Agrees x y) : Agrees (OptionT.mk (Parser.resolve part x.run)) (Parser.resolve part y) := by
  refine agrees_iff.2 fun s => ?_
  rw [OptionT.run_mk, h]
  cases y <;> rfl

variable {item : Nat → OptionT Parser α} {item' : Nat → Parser α}

theorem agrees_setItems (hitem : ∀ i, Agrees (item i) (item' i)) {n i : Nat}
    {array : List (Option α)} (hfits : i + n ≤ array.length)
    {f : List (Option α) → OptionT Parser β} {q : List α → Parser β}
    (hf : ∀ as, Agrees (f (array.take i ++ as.map some ++ array.drop (i + n))) (q as)) :
    Agrees (setItems item n i array >>= f) (inTurn item' n i >>= q) := by
  induction n generalizing i array q with
  | zero =>
    have h := hf []
    rw [List.map_nil, List.append_nil, Nat.add_zero, List.take_append_drop] at h
    rw [setItems, inTurn, pure_bind, pure_bind]
    exact h
  | succ n ih =>
    rw [setItems, inTurn, bind_assoc, bind_assoc]
    refine agrees_bind (hitem i) fun a => ?_
    rw [bind_assoc, bind_assoc, within_some (set?_natCast (by omega) _)]
    simp only [pure_bind]
    apply ih
    · rw [List.length_set]
      omega
    · intro as
      have htake : (array.set i (some a)).take (i + 1) = array.take i ++ [some a] := by
        rw [List.take_add_one, List.take_set_of_le (Nat.le_refl i),
          List.getElem?_set_self (by omega)]
        rfl
      have hdrop : (array.set i (some a)).drop (i + 1 + n) = array.drop (i + (n + 1)) := by
        rw [List.drop_set_of_lt (by omega), Nat.add_right_comm, Nat.add_assoc]
      rw [htake, hdrop, List.append_assoc (array.take i)]
      exact hf (a :: as)

/-- The array has room for the items, whatever stands in front of them or behind. -/
theorem agrees_items (hitem : ∀ i, Agrees (item i) (item' i)) {room n i : Nat}
    (hroom : n = 0 ∨ i + n ≤ room) :
    Agrees (Reading.items room item n i) (Reading.items room item' n i) := by
  obtain rfl | hroom := hroom
  · simp only [Reading.items, setItems, inTurn, pure_bind, List.filterMap_replicate]
    exact agrees_pure []
  · rw [← bind_pure (Reading.items room item' n i)]
    refine agrees_setItems hitem (by simpa using hroom) fun as => ?_
    have harray : ((List.replicate room none).take i ++ as.map some ++
        (List.replicate room none).drop (i + n)).filterMap id = as := by
      simp
    rw [harray]
    exact agrees_pure as

theorem agrees_related : Parser.Related fun α (g : OptionT Parser α) (p : Parser α) =>
    Agrees g p where
  pure := agrees_pure
  bind := agrees_bind
  u1 part := agrees_read .reading part agrees_u1
  u2 part := agrees_read .reading part agrees_u2
  u4 part := agrees_read .reading part agrees_u4
  bytes _ _ _ := agrees_lift _
  text part _ _ := agrees_resolve part agrees_text
  offset := agrees_lift _
  diagnose _ := agrees_lift _
  refuse e _ := agrees_fail e
  during activity part h := agrees_during activity part h
  items hroom hitem := agrees_items hitem hroom

theorem agrees_attributes (pool : Pool) (depth : Nat) :
    Agrees (Parser.attributes pool depth : OptionT Parser (List Attribute))
      (Parser.attributes pool depth) := by
  induction depth with
  | zero => exact agrees_fail (m := Parser) Error.tooDeep
  | succ depth ih =>
    refine agrees_related.attributes pool fun i => agrees_related.oneAttribute ?_ pool i
    intro nameIndex payload start
    refine agrees_during _ _ (agrees_inside _ _ ?_)
    exact agrees_related.code ih nameIndex payload start

def parse (want : UInt16) (data : Bytes) :
    Option (Except Error ClassFile × List Diagnostic) :=
  match (Parser.classFile want (ClassFile.depthFor data.length) : OptionT Parser ClassFile).run
    { cursor := ⟨data, 0⟩ } with
  | .ok c s => c.map fun c => (.ok c, s.diagnostics)
  | .error e s => some (.error e.classify, s.diagnostics)

/-- Reading a class file reaches no place outside of an array. -/
theorem parse_eq (want : UInt16) (data : Bytes) :
    parse want data = some (ClassFile.parse want data) := by
  let depth := ClassFile.depthFor data.length
  have hbody : Agrees (Parser.body want depth : OptionT Parser ClassFile)
      (Parser.body want depth) :=
    agrees_related.body want fun pool => agrees_attributes pool depth
  have hfile : Agrees (Parser.classFile want depth : OptionT Parser ClassFile)
      (Parser.classFile want depth) :=
    agrees_bind hbody fun c => agrees_bind (agrees_lift _) fun _ => agrees_pure c
  have hrun := agrees_iff.1 hfile { cursor := ⟨data, 0⟩ }
  rw [parse, hrun, ClassFile.parse, ClassFile.parseTo]
  cases (Parser.classFile want depth : Parser ClassFile) { cursor := ⟨data, 0⟩ } <;> rfl

end Parts

end ClassMachine.Indexing
