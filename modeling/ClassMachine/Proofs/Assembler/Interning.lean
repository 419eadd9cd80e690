import ClassMachine.Proofs.Assembler.Agreement

/-! Places that a script is given stay valid. The assembler remembers the places of texts and of
classes, so asking again gives the same place (`place_unique`), and the constants before and after
any other are not moved: in the pool that is read from the bytes, a place leads to what it was given
for. Main statement: `places_stay_valid`. -/
namespace ClassMachine.Assembler

/-- What is looked up at the place is what the operation was given, and a reference is looked up as
the member that it was asked for. -/
def Operation.Resolves (pool : Pool) (i : UInt16) : Operation → Prop
  | .ref .field className name descriptor =>
    pool.field i = .ok { kind := .fieldref, className, name, descriptor }
  | .ref .method className name descriptor =>
    pool.method i = .ok { kind := .methodref, className, name, descriptor }
  | .ref .interfaceMethod className name descriptor =>
    pool.method i = .ok { kind := .interfaceMethodref, className, name, descriptor }
  | op => op.Denotes pool i

theorem Operation.Denotes.resolves {pool : Pool} {i : UInt16} {op : Operation}
    (h : op.Denotes pool i) : op.Resolves pool i := by
  cases op with
  | ref kind c n d =>
    cases kind with
    | field => exact h
    | method => exact Pool.method_of_member .method nofun h
    | interfaceMethod => exact Pool.method_of_member .interfaceMethod nofun h
  | _ => exact h

/-- The operation gives the place that is known, and when it gives a place it is known from then
on. -/
structure Remembered (op : Operation) (known : Assembler → Option UInt16) : Prop where
  kept : ∀ a b, Retains a b → ∀ i, known a = some i → known b = some i
  given : ∀ a i, known a = some i → (op.act a).1 = some i
  learnt : ∀ a i, (op.act a).1 = some i → known (op.perform a) = some i

theorem texts_after (s : Bytes) (a : Assembler) :
    (text s a).2.texts.get? s = some (text s a).1 := by
  cases h : a.texts.get? s with
  | some i =>
    rw [text_of_some h]
    exact h
  | none =>
    rw [text_of_none h]
    dsimp only
    rw [Table.get?_set, if_pos rfl]

theorem classes_after (name : Bytes) (a : Assembler) :
    (cls name a).2.classes.get? name = some (cls name a).1 := by
  cases h : a.classes.get? name with
  | some i =>
    rw [cls_of_some h]
    exact h
  | none =>
    rw [cls_of_none h]
    dsimp only
    rw [Table.get?_set, if_pos rfl]

theorem remembered_text (s : Bytes) : Remembered (.text s) fun a => a.texts.get? s where
  kept _ _ h := h.texts s
  given a i h := by
    change some (text s a).1 = some i
    rw [text_of_some h]
  learnt a i h := (texts_after s a).trans h

theorem remembered_cls (name : Bytes) : Remembered (.cls name) fun a => a.classes.get? name where
  kept _ _ h := h.classes name
  given a i h := by
    change some (cls name a).1 = some i
    rw [cls_of_some h]
  learnt a i h := (classes_after name a).trans h

section Unique
variable {op : Operation} {known : Assembler → Option UInt16} {script : List Operation}
  {a : Assembler} {i j : UInt16}

theorem mem_places_cons {x : Operation × UInt16} {first : Operation} :
    x ∈ places a (first :: script) ↔
      (x.1 = first ∧ (first.act a).1 = some x.2) ∨ x ∈ places (first.perform a) script := by
  rw [places, List.mem_append, Option.mem_toList, Option.map_eq_some_iff]
  refine or_congr_left ?_
  constructor
  · rintro ⟨i, hi, rfl⟩
    exact ⟨rfl, hi⟩
  · rintro ⟨rfl, hi⟩
    exact ⟨x.2, hi, rfl⟩

/-- A place that is known is the only one that is given. -/
theorem place_of_known (h : Remembered op known) (hscript : ∀ op ∈ script, op.NamesFit)
    (hknown : known a = some i) (hj : (op, j) ∈ places a script) : j = i := by
  induction script generalizing a with
  | nil => cases hj
  | cons first script ih =>
    have hrest := fun x hx => hscript x (List.mem_cons_of_mem first hx)
    rcases mem_places_cons.1 hj with ⟨rfl, hgiven⟩ | hj
    · exact Option.some.inj (hgiven.symm.trans (h.given a i hknown))
    · have hretains := (perform_extends first (hscript first List.mem_cons_self) a).2
      exact ih hrest (h.kept a _ hretains i hknown) hj

theorem place_unique (h : Remembered op known) (hscript : ∀ op ∈ script, op.NamesFit)
    (hi : (op, i) ∈ places a script) (hj : (op, j) ∈ places a script) : i = j := by
  induction script generalizing a with
  | nil => cases hi
  | cons first script ih =>
    have hrest := fun x hx => hscript x (List.mem_cons_of_mem first hx)
    rcases mem_places_cons.1 hi with ⟨rfl, hgiven⟩ | hi
    · rcases mem_places_cons.1 hj with ⟨-, hgiven'⟩ | hj
      · exact Option.some.inj (hgiven.symm.trans hgiven')
      · exact (place_of_known h hrest (h.learnt a i hgiven) hj).symm
    · rcases mem_places_cons.1 hj with ⟨rfl, hgiven⟩ | hj
      · exact place_of_known h hrest (h.learnt a j hgiven) hi
      · exact ih hrest hi hj

end Unique

theorem bytes_eq_append (a : Assembler) :
    ∃ rest, a.bytes = (Bytes.u4 a.magic ++ Bytes.u2 a.minor ++ Bytes.u2 a.major) ++
      (a.poolBytes ++ rest) := by
  simp only [bytes, List.append_assoc]
  exact ⟨_, rfl⟩

theorem poolBytes_eq (a : Assembler) {es : List Constant} (h : a.pool = es.map RawConstant.of) :
    a.poolBytes = Bytes.u2 (Pool.of es).count ++ es.flatMap Constant.layout := by
  simp only [poolBytes, h, layout_constants, Pool.of, List.length_map]

theorem read_pool {es : List Constant} (hfits : ∀ c ∈ es, c.Fits) (hlength : es.length ≤ 65534)
    (rest : Bytes) (offset : Nat) :
    (ClassFile.Parser.pool (Pool.of es).count : ClassFile.Parser Pool)
        { cursor := ⟨es.flatMap Constant.layout ++ rest, offset⟩ } =
      .ok (Pool.of es) { cursor := ⟨rest, offset + (es.flatMap Constant.layout).length⟩ } := by
  refine (ClassFile.Parser.pool_ok_iff ..).2 ⟨rfl, ?_, hfits, ⟨rfl, rfl⟩, rfl⟩
  simp only [Pool.of, UInt16.toNat_ofNat']
  omega

/-- From the bytes that a script leaves a pool is read in which every place leads to what it was
given for. Texts and classes that are asked for again have the same place. -/
theorem places_stay_valid (name : Bytes) (script : List Operation) (magic : UInt32)
    (minor major flags : UInt16) (hname : name.length < 2 ^ 16)
    (hscript : ∀ op ∈ script, op.NamesFit) (hlen : (assemble name script).pool.length ≤ 65534) :
    let a := { assemble name script with magic, minor, major, flags }
    let given := places (start name) script
    (∃ n pool t, Cursor.u2 ⟨a.bytes.drop 8, 8⟩ = .ok n ⟨a.bytes.drop 10, 10⟩ ∧
      (ClassFile.Parser.pool n : ClassFile.Parser Pool) { cursor := ⟨a.bytes.drop 10, 10⟩ } =
        .ok pool t ∧
      t.cursor.offset = 8 + a.poolBytes.length ∧ ∀ x ∈ given, x.1.Resolves pool x.2) ∧
    (∀ s i j, (.text s, i) ∈ given → (.text s, j) ∈ given → i = j) ∧
    ∀ c i j, (.cls c, i) ∈ given → (.cls c, j) ∈ given → i = j := by
  intro a given
  refine ⟨?_, fun s i j => place_unique (remembered_text s) hscript,
    fun c i j => place_unique (remembered_cls c) hscript⟩
  obtain ⟨es, hes, hplaces⟩ := assemble_assembled name script hname hscript hlen
  have hlength : es.length ≤ 65534 := hes.linked.length ▸ hlen
  obtain ⟨rest, hbytes⟩ := bytes_eq_append a
  have hpool := poolBytes_eq a hes.linked.pool
  have hdrop : a.bytes.drop 8 =
      Bytes.u2 (Pool.of es).count ++ (es.flatMap Constant.layout ++ rest) := by
    rw [hbytes, List.drop_left' (by rfl), hpool, List.append_assoc]
  have hdrop' : a.bytes.drop 10 = es.flatMap Constant.layout ++ rest := by
    rw [show 10 = 8 + 2 from rfl, ← List.drop_drop, hdrop, List.drop_left' (by rfl)]
  have hcount : Cursor.u2 ⟨a.bytes.drop 8, 8⟩ = .ok (Pool.of es).count ⟨a.bytes.drop 10, 10⟩ :=
    (Cursor.u2_ok_iff _ _ _).2 ⟨by rw [hdrop, hdrop'], rfl⟩
  have hread := read_pool hes.linked.fits hlength rest 10
  rw [← hdrop'] at hread
  refine ⟨_, _, _, hcount, hread, ?_, fun x hx => (hplaces x hx).resolves⟩
  rw [hpool, List.length_append, Bytes.length_u2, ← Nat.add_assoc]

/-- Two references, a raw string and a class: the first reference adds six constants, and what comes
after it finds some of them there. -/
def shared : List Operation :=
  [.ref .interfaceMethod (utf8 "Shape") (utf8 "area") (utf8 "()I"), .raw 8 [0, 1],
    .text (utf8 "area"), .cls (utf8 "Shape"),
    .ref .field (utf8 "Shape") (utf8 "area") (utf8 "I"), .cls (utf8 "Shape"), .text (utf8 "area")]

theorem shared_namesFit : ∀ op ∈ shared, op.NamesFit := by
  simp only [shared, List.forall_mem_cons, Operation.NamesFit]
  exact ⟨by decide, ⟨.string 1, trivial, rfl, rfl⟩, by decide, by decide, by decide, by decide,
    by decide, List.forall_mem_nil _⟩

theorem shared_stays_valid :
    let a := { assemble (utf8 "Main") shared with magic := 7, minor := 0, major := 1, flags := 0 }
    let given := places (start (utf8 "Main")) shared
    (∀ op ∈ shared, op.NamesFit) ∧ (assemble (utf8 "Main") shared).pool.length ≤ 65534 ∧
      given.map Prod.snd = [10, 11, 7, 6, 14, 6, 7] ∧
      ∃ n pool t, (ClassFile.Parser.pool n : ClassFile.Parser Pool)
          { cursor := ⟨a.bytes.drop 10, 10⟩ } = .ok pool t ∧
        ∀ x ∈ given, x.1.Resolves pool x.2 := by
  intro a given
  have hlen : (assemble (utf8 "Main") shared).pool.length ≤ 65534 := by decide +kernel
  obtain ⟨⟨n, pool, t, -, hread, -, hplaces⟩, -⟩ := places_stay_valid (utf8 "Main") shared 7 0 1 0
    (by decide) shared_namesFit hlen
  exact ⟨shared_namesFit, hlen, by decide +kernel, n, pool, t, hread, hplaces⟩

end ClassMachine.Assembler
