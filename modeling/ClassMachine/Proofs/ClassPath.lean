import ClassMachine.ClassPath
import ClassMachine.Files.Tree
import ClassMachine.Proofs.ClassFile.Arrival

/-! Loading classes while the entries of the class path change. A request is answered from the
classes that are kept, or by the first entry that is not absent (`answer_cases`); from that follows
what one request keeps, and what any number of them keep. Main statement: classes bear the names
they are asked for by, a class that was loaded stays, and the order of the entries decides about the
others. -/
namespace ClassMachine.ClassPath

/-- An entry has errors of its own: that a class is nowhere is not for one entry to say. -/
def Supply.Own (s : Supply) : Prop := ∀ n, s ≠ .failed (.notFound n)

structure Contents where
  supply : Bytes → Bytes → Supply
  own : ∀ entry name, (supply entry name).Own

structure Request where
  contents : Contents
  name : Bytes

/-- Whether an entry has something, be it an error. -/
def Supply.present : Supply → Bool
  | .absent => false
  | _ => true

namespace Request

def answer (r : Request) (cp : ClassPath) : Except Error LoadedClass × ClassPath :=
  cp.load (m := Id) r.contents.supply r.name

def found (r : Request) (major : UInt16) (entries : List Bytes) : Except Error LoadedClass :=
  search (m := Id) major r.contents.supply r.name entries

def source? (r : Request) (entries : List Bytes) : Option Bytes :=
  entries.find? fun entry => (r.contents.supply entry r.name).present

end Request

def after (cp : ClassPath) (requests : List Request) : ClassPath :=
  requests.foldl (fun cp r => (r.answer cp).2) cp

variable {major : UInt16} {entry name place : Bytes} {entries : List Bytes} {data : Stream}
  {c : LoadedClass} {cp cp' cp'' : ClassPath} {r : Request}

/-! What one entry leads to. -/

theorem accept_ok_iff : accept major entry name place data = .ok c ↔
    ClassFile.parseStream major data = (.ok c.file, c.diagnostics) ∧
      c.file.className = .ok name := by
  obtain ⟨file, diagnostics⟩ := c
  simp only [accept]
  rcases ClassFile.parseStream major data with ⟨e | file', diagnostics'⟩
  · simp
  · simp only [Prod.mk.injEq, Except.ok.injEq]
    cases hname : file'.className with
    | error e => grind
    | ok declared => grind

theorem accept_ne_notFound (n : Bytes) :
    accept major entry name place data ≠ .error (.notFound n) := by
  intro h
  rw [accept] at h
  split at h
  · cases h
  · split at h
    · split at h
      · cases h
      · cases h
    · cases h

def Supply.outcome (major : UInt16) (entry name : Bytes) : Supply → Except Error LoadedClass
  | .absent => .error (.notFound name)
  | .failed e => .error e
  | .found place data => accept major entry name place data

theorem found_cons (r : Request) (major : UInt16) (first : Bytes) (rest : List Bytes) :
    r.found major (first :: rest) =
      if (r.contents.supply first r.name).present then
        (r.contents.supply first r.name).outcome major first r.name
      else r.found major rest := by
  rw [Request.found, search]
  generalize r.contents.supply first r.name = s
  cases s with
  | _ => rfl

/-- The outcome is that of the first entry that has something. -/
theorem found_eq (r : Request) (major : UInt16) (entries : List Bytes) :
    r.found major entries = match r.source? entries with
      | none => .error (.notFound r.name)
      | some entry => (r.contents.supply entry r.name).outcome major entry r.name := by
  induction entries with
  | nil => rfl
  | cons first rest ih =>
    rw [found_cons, ih]
    simp only [Request.source?, List.find?_cons]
    cases (r.contents.supply first r.name).present with
    | _ => rfl

theorem source?_eq_none_iff : r.source? entries = none ↔
    ∀ entry ∈ entries, r.contents.supply entry r.name = .absent := by
  have habsent (s : Supply) : s.present = false ↔ s = .absent := by
    cases s <;> simp [Supply.present]
  simp [Request.source?, habsent]

theorem found_eq_notFound_iff (n : Bytes) : r.found major entries = .error (.notFound n) ↔
    r.name = n ∧ ∀ entry ∈ entries, r.contents.supply entry r.name = .absent := by
  rw [found_eq, ← source?_eq_none_iff]
  cases hsource : r.source? entries with
  | none => simp
  | some entry =>
    have hpresent := List.find?_some hsource
    have hown := r.contents.own entry r.name n
    dsimp only
    cases hsupply : r.contents.supply entry r.name with
    | absent => simp [hsupply, Supply.present] at hpresent
    | failed e =>
      rw [hsupply] at hown
      simpa [Supply.outcome] using hown
    | found place data => simp [Supply.outcome, accept_ne_notFound]

/-- A class is found exactly if the first entry with something has bytes that are that class. -/
theorem found_eq_ok_iff : r.found major entries = .ok c ↔
    ∃ entry place data, r.source? entries = some entry ∧
      r.contents.supply entry r.name = .found place data ∧
      ClassFile.parseStream major data = (.ok c.file, c.diagnostics) ∧
      c.file.className = .ok r.name := by
  rw [found_eq]
  cases hsource : r.source? entries with
  | none => simp
  | some entry =>
    dsimp only
    cases hsupply : r.contents.supply entry r.name with
    | absent => simp [Supply.outcome, hsupply]
    | failed e => simp [Supply.outcome, hsupply]
    | found place data =>
      rw [Supply.outcome, accept_ok_iff]
      constructor
      · intro h
        exact ⟨entry, place, data, rfl, hsupply, h⟩
      · rintro ⟨entry', place', data', hentry, hfound, h⟩
        cases hentry
        cases hsupply.symm.trans hfound
        exact h

/-! What a request does to the class path. -/

/-- A request is answered by a class that is kept. If there is none the entries are asked, and a
class that they have is kept. -/
theorem answer_cases (r : Request) (cp : ClassPath) :
    (∃ c, cp.loaded.get? r.name = some c ∧ r.answer cp = (.ok c, cp)) ∨
    cp.loaded.get? r.name = none ∧
      ((∃ e, r.found cp.major cp.entries = .error e ∧ r.answer cp = (.error e, cp)) ∨
        ∃ c, r.found cp.major cp.entries = .ok c ∧
          r.answer cp = (.ok c, { cp with loaded := cp.loaded.set r.name c })) := by
  rw [Request.answer, load, Request.found]
  cases cp.loaded.get? r.name with
  | some c => exact Or.inl ⟨c, rfl, rfl⟩
  | none =>
    refine Or.inr ⟨rfl, ?_⟩
    generalize search (m := Id) cp.major r.contents.supply r.name cp.entries = outcome
    cases outcome with
    | error e => exact Or.inl ⟨e, rfl, rfl⟩
    | ok c => exact Or.inr ⟨c, rfl, rfl⟩

theorem answer_of_loaded (h : cp.loaded.get? r.name = some c) : r.answer cp = (.ok c, cp) := by
  rcases answer_cases r cp with ⟨c', hc', hanswer⟩ | ⟨hnone, -⟩
  · cases hc'.symm.trans h
    exact hanswer
  · cases hnone.symm.trans h

theorem answer_of_unloaded (h : cp.loaded.get? r.name = none) :
    (r.answer cp).1 = r.found cp.major cp.entries := by
  rcases answer_cases r cp with ⟨c, hc, -⟩ | ⟨-, ⟨e, hfound, hanswer⟩ | ⟨c, hfound, hanswer⟩⟩
  · cases hc.symm.trans h
  · rw [hanswer, hfound]
  · rw [hanswer, hfound]

theorem answer_of_error {e : Error} (h : (r.answer cp).1 = .error e) : (r.answer cp).2 = cp := by
  rcases answer_cases r cp with ⟨c, -, hanswer⟩ | ⟨-, ⟨e', -, hanswer⟩ | ⟨c, -, hanswer⟩⟩
  · rw [hanswer]
  · rw [hanswer]
  · rw [hanswer] at h
    cases h

theorem loaded_of_answer (h : (r.answer cp).1 = .ok c) :
    (r.answer cp).2.loaded.get? r.name = some c := by
  rcases answer_cases r cp with ⟨c', hc', hanswer⟩ | ⟨-, ⟨e, -, hanswer⟩ | ⟨c', -, hanswer⟩⟩
  · rw [hanswer] at h ⊢
    cases h
    exact hc'
  · rw [hanswer] at h
    cases h
  · rw [hanswer] at h ⊢
    cases h
    rw [Table.get?_set, if_pos rfl]

theorem loaded_of_ne (h : r.name ≠ name) :
    (r.answer cp).2.loaded.get? name = cp.loaded.get? name := by
  rcases answer_cases r cp with ⟨c, -, hanswer⟩ | ⟨-, ⟨e, -, hanswer⟩ | ⟨c, -, hanswer⟩⟩
  · rw [hanswer]
  · rw [hanswer]
  · rw [hanswer, Table.get?_set, if_neg h]

structure Extends (cp cp' : ClassPath) : Prop where
  entries : cp'.entries = cp.entries
  major : cp'.major = cp.major
  loaded : ∀ name c, cp.loaded.get? name = some c → cp'.loaded.get? name = some c

theorem answer_extends (r : Request) (cp : ClassPath) : Extends cp (r.answer cp).2 := by
  rcases answer_cases r cp with ⟨c, -, hanswer⟩ | ⟨hnone, ⟨e, -, hanswer⟩ | ⟨c, -, hanswer⟩⟩
  · rw [hanswer]
    exact ⟨rfl, rfl, fun _ _ h => h⟩
  · rw [hanswer]
    exact ⟨rfl, rfl, fun _ _ h => h⟩
  · rw [hanswer]
    exact ⟨rfl, rfl, fun name c' h => Table.get?_set_of_free hnone h⟩

theorem after_extends (requests : List Request) (cp : ClassPath) :
    Extends cp (after cp requests) := by
  induction requests generalizing cp with
  | nil => exact ⟨rfl, rfl, fun _ _ h => h⟩
  | cons r requests ih =>
    have hfirst := answer_extends r cp
    have hrest := ih (r.answer cp).2
    exact ⟨hrest.entries.trans hfirst.entries, hrest.major.trans hfirst.major,
      fun name c h => hrest.loaded name c (hfirst.loaded name c h)⟩

def Named (cp : ClassPath) : Prop :=
  ∀ name c, cp.loaded.get? name = some c → c.file.className = .ok name

theorem Named.answer (h : Named cp) (r : Request) : Named (r.answer cp).2 := by
  rcases answer_cases r cp with ⟨c, -, hanswer⟩ | ⟨-, ⟨e, -, hanswer⟩ | ⟨c, hfound, hanswer⟩⟩
  · rwa [hanswer]
  · rwa [hanswer]
  · rw [hanswer]
    intro name c' hc'
    rw [Table.get?_set] at hc'
    split at hc'
    · rename_i hname
      cases hc'
      obtain ⟨entry, place, data, -, -, -, hclass⟩ := found_eq_ok_iff.1 hfound
      rw [← hname, hclass]
    · exact h name c' hc'

theorem Named.after (h : Named cp) (requests : List Request) : Named (after cp requests) := by
  induction requests generalizing cp with
  | nil => exact h
  | cons r requests ih => exact ih (h.answer r)

theorem unloaded_answer_iff : (r.answer cp).2.loaded.get? name = none ↔
    cp.loaded.get? name = none ∧ (r.name = name → ∃ e, (r.answer cp).1 = .error e) := by
  by_cases hname : r.name = name
  · subst hname
    cases houtcome : (r.answer cp).1 with
    | ok c => simp [loaded_of_answer houtcome]
    | error e => simp [answer_of_error houtcome]
  · simp [loaded_of_ne hname, hname]

/-- A class is not kept exactly if it was not kept at first and all requests for it have failed. -/
theorem unloaded_after_iff (requests : List Request) (cp : ClassPath) (name : Bytes) :
    (after cp requests).loaded.get? name = none ↔
      cp.loaded.get? name = none ∧ ∀ front r back, requests = front ++ r :: back → r.name = name →
        ∃ e, (r.answer (after cp front)).1 = .error e := by
  induction requests generalizing cp with
  | nil => simp [after]
  | cons q requests ih =>
    refine (ih (q.answer cp).2).trans ?_
    rw [unloaded_answer_iff]
    constructor
    · rintro ⟨⟨hcp, hq⟩, hrest⟩
      refine ⟨hcp, fun front r back hsplit hname => ?_⟩
      cases front with
      | nil =>
        obtain ⟨rfl, rfl⟩ := List.cons.inj hsplit
        exact hq hname
      | cons q' front =>
        obtain ⟨rfl, rfl⟩ := List.cons.inj hsplit
        exact hrest front r back rfl hname
    · rintro ⟨hcp, hall⟩
      refine ⟨⟨hcp, hall [] q requests rfl⟩, fun front r back hsplit => ?_⟩
      exact hall (q :: front) r back (congrArg (q :: ·) hsplit)

structure InOrder (major : UInt16) (entries : List Bytes) (r : Request)
    (outcome : Except Error LoadedClass) : Prop where
  first : ∀ c, outcome = .ok c ↔ ∃ entry place data, r.source? entries = some entry ∧
    r.contents.supply entry r.name = .found place data ∧
    ClassFile.parseStream major data = (.ok c.file, c.diagnostics) ∧
    c.file.className = .ok r.name
  failed : ∀ entry e, r.source? entries = some entry →
    r.contents.supply entry r.name = .failed e → outcome = .error e
  nowhere : ∀ n, outcome = .error (.notFound n) ↔
    r.name = n ∧ ∀ entry ∈ entries, r.contents.supply entry r.name = .absent

theorem found_in_order (major : UInt16) (entries : List Bytes) (r : Request) :
    InOrder major entries r (r.found major entries) where
  first _ := found_eq_ok_iff
  failed entry e hsource hfailed := by
    rw [found_eq, hsource]
    dsimp only
    rw [hfailed, Supply.outcome]
  nowhere n := found_eq_notFound_iff n

/-! Volumes. Loading only looks at them, so it is a request for what they hold at that time. -/

section Volumes
open Files

theorem supplyOfZip_own (zip : Archive.Zip) (archive name : Bytes) :
    (supplyOfZip zip archive name).Own := by
  intro n h
  rw [supplyOfZip] at h
  split at h
  · cases h
  · split at h <;> cases h

section Reading
variable {σ α β : Type}

theorem bind_of_state {p : StateM σ α} {w w' : σ} {a : α} (h : p w = (a, w')) (f : α → StateM σ β) :
    (p >>= f) w = f a w' := by
  change f (p w).1 (p w).2 = f a w'
  rw [h]

/-- The computation leaves the state as it is, and what it gives has the property `P`. -/
def Reads (P : α → Prop) (p : StateM σ α) : Prop := ∀ w, ∃ a, P a ∧ p w = (a, w)

theorem reads_pure {P : α → Prop} {x : α} (h : P x) : Reads P (pure x : StateM σ α) :=
  fun _ => ⟨x, h, rfl⟩

theorem reads_bind {P : α → Prop} {Q : β → Prop} {p : StateM σ α} {f : α → StateM σ β}
    (hp : Reads P p) (hf : ∀ a, P a → Reads Q (f a)) : Reads Q (p >>= f) := by
  intro w
  obtain ⟨a, ha, hw⟩ := hp w
  rw [bind_of_state hw]
  exact hf a ha w

end Reading

theorem reads_look (path : Bytes) : Reads (fun _ => True) (Volume.fileSystem.look path) :=
  fun v => ⟨v.look path, trivial, rfl⟩

theorem reads_supply (entry name : Bytes) :
    Reads Supply.Own (supply Volume.fileSystem entry name) := by
  have hfile (path : Bytes) : Reads (fun _ => True) (Volume.fileSystem.readFile path) := by
    refine reads_bind (reads_look path) fun x _ => ?_
    split <;> exact reads_pure trivial
  rw [supply]
  split
  · refine reads_bind (hfile entry) fun x _ => ?_
    split
    · split <;> exact reads_pure fun n h => by cases h
    · split
      · exact reads_pure fun n h => by cases h
      · exact reads_pure fun n h => by cases h
      · exact reads_pure (supplyOfZip_own _ _ _)
  · refine reads_bind (reads_look _) fun x _ => ?_
    split <;> exact reads_pure fun n h => by cases h

def Contents.ofVolume (v : Volume) : Contents where
  supply entry name := (ClassPath.supply Volume.fileSystem entry name v).1
  own entry name := by
    obtain ⟨s, hs, hrun⟩ := reads_supply entry name v
    rwa [hrun]

theorem supply_volume (v : Volume) (entry name : Bytes) :
    supply Volume.fileSystem entry name v = ((Contents.ofVolume v).supply entry name, v) := by
  obtain ⟨s, -, hrun⟩ := reads_supply entry name v
  simp only [Contents.ofVolume, hrun]

theorem search_volume (major : UInt16) (name : Bytes) (entries : List Bytes) (v : Volume) :
    search major (supply Volume.fileSystem) name entries v =
      (Request.found ⟨.ofVolume v, name⟩ major entries, v) := by
  induction entries with
  | nil => rfl
  | cons first rest ih =>
    rw [search, bind_of_state (supply_volume v first name), found_cons]
    dsimp only
    generalize (Contents.ofVolume v).supply first name = s
    cases s with
    | absent => exact ih
    | _ => rfl

/-- To load a class from a volume is to ask for it with the contents of the volume. -/
theorem load_volume (cp : ClassPath) (name : Bytes) (v : Volume) :
    cp.load (supply Volume.fileSystem) name v = (Request.answer ⟨.ofVolume v, name⟩ cp, v) := by
  rw [load, Request.answer, load]
  cases cp.loaded.get? name with
  | some c => rfl
  | none =>
    dsimp only
    rw [bind_of_state (search_volume cp.major name cp.entries v), Request.found]
    dsimp only
    generalize search (m := Id) cp.major (Contents.ofVolume v).supply name cp.entries = outcome
    cases outcome with
    | _ => rfl

end Volumes

/-- Whatever was asked for before: a class that was an answer bears its name and stays the answer,
an error changes nothing, and while all requests for a name have failed the entries answer in their
order. -/
theorem loading_ordered_and_lasting (entries : List Bytes) (major : UInt16)
    (earlier : List Request) (r : Request) :
    let cp := after { entries, major } earlier
    let outcome := (r.answer cp).1
    let cp' := (r.answer cp).2
    (∀ c, outcome = .ok c → c.file.className = .ok r.name ∧
      ∀ later (again : Request), again.name = r.name → (again.answer (after cp' later)).1 = .ok c) ∧
    (∀ e, outcome = .error e → cp'.loaded = cp.loaded) ∧
    (cp.loaded.get? r.name = none ↔
      ∀ front (q : Request) back, earlier = front ++ q :: back → q.name = r.name →
        ∃ e, (q.answer (after { entries, major } front)).1 = .error e) ∧
    (cp.loaded.get? r.name = none → InOrder major entries r outcome) ∧
    (∀ s : Stream, s.Honest →
      ClassFile.parseStream major s = ClassFile.parse major s.data) ∧
    ∀ v : Files.Volume, cp.load (supply Files.Volume.fileSystem) r.name v =
      (Request.answer ⟨.ofVolume v, r.name⟩ cp, v) := by
  intro cp outcome cp'
  have hextends : Extends { entries, major } cp := after_extends earlier _
  have hnamed : Named cp := Named.after (fun _ _ h => by cases h) earlier
  refine ⟨fun c hc => ⟨?_, fun later again hname => ?_⟩, fun e he => ?_, ?_, fun hnone => ?_,
    fun s h => ?_, fun v => ?_⟩
  · exact hnamed.answer r _ c (loaded_of_answer hc)
  · have hkept := (after_extends later cp').loaded _ c (loaded_of_answer hc)
    rw [answer_of_loaded (hname ▸ hkept)]
  · exact congrArg loaded (answer_of_error he)
  · exact (unloaded_after_iff earlier _ r.name).trans (and_iff_right rfl)
  · have hfound : outcome = r.found cp.major cp.entries := answer_of_unloaded hnone
    rw [hfound, hextends.major, hextends.entries]
    exact found_in_order major entries r
  · exact ClassFile.parseStream_eq_parse h major
  · exact load_volume cp r.name v

def bareClass : Bytes :=
  [0xCA, 0xFE, 0xBA, 0xBE, 0, 0, 0, 50, 0, 3, 7, 0, 2, 1, 0, 1, 65, 0, 33, 0, 1, 0, 0, 0, 0, 0, 0,
    0, 0, 0, 0]

def onlySecond : Contents where
  supply entry _ := if entry = [2] then .found entry { data := bareClass } else .absent
  own entry name n := by
    split <;> simp

def broken : Contents where
  supply entry _ := .failed (.path ⟨"stat", entry, .invalid⟩)
  own entry name n := by simp

/-- The bare class is found behind an entry that has nothing, and stays when all entries fail. -/
theorem bareClass_stays :
    let cp : ClassPath := { entries := [[1], [2]], major := 50 }
    let r : Request := ⟨onlySecond, [65]⟩
    ∃ c, (r.answer cp).1 = .ok c ∧ c.file.className = .ok [65] ∧
      (Request.answer ⟨broken, [65]⟩ (after (r.answer cp).2 [⟨broken, [66]⟩])).1 = .ok c := by
  intro cp r
  have hfound : (r.answer cp).1.isOk = true := by decide +kernel
  cases hc : (r.answer cp).1 with
  | error e =>
    rw [hc] at hfound
    cases hfound
  | ok c =>
    obtain ⟨hname, hlasts⟩ := (loading_ordered_and_lasting [[1], [2]] 50 [] r).1 c hc
    exact ⟨c, rfl, hname, hlasts [⟨broken, [66]⟩] ⟨broken, [65]⟩ rfl⟩

end ClassMachine.ClassPath
