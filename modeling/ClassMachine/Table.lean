/-!
Finite maps that keep the order in which their keys were first set.
-/

namespace ClassMachine

/-- A map from `κ` to `α`: the entries in the order of their first setting, one for a key. -/
structure Table (κ α : Type) where
  entries : List (κ × α) := []

namespace Table

variable {κ α : Type} [DecidableEq κ]

def find (k : κ) : List (κ × α) → Option α
  | [] => none
  | (k', a) :: rest => if k' = k then some a else find k rest

def put (k : κ) (a : α) : List (κ × α) → List (κ × α)
  | [] => [(k, a)]
  | (k', a') :: rest => if k' = k then (k', a) :: rest else (k', a') :: put k a rest

def get? (t : Table κ α) (k : κ) : Option α := find k t.entries

def set (t : Table κ α) (k : κ) (a : α) : Table κ α := ⟨put k a t.entries⟩

def contains (t : Table κ α) (k : κ) : Bool := (t.get? k).isSome

def keys (t : Table κ α) : List κ := t.entries.map Prod.fst

def length (t : Table κ α) : Nat := t.entries.length

/-- Changes the values, each of which is given with the number of keys that were set before. -/
def mapIdx (f : Nat → α → α) (t : Table κ α) : Table κ α :=
  ⟨t.entries.mapIdx fun i e => (e.1, f i e.2)⟩

theorem find_put (k k' : κ) (a : α) (l : List (κ × α)) :
    find k' (put k a l) = if k = k' then some a else find k' l := by
  induction l with
  | nil => rfl
  | cons e rest ih =>
    obtain ⟨k'', a''⟩ := e
    by_cases h : k'' = k <;> by_cases h' : k = k' <;> simp_all [find, put]

theorem get?_set (t : Table κ α) (k k' : κ) (a : α) :
    (t.set k a).get? k' = if k = k' then some a else t.get? k' :=
  find_put k k' a t.entries

/-- A key that is set for the first time takes the place of no other. -/
theorem get?_set_of_free {t : Table κ α} {k k' : κ} {a b : α} (hfree : t.get? k = none)
    (h : t.get? k' = some b) : (t.set k a).get? k' = some b := by
  have hne : k ≠ k' := by
    rintro rfl
    cases hfree.symm.trans h
  rw [get?_set, if_neg hne, h]

theorem find_eq (k : κ) (l : List (κ × α)) :
    find k l = (l.find? fun e => e.1 = k).map Prod.snd := by
  induction l with
  | nil => rfl
  | cons e l ih => by_cases hk : e.1 = k <;> simp [find, hk, ih]

theorem mem_of_find {k : κ} {a : α} {l : List (κ × α)} (h : find k l = some a) : (k, a) ∈ l := by
  induction l with
  | nil => cases h
  | cons e l ih =>
    rw [find] at h
    by_cases hk : e.1 = k
    · rw [if_pos hk] at h
      cases h
      cases hk
      exact List.mem_cons_self
    · rw [if_neg hk] at h
      exact List.mem_cons_of_mem e (ih h)

theorem find_of_mem {k : κ} {a : α} {l : List (κ × α)} (hl : (l.map Prod.fst).Nodup)
    (h : (k, a) ∈ l) : find k l = some a := by
  induction l with
  | nil => cases h
  | cons e l ih =>
    obtain ⟨hnew, hl⟩ := List.nodup_cons.1 hl
    rcases List.mem_cons.1 h with rfl | h
    · simp [find]
    · have hk : e.1 ≠ k := fun heq => hnew (heq ▸ List.mem_map_of_mem (f := Prod.fst) h)
      rw [find, if_neg hk, ih hl h]

theorem put_of_find {k : κ} {a : α} {l : List (κ × α)} (h : find k l = some a) : put k a l = l := by
  induction l with
  | nil => cases h
  | cons e l ih =>
    obtain ⟨j, b⟩ := e
    by_cases hj : j = k
    · simp only [find, if_pos hj] at h
      cases h
      simp [put, hj]
    · simp only [find, if_neg hj] at h
      simp [put, hj, ih h]

/-! Tables that give a value to each of a list of keys. -/

theorem find_map (k : κ) (f : κ → α) (ks : List κ) :
    find k (ks.map fun j => (j, f j)) = if k ∈ ks then some (f k) else none := by
  induction ks with
  | nil => rfl
  | cons j ks ih =>
    by_cases hj : j = k
    · simp [find, hj]
    · simp [find, hj, ih, Ne.symm hj]

theorem put_map_of_mem (k : κ) (a : α) (f : κ → α) {ks : List κ} (hk : k ∈ ks) (hks : ks.Nodup) :
    put k a (ks.map fun j => (j, f j)) = ks.map fun j => (j, if j = k then a else f j) := by
  induction ks with
  | nil => simp at hk
  | cons j ks ih =>
    obtain ⟨hj, hks⟩ := List.nodup_cons.1 hks
    by_cases hjk : j = k
    · have hrest : ∀ i ∈ ks, i ≠ k := by
        rintro i hi rfl
        exact hj (hjk ▸ hi)
      simp only [List.map_cons, put, hjk, if_true]
      refine congrArg _ (List.map_congr_left fun i hi => ?_)
      rw [if_neg (hrest i hi)]
    · have hmem : k ∈ ks := (List.mem_cons.1 hk).resolve_left (Ne.symm hjk)
      simp [put, hjk, ih hmem hks]

theorem put_map_of_new (k : κ) (a : α) (f : κ → α) {ks : List κ} (hk : k ∉ ks) :
    put k a (ks.map fun j => (j, f j)) = (ks.map fun j => (j, f j)) ++ [(k, a)] := by
  induction ks with
  | nil => rfl
  | cons j ks ih =>
    have hjk : j ≠ k := fun h => hk (h ▸ List.mem_cons_self)
    have hrest : k ∉ ks := fun h => hk (List.mem_cons_of_mem j h)
    simp [put, hjk, ih hrest]

end Table

end ClassMachine
