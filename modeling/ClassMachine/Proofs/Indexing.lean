import ClassMachine.Proofs.Fallible

/-! Arrays that are indexed. An access gives an element, or nothing if the index is out of range. A
computation with accesses in it gives nothing if one of them does, beside the results and failures
that it has of its own. It agrees with a computation without accesses if it does the same and no
access is ever out of range. -/
namespace ClassMachine.Indexing
variable {α β : Type}

def at? (l : List α) (i : Int) : Option α := if i < 0 then none else l[i.toNat]?

def slice? (l : List α) (lo hi : Int) : Option (List α) :=
  if 0 ≤ lo ∧ lo ≤ hi ∧ hi ≤ l.length then some ((l.take hi.toNat).drop lo.toNat) else none

def set? (l : List α) (i : Int) (x : α) : Option (List α) :=
  if 0 ≤ i ∧ i < l.length then some (l.set i.toNat x) else none

theorem at?_natCast (l : List α) (i : Nat) : at? l i = l[i]? := by
  rw [at?, if_neg (by omega), Int.toNat_natCast]

theorem slice?_natCast {l : List α} {lo hi : Nat} (h : lo ≤ hi) (hhi : hi ≤ l.length) :
    slice? l lo hi = some ((l.take hi).drop lo) := by
  rw [slice?, if_pos (by omega), Int.toNat_natCast, Int.toNat_natCast]

theorem slice?_take {l : List α} {hi : Nat} (h : hi ≤ l.length) :
    slice? l 0 hi = some (l.take hi) := slice?_natCast (Nat.zero_le _) h

theorem slice?_drop {l : List α} {lo : Nat} (h : lo ≤ l.length) :
    slice? l lo l.length = some (l.drop lo) := by
  rw [slice?_natCast h (Nat.le_refl _), List.take_length]

theorem at?_middle {before rest : List α} {x : α} :
    at? (before ++ x :: rest) before.length = some x := by
  rw [at?_natCast, List.getElem?_append_right (Nat.le_refl _), Nat.sub_self]
  rfl

theorem set?_natCast {l : List α} {i : Nat} (h : i < l.length) (x : α) :
    set? l i x = some (l.set i x) := by
  rw [set?, if_pos (by omega), Int.toNat_natCast]

section Agreement
variable {m : Type → Type} [Monad m]

def within (x : Option α) : OptionT m α := OptionT.mk (pure x)

def fail {ε : Type} [MonadExcept ε m] (e : ε) : OptionT m α := OptionT.lift (throw e)

/-- The computation with accesses does what the other one does, and all accesses are in range. -/
def Agrees (g : OptionT m α) (p : m α) : Prop := g.run = some <$> p

variable [LawfulMonad m] {g : OptionT m α} {p : m α} {f : α → OptionT m β} {q : α → m β}

theorem agrees_lift (p : m α) : Agrees (liftM p) p := by
  rw [Agrees, map_eq_pure_bind]
  rfl

theorem agrees_pure (x : α) : Agrees (pure x : OptionT m α) (pure x) := by
  rw [Agrees, map_pure]
  rfl

theorem agrees_bind (hg : Agrees g p) (hf : ∀ x, Agrees (f x) (q x)) :
    Agrees (g >>= f) (p >>= q) := by
  have hrun (x : α) : (f x).run = some <$> q x := hf x
  rw [Agrees, OptionT.run_bind, Option.elimM, hg, bind_map_left, map_bind]
  simp only [Option.elim_some, hrun]

theorem within_some {x : Option α} {a : α} (h : x = some a) :
    (within x : OptionT m α) >>= f = f a := by
  rw [h, within]
  apply OptionT.ext
  simp [OptionT.run_bind, Option.elimM]

theorem agrees_within {x : Option α} {a : α} (h : x = some a) :
    Agrees (within x : OptionT m α) (pure a) := by
  rw [Agrees, map_pure, h]
  rfl

omit [LawfulMonad m] in
theorem agrees_ite {c : Prop} [Decidable c] {g' : OptionT m α} {p' : m α}
    (h : c → Agrees g p) (h' : ¬ c → Agrees g' p') :
    Agrees (if c then g else g') (if c then p else p') := by
  by_cases hc : c
  · rw [if_pos hc, if_pos hc]
    exact h hc
  · rw [if_neg hc, if_neg hc]
    exact h' hc

theorem agrees_fail {ε : Type} [MonadExcept ε m] (e : ε) :
    Agrees (fail e : OptionT m α) (throw e) := agrees_lift _

theorem agrees_mapM (hf : ∀ x, Agrees (f x) (q x)) (l : List α) :
    Agrees (l.mapM f) (l.mapM q) := by
  induction l with
  | nil => exact agrees_pure []
  | cons x l ih =>
    rw [List.mapM_cons, List.mapM_cons]
    exact agrees_bind (hf x) fun _ => agrees_bind ih fun _ => agrees_pure _

end Agreement

section Failures
variable {ε ε' : Type}

def refailing (f : ε → ε') (g : OptionT (Except ε) α) : OptionT (Except ε') α :=
  OptionT.mk (g.run.mapError f)

theorem agrees_refailing (f : ε → ε') {g : OptionT (Except ε) α} {p : Except ε α}
    (h : Agrees g p) : Agrees (refailing f g) (p.mapError f) := by
  rw [Agrees, refailing, OptionT.run_mk, h]
  cases p <;> rfl

theorem agrees_throw (e : ε) :
    Agrees (throwThe ε e : OptionT (Except ε) α) (throwThe ε e) := rfl

theorem eq_pure_of_agrees {g : OptionT (Except ε) α} {a : α} (h : Agrees g (.ok a)) :
    g = pure a := OptionT.ext h

theorem eq_fail_of_agrees {g : OptionT (Except ε) α} {e : ε} (h : Agrees g (.error e)) :
    g = fail e := OptionT.ext h

/-! Failures as results. -/

section Results
variable {x : ExceptT ε (OptionT Id) α} {y : ExceptT ε Id α}

theorem agrees_result_bind {f : α → ExceptT ε (OptionT Id) β} {q : α → ExceptT ε Id β}
    (hx : Agrees x.run y.run) (hf : ∀ a, y = pure a → Agrees (f a).run (q a).run) :
    Agrees (x >>= f).run (y >>= q).run := by
  have hrun : x.run = pure y.run := hx
  rw [ExceptT.run_bind, ExceptT.run_bind, hrun, pure_bind]
  cases hy : y.run with
  | ok a => exact hf a hy
  | error e => rfl

theorem agrees_result_ite {c : Prop} [Decidable c] {x' : ExceptT ε (OptionT Id) α}
    {y' : ExceptT ε Id α} (h : c → Agrees x.run y.run) (h' : ¬ c → Agrees x'.run y'.run) :
    Agrees (if c then x else x').run (if c then y else y').run := by
  by_cases hc : c
  · rw [if_pos hc, if_pos hc]
    exact h hc
  · rw [if_neg hc, if_neg hc]
    exact h' hc

theorem agrees_result_adapt (f : ε → ε') (hx : Agrees x.run y.run) :
    Agrees (x.adapt f).run (y.adapt f).run := by
  have hrun : x.run = pure y.run := hx
  rw [ExceptT.run_adapt, ExceptT.run_adapt, hrun, map_pure]
  rfl

theorem agrees_result_lift {g : OptionT Id α} {p : Id α} (h : Agrees g p) :
    Agrees (liftM g : ExceptT ε (OptionT Id) α).run (liftM p : ExceptT ε Id α).run := by
  have hg : g = pure p := h
  rw [hg]
  rfl

end Results

/-- What comes of a computation that may fail. -/
def settled (g : OptionT (Except ε) α) : OptionT Id (Except ε α) :=
  match g.run with
  | .ok found => within (found.map .ok)
  | .error e => pure (.error e)

theorem agrees_settled {g : OptionT (Except ε) α} {p : Except ε α} (h : Agrees g p) :
    Agrees (settled g) (pure p) := by
  rw [settled, h]
  cases p <;> rfl

end Failures

def reached {ε σ : Type} : EStateM.Result ε σ α → EStateM.Result ε σ (Option α)
  | .ok a t => .ok (some a) t
  | .error e t => .error e t

theorem agrees_iff {ε σ : Type} {g : OptionT (EStateM ε σ) α} {p : EStateM ε σ α} :
    Agrees g p ↔ ∀ s, g.run s = reached (p s) := by
  have hmap (s : σ) : (some <$> p) s = reached (p s) := by
    change EStateM.map some p s = _
    rw [EStateM.map]
    cases p s <;> rfl
  constructor
  · intro h s
    rw [← hmap s, ← h]
  · intro h
    funext s
    rw [h s, hmap s]

theorem ne_none_of_agrees {ε σ : Type} {g : OptionT (EStateM ε σ) α} {p : EStateM ε σ α}
    (h : Agrees g p) (s t : σ) : g.run s ≠ .ok none t := by
  rw [agrees_iff.1 h s]
  cases p s <;> nofun

def settledAt {ε σ : Type} (g : OptionT (EStateM ε σ) α) (s : σ) :
    OptionT Id (EStateM.Result ε σ α) :=
  match g.run s with
  | .ok found t => within (found.map (.ok · t))
  | .error e t => pure (.error e t)

theorem agrees_settledAt {ε σ : Type} {g : OptionT (EStateM ε σ) α} {p : EStateM ε σ α}
    (h : Agrees g p) (s : σ) : Agrees (settledAt g s) (pure (p s)) := by
  rw [settledAt, agrees_iff.1 h]
  cases p s <;> rfl

/-- What follows has to agree on results that there can be. -/
theorem agrees_bind_ok {ε σ : Type} {g : OptionT (EStateM ε σ) α} {p : EStateM ε σ α}
    {f : α → OptionT (EStateM ε σ) β} {q : α → EStateM ε σ β} (hg : Agrees g p)
    (hf : ∀ s a t, p s = .ok a t → Agrees (f a) (q a)) : Agrees (g >>= f) (p >>= q) := by
  refine agrees_iff.2 fun s => ?_
  have hrun := agrees_iff.1 hg s
  rw [OptionT.run_bind, Option.elimM]
  cases hp : p s with
  | ok a t =>
    rw [hp] at hrun
    rw [Fallible.bind_of_ok hrun, Fallible.bind_of_ok hp]
    exact agrees_iff.1 (hf s a t hp) t
  | error e t =>
    rw [hp] at hrun
    rw [Fallible.bind_of_error hrun, Fallible.bind_of_error hp]
    rfl

end ClassMachine.Indexing
