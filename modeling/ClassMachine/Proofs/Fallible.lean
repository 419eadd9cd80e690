import ClassMachine.Bytes

/-! Computations that change a state and can fail, such as reading a class file, executing an
instruction or calling a native method. The statements say when one computation after another
succeeds, and when it fails. -/
namespace ClassMachine.Fallible
variable {ε σ α β : Type}

theorem bind_ok_iff (p : EStateM ε σ α) (f : α → EStateM ε σ β) (s s' : σ) (b : β) :
    (p >>= f) s = .ok b s' ↔ ∃ a t, p s = .ok a t ∧ f a t = .ok b s' := by
  change EStateM.bind p f s = .ok b s' ↔ _
  simp only [EStateM.bind]
  cases p s with
  | ok a t => simp [and_assoc]
  | error e t => simp

theorem bind_error_iff (p : EStateM ε σ α) (f : α → EStateM ε σ β) (s s' : σ) (e : ε) :
    (p >>= f) s = .error e s' ↔
      p s = .error e s' ∨ ∃ a t, p s = .ok a t ∧ f a t = .error e s' := by
  change EStateM.bind p f s = .error e s' ↔ _
  simp only [EStateM.bind]
  cases p s with
  | ok a t => simp [and_assoc]
  | error e t => simp

theorem bind_of_ok {p : EStateM ε σ α} {s t : σ} {a : α} (h : p s = .ok a t)
    (f : α → EStateM ε σ β) : (p >>= f) s = f a t := by
  change EStateM.bind p f s = f a t
  rw [EStateM.bind, h]

theorem bind_of_error {p : EStateM ε σ α} {s t : σ} {e : ε} (h : p s = .error e t)
    (f : α → EStateM ε σ β) : (p >>= f) s = .error e t := by
  change EStateM.bind p f s = .error e t
  rw [EStateM.bind, h]

theorem bind_of_eq {p q : EStateM ε σ α} {s t : σ} (h : p s = q t) (f : α → EStateM ε σ β) :
    (p >>= f) s = (q >>= f) t := by
  change EStateM.bind p f s = EStateM.bind q f t
  rw [EStateM.bind, EStateM.bind, h]

/-- The second computation matters only where the first one succeeds. -/
theorem bind_congr_ok {p : EStateM ε σ α} {f g : α → EStateM ε σ β} {s : σ}
    (h : ∀ a t, p s = .ok a t → f a t = g a t) : (p >>= f) s = (p >>= g) s := by
  cases hp : p s with
  | ok a t => rw [bind_of_ok hp, bind_of_ok hp, h a t hp]
  | error e t => rw [bind_of_error hp, bind_of_error hp]

theorem pure_ok_iff (x a : α) (s s' : σ) :
    (pure x : EStateM ε σ α) s = .ok a s' ↔ x = a ∧ s = s' := by
  change EStateM.Result.ok x s = .ok a s' ↔ _
  simp

theorem throw_ok_iff (e : ε) (a : α) (s s' : σ) :
    (throw e : EStateM ε σ α) s = .ok a s' ↔ False := by
  change EStateM.Result.error e s = .ok a s' ↔ _
  simp

/-- The state that is left, whether the computation succeeds or not. -/
def final : EStateM.Result ε σ α → σ
  | .ok _ s => s
  | .error _ s => s

def isOk : EStateM.Result ε σ α → Bool
  | .ok _ _ => true
  | .error _ _ => false

/-- The computation respects the relation `R` between states, whether it succeeds or not; what
it gives has the property `P`, and its failures have the property `E`. -/
structure Keeps (R : σ → σ → Prop) (P : α → Prop) (E : ε → Prop) (p : EStateM ε σ α) : Prop where
  ok : ∀ s a t, p s = .ok a t → R s t ∧ P a
  error : ∀ s e t, p s = .error e t → R s t ∧ E e

variable {R : σ → σ → Prop} {P : α → Prop} {Q : β → Prop} {E : ε → Prop}

theorem keeps_of_result {p : EStateM ε σ α}
    (h : ∀ s, match p s with
      | .ok a t => R s t ∧ P a
      | .error e t => R s t ∧ E e) : Keeps R P E p where
  ok := by
    intro s a t hp
    have hs := h s
    rw [hp] at hs
    exact hs
  error := by
    intro s e t hp
    have hs := h s
    rw [hp] at hs
    exact hs

theorem Keeps.final {p : EStateM ε σ α} (h : Keeps R P E p) (s : σ) : R s (final (p s)) := by
  cases hp : p s with
  | ok a t => exact (h.ok s a t hp).1
  | error e t => exact (h.error s e t hp).1

theorem keeps_pure (refl : ∀ s, R s s) {x : α} (hx : P x) :
    Keeps R P E (pure x : EStateM ε σ α) :=
  keeps_of_result fun s => And.intro (refl s) hx

theorem keeps_throw (refl : ∀ s, R s s) {e : ε} (he : E e) :
    Keeps R P E (throw e : EStateM ε σ α) :=
  keeps_of_result fun s => And.intro (refl s) he

theorem keeps_bind {p : EStateM ε σ α} {f : α → EStateM ε σ β}
    (trans : ∀ s t u, R s t → R t u → R s u) (hp : Keeps R P E p)
    (hf : ∀ a, P a → Keeps R Q E (f a)) : Keeps R Q E (p >>= f) where
  ok := by
    intro s b u h
    obtain ⟨a, t, ha, hb⟩ := (bind_ok_iff p f s u b).1 h
    obtain ⟨hst, hP⟩ := hp.ok s a t ha
    obtain ⟨htu, hQ⟩ := (hf a hP).ok t b u hb
    exact ⟨trans s t u hst htu, hQ⟩
  error := by
    intro s e u h
    rcases (bind_error_iff p f s u e).1 h with he | ⟨a, t, ha, he⟩
    · exact hp.error s e u he
    · obtain ⟨hst, hP⟩ := hp.ok s a t ha
      obtain ⟨htu, hE⟩ := (hf a hP).error t e u he
      exact ⟨trans s t u hst htu, hE⟩

section Triples
variable {I I' : σ → Prop} {J J' : α → σ → Prop} {K : β → σ → Prop}
  {F : ε → σ → Prop} {p q : EStateM ε σ α} {f : α → EStateM ε σ β}

/-- From a state that satisfies `I` the computation succeeds as `J` says, or fails as `F`
says. -/
def Triple (I : σ → Prop) (p : EStateM ε σ α) (J : α → σ → Prop) (F : ε → σ → Prop) :
    Prop :=
  ∀ s, I s → match p s with
    | .ok a t => J a t
    | .error e t => F e t

theorem triple_pure {x : α} (h : ∀ s, I s → J x s) :
    Triple I (pure x : EStateM ε σ α) J F := h

theorem triple_throw {e : ε} (h : ∀ s, I s → F e s) :
    Triple I (throw e : EStateM ε σ α) J F := h

theorem triple_bind (hp : Triple I p J F) (hf : ∀ a, Triple (J a) (f a) K F) :
    Triple I (p >>= f) K F := by
  intro s hs
  have h := hp s hs
  cases hr : p s with
  | ok a t =>
    rw [hr] at h
    rw [bind_of_ok hr]
    exact hf a t h
  | error e t =>
    rw [hr] at h
    rw [bind_of_error hr]
    exact h

theorem triple_ite {c : Prop} [Decidable c] (hp : c → Triple I p J F)
    (hq : ¬ c → Triple I q J F) : Triple I (if c then p else q) J F := by
  by_cases hc : c
  · rw [if_pos hc]
    exact hp hc
  · rw [if_neg hc]
    exact hq hc

theorem Triple.weaken (h : Triple I p J F) (hpre : ∀ s, I' s → I s)
    (hpost : ∀ a s, J a s → J' a s) : Triple I' p J' F := by
  intro s hs
  have hr := h s (hpre s hs)
  revert hr
  cases p s with
  | ok a t => exact hpost a t
  | error e t => exact id

theorem Triple.relax {F' : ε → σ → Prop} (h : Triple I p J F) (hfail : ∀ e s, F e s → F' e s) :
    Triple I p J F' := by
  intro s hs
  have hr := h s hs
  revert hr
  cases p s with
  | ok a t => exact id
  | error e t => exact hfail e t

theorem Triple.ok {s t : σ} {a : α} (h : Triple I p J F) (hs : I s)
    (hr : p s = .ok a t) : J a t := by
  have := h s hs
  rwa [hr] at this

theorem Triple.error {s t : σ} {e : ε} (h : Triple I p J F) (hs : I s)
    (hr : p s = .error e t) : F e t := by
  have := h s hs
  rwa [hr] at this

end Triples

end ClassMachine.Fallible
