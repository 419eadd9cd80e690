import ClassMachine.Proofs.Library.Natives

/-! Two runs of one computation, over a sink that takes every line and over one that takes `n`
lines. They do the same until a line is refused, and then the second one fails; `Follows` says so,
and the methods of the standard library are shown to follow from the parts they consist of
(`follows_closed`). What was taken until then is what the first run wrote, cut after `n` lines
(`Refused`), and from then on nothing more is taken (`stuck_closed`). -/
namespace ClassMachine
open Fallible
variable {ε σ α β : Type} {n : Nat} {s t u : Store}

def Store.upTo (n : Nat) (s : Store) : Store :=
  { s with sink := { s.sink with accepts := (Sink.upTo n).accepts } }

def Store.Extends (s t : Store) : Prop := s.sink.offers <+: t.sink.offers

/-- The sink takes every line, and was not offered more than `n` so far. -/
structure Within (n : Nat) (s : Store) : Prop where
  accepts : ∀ k, s.sink.accepts k = true
  taken : ∀ x ∈ s.sink.offers, x.2 = true
  length : s.sink.offers.length ≤ n

/-- The first store has more than `n` lines, and the second one refused those after `n`. -/
structure Refused (n : Nat) (s u : Store) : Prop where
  more : n < s.sink.lines.length
  lines : u.sink.lines = s.sink.lines.take n
  accepts : u.sink.accepts = (Sink.upTo n).accepts
  full : n ≤ u.sink.offers.length

theorem Within.of_sink (hs : Within n s) (h : t.sink = s.sink) : Within n t := by
  refine ⟨?_, ?_, ?_⟩
  · rw [h]
    exact hs.accepts
  · rw [h]
    exact hs.taken
  · rw [h]
    exact hs.length

theorem Within.lines (hs : Within n s) : s.sink.lines = s.sink.offered := by
  have hall : s.sink.offers.filter Prod.snd = s.sink.offers :=
    List.filter_eq_self.2 hs.taken
  rw [Sink.lines, hall, Sink.offered]

theorem Store.Extends.lines (h : s.Extends t) : s.sink.lines <+: t.sink.lines :=
  (h.filter Prod.snd).map Prod.fst

theorem Refused.of_extends (h : Refused n s u) (ht : s.Extends t) : Refused n t u := by
  obtain ⟨more, hmore⟩ := ht.lines
  refine ⟨?_, ?_, h.accepts, h.full⟩
  · exact Nat.lt_of_lt_of_le h.more ht.lines.length_le
  · rw [h.lines, ← hmore, List.take_append_of_le_length (Nat.le_of_lt h.more)]

def mapState (f : σ → σ) : EStateM.Result ε σ α → EStateM.Result ε σ α
  | .ok x s => .ok x (f s)
  | .error e s => .error e (f s)

/-- As long as at most `n` lines are written, the computation does the same from the image of a
state, and then it fails there. -/
structure Follows (n : Nat) (view : σ → Store) (image : σ → σ) (p : EStateM ε σ α) : Prop where
  grows : ∀ s, (view s).Extends (view (final (p s)))
  follows : ∀ s, Within n (view s) →
    (Within n (view (final (p s))) ∧ p (image s) = mapState image (p s)) ∨
    ∃ e u, p (image s) = .error e u ∧ Refused n (view (final (p s))) (view u)

section Follows
variable {view : σ → Store} {image : σ → σ} {p : EStateM ε σ α} {f : α → EStateM ε σ β}

/-- A computation that does not write, and for which the sink makes no difference. -/
theorem follows_of_quiet (hsink : ∀ s, (view (final (p s))).sink = (view s).sink)
    (himage : ∀ s, p (image s) = mapState image (p s)) : Follows n view image p where
  grows s := by
    have hoffers := congrArg Sink.offers (hsink s)
    exact ⟨[], by rw [List.append_nil, hoffers]⟩
  follows s hs := Or.inl ⟨hs.of_sink (hsink s), himage s⟩

theorem follows_pure (x : α) : Follows n view image (pure x : EStateM ε σ α) :=
  follows_of_quiet (fun _ => rfl) fun _ => rfl

theorem follows_throw (e : ε) : Follows n view image (throw e : EStateM ε σ α) :=
  follows_of_quiet (fun _ => rfl) fun _ => rfl

theorem follows_bind (hp : Follows n view image p)
    (hf : ∀ s x t, p s = .ok x t → Follows n view image (f x)) :
    Follows n view image (p >>= f) where
  grows s := by
    have hgrows := hp.grows s
    cases hr : p s with
    | ok x t =>
      rw [bind_of_ok hr]
      rw [hr] at hgrows
      exact hgrows.trans ((hf s x t hr).grows t)
    | error e t =>
      rw [bind_of_error hr]
      rw [hr] at hgrows
      exact hgrows
  follows s hs := by
    rcases hp.follows s hs with ⟨hwithin, himage⟩ | ⟨e, u, himage, hrefused⟩
    · cases hr : p s with
      | ok x t =>
        rw [hr] at hwithin himage
        rw [bind_of_ok hr, bind_of_ok himage]
        exact (hf s x t hr).follows t hwithin
      | error e t =>
        rw [hr] at hwithin himage
        rw [bind_of_error hr, bind_of_error himage]
        exact Or.inl ⟨hwithin, rfl⟩
    · -- the second run has failed; the first one may go on, and only adds lines
      refine Or.inr ⟨e, u, bind_of_error himage f, ?_⟩
      cases hr : p s with
      | ok x t =>
        rw [hr] at hrefused
        rw [bind_of_ok hr]
        exact hrefused.of_extends ((hf s x t hr).grows t)
      | error e t =>
        rw [hr] at hrefused
        rw [bind_of_error hr]
        exact hrefused

end Follows

def Store.withOffer (s : Store) (line : Bytes) (taken : Bool) : Store :=
  { s with sink := { s.sink with offers := s.sink.offers ++ [(line, taken)] } }

theorem lines_withOffer (s : Store) (line : Bytes) (taken : Bool) :
    (s.withOffer line taken).sink.lines = s.sink.lines ++ if taken then [line] else [] := by
  cases taken <;> simp [Store.withOffer, Sink.lines]

namespace Native

theorem writeLine_taken (line : Bytes) (h : s.sink.accepts s.sink.offers.length = true) :
    writeLine line s = .ok () (s.withOffer line true) := by
  simp only [writeLine, Sink.offer, h, Store.withOffer]

theorem writeLine_refused (line : Bytes) (h : s.sink.accepts s.sink.offers.length = false) :
    writeLine line s = .error .sinkFull (s.withOffer line false) := by
  simp only [writeLine, Sink.offer, h, Store.withOffer]

theorem follows_writeLine (line : Bytes) : Follows n id (Store.upTo n) (writeLine line) where
  grows s := by
    cases h : s.sink.accepts s.sink.offers.length with
    | true =>
      rw [writeLine_taken line h]
      exact List.prefix_append _ _
    | false =>
      rw [writeLine_refused line h]
      exact List.prefix_append _ _
  follows s hs := by
    change Within n s at hs
    have hfirst := writeLine_taken line (hs.accepts s.sink.offers.length)
    have hlength : s.sink.lines.length = s.sink.offers.length := by
      rw [hs.lines, Sink.offered, List.length_map]
    rw [hfirst]
    -- the line is the first one that is refused, or the sinks still agree
    by_cases hroom : s.sink.offers.length < n
    · have hsecond : writeLine line (s.upTo n) = .ok () ((s.upTo n).withOffer line true) :=
        writeLine_taken line (decide_eq_true hroom)
      refine Or.inl ⟨⟨hs.accepts, ?_, ?_⟩, hsecond⟩
      · intro x hx
        rcases List.mem_append.1 hx with hx | hx
        · exact hs.taken x hx
        · rw [List.mem_singleton.1 hx]
      · simpa [final, Store.withOffer] using Nat.succ_le_of_lt hroom
    · have hsecond : writeLine line (s.upTo n) =
          .error .sinkFull ((s.upTo n).withOffer line false) :=
        writeLine_refused line (decide_eq_false hroom)
      have hn : s.sink.lines.length = n := by
        have := hs.length
        omega
      have hold : (s.upTo n).sink.lines = s.sink.lines := rfl
      refine Or.inr ⟨_, _, hsecond, ?_, ?_, rfl, ?_⟩
      · simp only [final, id_eq, lines_withOffer, if_true, List.length_append, List.length_singleton]
        omega
      · simp only [final, id_eq, lines_withOffer, hold, if_true, Bool.false_eq_true, if_false,
          List.append_nil]
        rw [List.take_left' hn]
      · simp only [id_eq, Store.withOffer, Store.upTo, List.length_append, List.length_singleton]
        omega

theorem follows_closed : Closed fun _ => Follows n id (Store.upTo n) where
  pure := follows_pure
  throw := follows_throw
  bind hc hf := follows_bind hc fun _ x _ _ => hf x
  reading {_ read} hread := by
    refine follows_of_quiet (fun s => ?_) fun s => ?_
    · simp only [reading]
      cases read s <;> rfl
    · have hsame : read (s.upTo n) = read s := hread s s.pending (s.upTo n).sink
      simp only [reading, hsame]
      cases read s <;> rfl
  setBuilderText _ _ := follows_of_quiet (fun _ => rfl) fun _ => rfl
  takePending o := by
    refine follows_of_quiet (fun s => ?_) fun s => ?_
    · simp only [takePending]
      cases s.pending.get? o <;> rfl
    · simp only [takePending, Store.upTo]
      cases s.pending.get? o <;> rfl
  addPending _ _ := follows_of_quiet (fun _ => rfl) fun _ => rfl
  writeLine := follows_writeLine

theorem follows_flush : Follows n id (Store.upTo n) flush where
  grows s := ((follows_closed (n := n)).flushEach s.pending.keys).grows s
  follows s := (follows_closed.flushEach s.pending.keys).follows s

/-- Once the sink has been offered `n` lines, nothing more is written. -/
def Stuck (n : Nat) (s t : Store) : Prop :=
  s.sink.accepts = (Sink.upTo n).accepts → n ≤ s.sink.offers.length →
    t.sink.accepts = (Sink.upTo n).accepts ∧ n ≤ t.sink.offers.length ∧
      t.sink.lines = s.sink.lines

theorem stuck_closed : Closed fun _ => Keeps (Stuck n) (fun _ => True) (fun _ => True) where
  pure _ := keeps_pure (fun _ h hn => ⟨h, hn, rfl⟩) trivial
  throw _ := keeps_throw (fun _ h hn => ⟨h, hn, rfl⟩) trivial
  bind hc hf := keeps_bind (fun s t u hst htu h hn => by
    obtain ⟨ht, hnt, hlines⟩ := hst h hn
    obtain ⟨hu, hnu, hlines'⟩ := htu ht hnt
    exact ⟨hu, hnu, hlines'.trans hlines⟩) hc fun x _ => hf x
  reading {_ read} _ := by
    refine keeps_of_result fun s => ?_
    simp only [reading]
    cases read s <;> exact ⟨fun h hn => ⟨h, hn, rfl⟩, trivial⟩
  setBuilderText _ _ := keeps_of_result fun _ => And.intro (fun h hn => ⟨h, hn, rfl⟩) trivial
  takePending o := by
    refine keeps_of_result fun s => ?_
    simp only [takePending]
    cases s.pending.get? o <;> exact ⟨fun h hn => ⟨h, hn, rfl⟩, trivial⟩
  addPending _ _ := keeps_of_result fun _ => And.intro (fun h hn => ⟨h, hn, rfl⟩) trivial
  writeLine line := by
    refine keeps_of_result fun s => ?_
    cases hk : s.sink.accepts s.sink.offers.length with
    | true =>
      rw [writeLine_taken line hk]
      refine ⟨fun h hn => ?_, trivial⟩
      rw [h] at hk
      exact absurd (of_decide_eq_true hk) (Nat.not_lt.2 hn)
    | false =>
      rw [writeLine_refused line hk]
      refine ⟨fun h hn => ⟨h, ?_, ?_⟩, trivial⟩
      · simp only [Store.withOffer, List.length_append]
        omega
      · rw [lines_withOffer]
        simp

theorem stuck_flush (s : Store) : Stuck n s (final (flush s)) :=
  (stuck_closed.flushEach s.pending.keys).final s

end Native

theorem Refused.of_stuck (h : Refused n s u) (ht : Native.Stuck n u t) : Refused n s t := by
  obtain ⟨haccepts, hfull, hlines⟩ := ht h.accepts h.full
  exact ⟨h.more, hlines.trans h.lines, haccepts, hfull⟩

end ClassMachine
