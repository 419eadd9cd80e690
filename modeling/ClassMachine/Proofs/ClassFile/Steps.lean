import ClassMachine.ClassFile.Parser

/-! Reading a class file in two ways. A relation that holds between the single steps of both, and
between what is put together from related steps, holds between the parts of a class file (`body`).
Inside a Code attribute it is for the relation to say what follows from what. -/
namespace ClassMachine.ClassFile.Parser
open Reading
variable {m m' : Type → Type} [Monad m] [Monad m'] [Reading m] [Reading m']

/-- The relation holds between single steps, and sequences of related steps are related. What is
refused here is not a lack of bytes. -/
structure Related (R : (α : Type) → m α → m' α → Prop) : Prop where
  pure {α : Type} (x : α) : R _ (pure x) (pure x)
  bind {α β : Type} {p : m α} {q : m' α} {f : α → m β} {g : α → m' β} (hp : R _ p q)
    (hf : ∀ a, R _ (f a) (g a)) : R _ (p >>= f) (q >>= g)
  u1 (part : String) : R _ (u1 part) (u1 part)
  u2 (part : String) : R _ (u2 part) (u2 part)
  u4 (part : String) : R _ (u4 part) (u4 part)
  bytes (activity : Activity) (part : String) (n : Nat) :
    R _ (bytes activity part n) (bytes activity part n)
  text (part : String) (pool : Pool) (index : UInt16) :
    R _ (text part pool index) (text part pool index)
  offset : R _ offset offset
  diagnose (d : Diagnostic) : R _ (diagnose d) (diagnose d)
  refuse {α : Type} (e : Error) (he : e.shortRead? = none) : R _ (refuse e : m α) (refuse e)
  during {α : Type} {p : m α} {q : m' α} (activity : Activity) (part : String) (hp : R _ p q) :
    R _ (during activity part p) (during activity part q)
  items {α : Type} {room n i : Nat} {item : Nat → m α} {item' : Nat → m' α}
    (hroom : n = 0 ∨ i + n ≤ room) (hitem : ∀ j, R _ (item j) (item' j)) :
    R _ (items room item n i) (items room item' n i)

namespace Related
variable {R : (α : Type) → m α → m' α → Prop} {d e : Nat} {α : Type}

omit [Monad m] [Monad m'] [Reading m] [Reading m'] in
theorem ite {c : Prop} [Decidable c] {p q : m α} {p' q' : m' α} (hp : R _ p p') (hq : R _ q q') :
    R _ (if c then p else q) (if c then p' else q') := by
  by_cases hc : c
  · rwa [if_pos hc, if_pos hc]
  · rwa [if_neg hc, if_neg hc]

theorem constantOf (h : Related R) (i : Nat) (kind : Kind) :
    R _ (constantOf i kind) (constantOf i kind) := by
  refine ite ?_ (h.bind (h.u2 _) fun a => ite (h.pure _) (ite (h.pure _) ?_))
  · refine h.bind (h.u2 _) fun length => ?_
    exact h.bind (h.bytes _ _ _) fun bytes => h.pure _
  · refine h.bind (h.u2 _) fun b => ite (h.pure _) (ite (h.pure _) ?_)
    exact ite (h.pure _) (h.pure _)

theorem constant (h : Related R) (i : Nat) : R _ (constant i) (constant i) := by
  refine h.bind (h.u1 _) fun tag => ite (h.refuse _ rfl) (ite (h.refuse _ rfl) ?_)
  exact h.constantOf i ⟨tag⟩

theorem pool (h : Related R) (count : UInt16) : R _ (pool count) (pool count) :=
  h.bind (h.items (by omega) h.constant) fun entries => h.pure _

theorem code (h : Related R) {p : m (List Attribute)} {q : m' (List Attribute)}
    (hp : R _ p q) (nameIndex : UInt16) (payload : Bytes) (start : Nat) :
    R _ (code p nameIndex payload start) (code q nameIndex payload start) := by
  refine h.bind (h.u2 _) fun maxStack => h.bind (h.u2 _) fun maxLocals => ?_
  refine h.bind (h.u4 _) fun codeLength => ite (h.bind h.offset fun stop => h.refuse _ rfl) ?_
  refine h.bind (h.bytes _ _ _) fun code => h.bind (h.u2 _) fun exceptions => ?_
  refine h.bind (h.bytes _ _ _) fun _ => h.bind (h.during _ _ hp) fun as => ?_
  exact h.bind h.offset fun stop => ite (h.pure _) (h.refuse _ rfl)

theorem oneAttribute (h : Related R) {p : m (List Attribute)} {q : m' (List Attribute)}
    (hcode : ∀ nameIndex payload start,
      R _ (Reading.during .parsing "Code attribute"
          (inside payload start (Parser.code p nameIndex payload start)))
        (Reading.during .parsing "Code attribute"
          (inside payload start (Parser.code q nameIndex payload start))))
    (pool : Pool) (i : Nat) : R _ (oneAttribute p pool i) (oneAttribute q pool i) := by
  refine h.bind (h.u2 _) fun nameIndex => h.bind (h.u4 _) fun length => ?_
  refine h.bind h.offset fun start => h.bind (h.bytes _ _ _) fun payload => ?_
  refine h.bind (h.text _ _ _) fun name => ite (hcode nameIndex payload start) ?_
  exact h.bind (h.diagnose _) fun _ => h.pure _

theorem attributes (h : Related R) (pool : Pool)
    (hone : ∀ i, R _ (Parser.oneAttribute (attributes pool d) pool i)
      (Parser.oneAttribute (attributes pool e) pool i)) :
    R _ (attributes pool (d + 1)) (attributes pool (e + 1)) :=
  h.bind (h.u2 _) fun count => h.items (by omega) hone

theorem member (h : Related R) {pool : Pool}
    (hattributes : R _ (Parser.attributes pool d) (Parser.attributes pool e)) :
    R _ (member pool d) (member pool e) := by
  refine h.bind (h.u2 _) fun flags => h.bind (h.u2 _) fun nameIndex => ?_
  refine h.bind (h.u2 _) fun descriptorIndex => ?_
  exact h.bind (h.during _ _ hattributes) fun as => h.pure _

theorem header (h : Related R) (want : UInt16) : R _ (header want) (header want) := by
  refine h.bind (h.u4 _) fun found => ite (h.refuse _ rfl) ?_
  refine h.bind (h.u2 _) fun minor => h.bind (h.u2 _) fun major => ?_
  exact ite (h.refuse _ rfl) (h.pure _)

theorem body (h : Related R) (want : UInt16)
    (hattributes : ∀ pool, R _ (Parser.attributes pool d) (Parser.attributes pool e)) :
    R _ (body want d) (body want e) := by
  have hmembers (part : Nat → String) (pool : Pool) (n : Nat) :
      R _ (Reading.items n (fun i => Reading.during .parsing (part i) (Parser.member pool d)) n 0)
        (Reading.items n (fun i => Reading.during .parsing (part i) (Parser.member pool e)) n 0) :=
    h.items (by omega) fun i => h.during _ _ (h.member (hattributes pool))
  refine h.bind (h.header want) fun version => h.bind (h.u2 _) fun count => ?_
  refine h.bind (h.during _ _ (h.pool count)) fun pool => h.bind (h.u2 _) fun flags => ?_
  refine h.bind (h.u2 _) fun thisClass => h.bind (h.u2 _) fun superClass => ?_
  refine h.bind (h.u2 _) fun ni => h.bind (h.items (by omega) fun i => h.u2 _) fun is => ?_
  refine h.bind (h.u2 _) fun nf => h.bind (hmembers _ pool _) fun fields => ?_
  refine h.bind (h.u2 _) fun nm => h.bind (hmembers _ pool _) fun methods => ?_
  exact h.bind (h.during _ _ (hattributes pool)) fun as => h.pure _

end Related

end ClassMachine.ClassFile.Parser
