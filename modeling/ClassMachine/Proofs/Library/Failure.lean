import ClassMachine.Proofs.Library.Heap
import ClassMachine.Proofs.Library.Printing

/-! Calls that fail. A method of the standard library looks at its receiver and at its argument
before it changes anything, and what it does then goes wrong only if the sink refuses a line. So
over a sink that takes every line, a call that fails leaves the store as it found it
(`standardMethods_spare`). -/
namespace ClassMachine
open Fallible

namespace Registry
open Native
variable {S : Store → Prop} {m : Method}

theorem standardMethods_spare (hsink : ∀ s, S s → ∀ k, s.sink.accepts k = true)
    (hm : m ∈ standardMethods) (args : List Value) :
    Triple S (m.invoke args) (fun _ _ => True) fun _ => S := by
  refine triple_invoke fun hargs s hs => ?_
  have hends := standardMethods_ends hm hargs s
  generalize m.run args s = r at hends
  cases hends with
  | refused _ => exact hs
  | untaken _ hk => exact absurd (hk.symm.trans (hsink s hs _)) (by decide)
  | _ => trivial

/-- Every method takes at least one value: the receiver or the argument. -/
theorem arity_pos (hm : m ∈ standardMethods) : 0 < m.arity := by
  have hall : ∀ m ∈ builtins.map Builtin.method, 0 < m.arity := by decide
  exact hall m (mem_standardMethods_iff.1 hm)

end Registry

end ClassMachine
