import Mathlib.Data.List.Nodup
import Mathlib.Logic.Function.Basic
import ClassMachine.Proofs.Library.Printing

/-! Printed text by the calls that it comes from. A ledger has the lines offered so far, each with
the calls it is made of, and for each object the calls whose text waits for a line. Offering a line
and printing without ending it keep the balance of the ledger (`Sound`): what was called is what is
in the lines and what waits. So a call is in one place only (`Sound.existsUnique_place`). -/
namespace ClassMachine.Delivery

deriving instance DecidableEq for Print

structure Piece extends Print where
  number : Nat
deriving DecidableEq

def textOf (ps : List Piece) : Bytes := ps.flatMap fun p => p.text

theorem textOf_append (ps qs : List Piece) : textOf (ps ++ qs) = textOf ps ++ textOf qs :=
  List.flatMap_append

/-- The calls that printed so far, the lines offered with the calls they are made of, and the calls
of each object whose text waits for a line. -/
structure Ledger where
  calls : List Piece := []
  lines : List (List Piece) := []
  waiting : ObjectId → List Piece := fun _ => []

inductive Place
  | line (j : Nat)
  | pending (o : ObjectId)

namespace Ledger

def contents (l : Ledger) : Place → List Piece
  | .line j => l.lines.getD j []
  | .pending o => l.waiting o

def printers (l : Ledger) : List ObjectId := Print.printers (l.calls.map Piece.toPrint)

/-- Offers a line for an object: all that waits, and the call that ends the line if there is one. -/
def offer (l : Ledger) (o : ObjectId) (last : List Piece) : Ledger where
  calls := l.calls ++ last
  lines := l.lines ++ [l.waiting o ++ last]
  waiting := Function.update l.waiting o []

def wait (l : Ledger) (p : Piece) : Ledger where
  calls := l.calls ++ [p]
  lines := l.lines
  waiting := Function.update l.waiting p.object (l.waiting p.object ++ [p])

def print (l : Ledger) (p : Piece) : Ledger := if p.ends then l.offer p.object [p] else l.wait p

/-- Offers a line for each of the objects that has a text waiting, up to the first line that is not
accepted. -/
def flushEach (accepts : Nat → Bool) : List ObjectId → Ledger → Ledger
  | [], l => l
  | o :: os, l =>
    if textOf (l.waiting o) = [] then flushEach accepts os l
    else if accepts l.lines.length then flushEach accepts os (l.offer o [])
    else l.offer o []

def flush (accepts : Nat → Bool) (l : Ledger) : Ledger := l.flushEach accepts l.printers

section Calls

theorem calls_print (l : Ledger) (p : Piece) : (l.print p).calls = l.calls ++ [p] := by
  rw [Ledger.print]
  split_ifs <;> rfl

theorem calls_flushEach (l : Ledger) (accepts : Nat → Bool) (os : List ObjectId) :
    (l.flushEach accepts os).calls = l.calls := by
  induction os generalizing l with
  | nil => rfl
  | cons o os ih =>
    have hoffer : (l.offer o []).calls = l.calls := List.append_nil l.calls
    rw [Ledger.flushEach]
    split_ifs
    · exact ih l
    · rw [ih, hoffer]
    · exact hoffer

/-- A call that ends a line does not make its object wait for a flush. -/
theorem printers_offer (l : Ledger) (o : ObjectId) {last : List Piece}
    (hlast : ∀ p ∈ last, p.ends = true) : (l.offer o last).printers = l.printers := by
  have hnone : (last.map Piece.toPrint).filter (fun p => !p.ends) = [] := by
    simpa using hlast
  simp only [printers, Ledger.offer, Print.printers, List.map_append, List.filter_append, hnone,
    List.append_nil]

end Calls

/-- Every call is in one line or waits for its own object, once, and a call that waits has not
ended a line. -/
structure Sound (l : Ledger) : Prop where
  waits : ∀ o, ∀ p ∈ l.waiting o, p.object = o ∧ p.ends = false
  count : ∀ p, l.lines.flatten.count p + (l.waiting p.object).count p = l.calls.count p

/-! What an operation preserves. -/

section Steps
variable {l : Ledger} {o : ObjectId} {last : List Piece}

theorem mem_update {waiting : ObjectId → List Piece} {ps : List Piece} {i : ObjectId} {p : Piece}
    (h : p ∈ Function.update waiting o ps i) : (i = o ∧ p ∈ ps) ∨ p ∈ waiting i := by
  by_cases hi : i = o
  · rw [hi, Function.update_self] at h
    exact Or.inl ⟨hi, h⟩
  · rw [Function.update_of_ne hi] at h
    exact Or.inr h

theorem Sound.count_of_ne (hl : l.Sound) {p : Piece} (h : p.object ≠ o) :
    (l.waiting o).count p = 0 :=
  List.count_eq_zero.2 fun hp => h (hl.waits o p hp).1

theorem Sound.offer (hl : l.Sound) (hlast : ∀ p ∈ last, p.object = o) : (l.offer o last).Sound where
  waits i p hp := by
    rcases mem_update hp with ⟨-, hp⟩ | hp
    · cases hp
    · exact hl.waits i p hp
  count p := by
    -- what waited for the object is now in the last line
    have hcount := hl.count p
    simp only [Ledger.offer, List.flatten_append, List.flatten_singleton, List.count_append]
    by_cases hp : p.object = o
    · rw [hp] at hcount
      rw [hp, Function.update_self, List.count_nil]
      omega
    · have hwaiting := hl.count_of_ne hp
      have hlast : last.count p = 0 := List.count_eq_zero.2 fun hmem => hp (hlast p hmem)
      rw [Function.update_of_ne hp]
      omega

theorem Sound.wait (hl : l.Sound) {p : Piece} (hends : p.ends = false) : (l.wait p).Sound where
  waits i q hq := by
    rcases mem_update hq with ⟨hi, hq⟩ | hq
    · rcases List.mem_append.1 hq with hq | hq
      · exact hi ▸ hl.waits p.object q hq
      · rw [List.mem_singleton.1 hq]
        exact ⟨hi.symm, hends⟩
    · exact hl.waits i q hq
  count q := by
    have hcount := hl.count q
    simp only [Ledger.wait, List.count_append]
    by_cases hq : q.object = p.object
    · rw [hq] at hcount
      rw [hq, Function.update_self, List.count_append]
      omega
    · have hother : [p].count q = 0 :=
        List.count_eq_zero.2 fun hmem => hq (by rw [List.mem_singleton.1 hmem])
      rw [Function.update_of_ne hq]
      omega

theorem Sound.print (hl : l.Sound) (p : Piece) : (l.print p).Sound := by
  rw [Ledger.print]
  cases hends : p.ends with
  | true => exact hl.offer fun q hq => by rw [List.mem_singleton.1 hq]
  | false => exact hl.wait hends

theorem Sound.flushEach (hl : l.Sound) (accepts : Nat → Bool) (os : List ObjectId) :
    (l.flushEach accepts os).Sound := by
  induction os generalizing l with
  | nil => exact hl
  | cons o os ih =>
    have hoffer : (l.offer o []).Sound := hl.offer (by simp)
    simp only [Ledger.flushEach]
    split_ifs
    · exact ih hl
    · exact ih hoffer
    · exact hoffer

end Steps

/-! Where the calls are. -/

section Places
variable {l : Ledger} {p : Piece}

theorem mem_contents_line {j : Nat} :
    p ∈ l.contents (.line j) ↔ ∃ h : j < l.lines.length, p ∈ l.lines[j] := by
  rw [contents, List.getD_eq_getElem?_getD]
  by_cases h : j < l.lines.length
  · simp [h]
  · simp [h]

theorem mem_flatten_lines : p ∈ l.lines.flatten ↔ ∃ j, p ∈ l.contents (.line j) := by
  simp only [List.mem_flatten, mem_contents_line]
  constructor
  · rintro ⟨ps, hps, hp⟩
    obtain ⟨j, h, rfl⟩ := List.mem_iff_getElem.1 hps
    exact ⟨j, h, hp⟩
  · rintro ⟨j, h, hp⟩
    exact ⟨_, List.getElem_mem h, hp⟩

theorem Sound.mem_calls (hl : l.Sound) {place : Place} (hp : p ∈ l.contents place) :
    p ∈ l.calls := by
  have hcount := hl.count p
  cases place with
  | line j =>
    have hline : 0 < l.lines.flatten.count p := List.count_pos_iff.2 (mem_flatten_lines.2 ⟨j, hp⟩)
    exact List.count_pos_iff.1 (by omega)
  | pending o =>
    have hwaits : 0 < (l.waiting o).count p := List.count_pos_iff.2 hp
    rw [(hl.waits o p hp).1] at hcount
    exact List.count_pos_iff.1 (by omega)

theorem Sound.silent (hl : l.Sound) {o : ObjectId} (ho : o ∉ l.printers) : l.waiting o = [] := by
  refine List.eq_nil_iff_forall_not_mem.2 fun p hp => ho ?_
  obtain ⟨hobject, hends⟩ := hl.waits o p hp
  have hplace : p ∈ l.contents (.pending o) := hp
  have hcall := hl.mem_calls hplace
  exact Print.mem_printers.2 ⟨p.toPrint, List.mem_map_of_mem hcall, hends, hobject⟩

variable (hl : l.Sound) (hcalls : l.calls.Nodup)
include hl hcalls

theorem Sound.count_le_one (p : Piece) :
    l.lines.flatten.count p + (l.waiting p.object).count p ≤ 1 := by
  rw [hl.count]
  exact List.nodup_iff_count_le_one.1 hcalls p

theorem Sound.nodup_lines : l.lines.flatten.Nodup := by
  refine List.nodup_iff_count_le_one.2 fun p => ?_
  have hone := hl.count_le_one hcalls p
  omega

theorem Sound.line_unique {i j : Nat} (hi : p ∈ l.contents (.line i))
    (hj : p ∈ l.contents (.line j)) : i = j := by
  obtain ⟨hilt, hi⟩ := mem_contents_line.1 hi
  obtain ⟨hjlt, hj⟩ := mem_contents_line.1 hj
  have hdisjoint := List.pairwise_iff_getElem.1 (List.nodup_flatten.1 (hl.nodup_lines hcalls)).2
  rcases Nat.lt_trichotomy i j with hij | hij | hij
  · exact absurd hj (hdisjoint i j hilt hjlt hij hi)
  · exact hij
  · exact absurd hi (hdisjoint j i hjlt hilt hij hj)

theorem Sound.nodup_contents (place : Place) : (l.contents place).Nodup := by
  cases place with
  | line j =>
    rw [contents, List.getD_eq_getElem?_getD]
    cases hj : l.lines[j]? with
    | none => exact List.nodup_nil
    | some ps =>
      exact (List.nodup_flatten.1 (hl.nodup_lines hcalls)).1 ps (List.mem_of_getElem? hj)
  | pending o =>
    refine List.nodup_iff_count_le_one.2 fun p => ?_
    change (l.waiting o).count p ≤ 1
    by_cases hp : p.object = o
    · have hone := hl.count_le_one hcalls p
      rw [hp] at hone
      omega
    · rw [hl.count_of_ne hp]
      omega

/-- A call is in one line or waits for its object, and is not in a second place. -/
theorem Sound.existsUnique_place (hp : p ∈ l.calls) : ∃! place, p ∈ l.contents place := by
  by_cases hline : p ∈ l.lines.flatten
  · obtain ⟨j, hj⟩ := mem_flatten_lines.1 hline
    refine ⟨.line j, hj, fun other hother => ?_⟩
    cases other with
    | line i => rw [hl.line_unique hcalls hother hj]
    | pending o =>
      -- the line and the object would have the call twice
      have hone := hl.count_le_one hcalls p
      have hlines := List.count_pos_iff.2 hline
      have hwaits : 0 < (l.waiting o).count p := List.count_pos_iff.2 hother
      rw [(hl.waits o p hother).1] at hone
      omega
  · have hwaits : p ∈ l.waiting p.object := by
      have hcount := hl.count p
      have hcall := List.count_pos_iff.2 hp
      rw [List.count_eq_zero.2 hline] at hcount
      exact List.count_pos_iff.1 (by omega)
    refine ⟨.pending p.object, hwaits, fun other hother => ?_⟩
    cases other with
    | line i => exact absurd (mem_flatten_lines.2 ⟨i, hother⟩) hline
    | pending o => rw [(hl.waits o p hother).1]

end Places

end Ledger

end ClassMachine.Delivery
