import ClassMachine.Proofs.ClassFile.Classification
import ClassMachine.Proofs.ClassFile.Steps

/-! Class files that come as streams. If the announced length is right, all bytes arrive, in
whatever pieces they come (`arriving_eq`). A read of the file that finds too few bytes asks for more
than the file has (`parse_outruns`). So a stream is read like the bytes that it holds. -/
namespace ClassMachine

namespace Stream
variable {s : Stream} {start left used size : Nat}

/-- The length is announced as it is, or not at all. -/
def Honest (s : Stream) : Prop := ∀ n, s.announced = some n → n = s.data.length

theorem Honest.sure (h : s.Honest) : s.sure = s.data.length := by
  rw [Stream.sure]
  split
  · rfl
  · rename_i n hn
    rw [h n hn, if_pos (Nat.le_refl _)]

theorem Honest.loses (h : s.Honest) {stop : Nat} (hstop : stop ≤ s.data.length) (asked : Nat) :
    s.loses stop asked = false := by
  rw [Stream.loses]
  split
  · rfl
  · rename_i n hn
    cases h n hn
    grind

theorem pieceEnd_eq (s : Stream) (start : Nat) : s.pieceEnd start =
    min s.data.length ((s.breaks.filter (start < ·)).min?.getD s.data.length) :=
  List.foldl_min

theorem pieceEnd_le (s : Stream) (start : Nat) : s.pieceEnd start ≤ s.data.length := by
  rw [pieceEnd_eq]
  exact Nat.min_le_left _ _

theorem lt_pieceEnd (h : start < s.data.length) : start < s.pieceEnd start := by
  rw [pieceEnd_eq, Nat.lt_min]
  refine ⟨h, ?_⟩
  cases hmin : (s.breaks.filter (start < ·)).min? with
  | none => exact h
  | some stop => simpa using (List.mem_filter.1 (List.min?_mem hmin)).2

theorem lt_bufferSize (hused : used ≤ size) (hsize : leastRoom ≤ size) :
    used < bufferSize used size ∧ leastRoom ≤ bufferSize used size := by
  rw [leastRoom] at *
  rw [bufferSize, leastRoom]
  split <;> omega

theorem arrivingFrom_eq (h : s.Honest) (hused : used ≤ size) (hsize : leastRoom ≤ size) :
    s.arrivingFrom start left used size = min left (s.data.length - start) := by
  fun_induction arrivingFrom s start left used size with
  | case1 start left used size size' asked stop hstop =>
    obtain ⟨hroom, -⟩ : used < size' ∧ _ := lt_bufferSize hused hsize
    have hend := s.pieceEnd_le start
    have hlost : s.loses stop asked = false := h.loses (by omega) asked
    have hempty : stop ≤ start := by simpa [hlost] using hstop
    -- an empty piece means that nothing is asked for, or that nothing is left
    by_cases hstart : start < s.data.length
    · have := lt_pieceEnd hstart
      omega
    · omega
  | case2 start left used size size' asked stop hstop n ih =>
    obtain ⟨hroom, hleast⟩ : used < size' ∧ leastRoom ≤ size' := lt_bufferSize hused hsize
    have hend := s.pieceEnd_le start
    rw [ih (by omega) hleast]
    have hsome : start < stop := by
      simp only [Bool.or_eq_true, decide_eq_true_eq, not_or, Nat.not_le] at hstop
      exact hstop.1
    omega

/-- A read gets all it asks for, as far as there is so much. -/
theorem arriving_eq (h : s.Honest) (start n : Nat) :
    s.arriving start n = min n (s.data.length - start) :=
  arrivingFrom_eq h (Nat.zero_le _) (Nat.le_refl _)

end Stream

namespace ClassFile
open Fallible

/-- A read of the file that found too few bytes asked for more than the `n` bytes that there are. -/
def Error.Outruns (n : Nat) (e : Error) : Prop :=
  ∀ t, e.shortRead? = some t → t.offset ≤ n ∧ n < t.offset + t.need

theorem Error.shortRead?_classify (e : Error) : e.classify.shortRead? = e.shortRead? := by
  rw [classify]
  split <;> rfl

namespace Parser
open Reading
variable {α β : Type} {n : Nat} {p : Parser α}

def Whole (n : Nat) (s : Scan) : Prop := s.cursor.offset + s.cursor.rest.length = n

/-- The step loses no bytes of the file, and fails to read from it only where the file ends. -/
abbrev Lossless (n : Nat) (p : Parser α) : Prop :=
  Triple (Whole n) p (fun _ => Whole n) fun e _ => e.Outruns n

theorem lossless_pure (x : α) : Lossless n (pure x : Parser α) := triple_pure fun _ hs => hs

theorem lossless_throw {e : Error} (h : e.shortRead? = none) : Lossless n (throw e : Parser α) :=
  triple_throw fun _ _ t ht => by
    rw [h] at ht
    cases ht

theorem lossless_bind {f : α → Parser β} (hp : Lossless n p) (hf : ∀ a, Lossless n (f a)) :
    Lossless n (p >>= f) := triple_bind hp hf

theorem lossless_during (activity : Activity) (part : String) (h : Lossless n p) :
    Lossless n (during activity part p) := by
  refine triple_during activity part (h.relax fun e s he t ht => ?_)
  rw [Error.shortRead?] at ht
  split at ht
  · cases ht
  · exact he t ht

theorem lossless_items {item : Nat → Parser α} (h : ∀ i, Lossless n (item i)) (room m i : Nat) :
    Lossless n (items room item m i) :=
  triple_items (I := fun _ => Whole n) room m i fun j _ => h j

theorem lossless_taking (activity : Activity) (part : String) (m : Nat) (f : Bytes → α) :
    Lossless n (field activity part (Cursor.taking m f)) := by
  intro s hs
  simp only [field]
  cases hr : Cursor.taking m f s.cursor with
  | ok a c =>
    obtain ⟨b, hb, ⟨hrest, hoffset⟩, -⟩ := (Cursor.taking_ok_iff m f s.cursor c a).1 hr
    have hlen := congrArg List.length hrest
    rw [List.length_append] at hlen
    simp only [Whole] at hs ⊢
    omega
  | error t c =>
    obtain ⟨hlt, rfl⟩ := Cursor.truncation_of_taking hr
    intro t ht
    rw [Error.shortRead?] at ht
    split at ht
    · cases ht
    · cases ht
      simp only [Whole] at hs ⊢
      omega

theorem lossless_text (part : String) (pool : Pool) (index : UInt16) :
    Lossless n (text part pool index) := by
  simp only [text, LookUp.text, LookUp.fetch]
  split
  · exact lossless_pure _
  · exact lossless_throw rfl

theorem lossless_related (n : Nat) : Related fun α (p _ : Parser α) => Lossless n p where
  pure := lossless_pure
  bind := lossless_bind
  u1 part := by
    simp only [u1, Cursor.u1_eq_taking]
    exact lossless_taking _ part _ _
  u2 part := by
    simp only [u2, Cursor.u2_eq_taking]
    exact lossless_taking _ part _ _
  u4 part := by
    simp only [u4, Cursor.u4_eq_taking]
    exact lossless_taking _ part _ _
  bytes activity part m := by
    simp only [bytes, Cursor.take_eq_taking]
    exact lossless_taking activity part _ _
  text := lossless_text
  offset := fun _ hs => hs
  diagnose _ := fun _ hs => hs
  refuse _ he := lossless_throw he
  during := lossless_during
  items _ h := lossless_items h _ _ _

/-- A Code attribute is read from its payload, whatever is read there. -/
theorem lossless_payload (payload : Bytes) (start : Nat) (p : Parser α) :
    Lossless n (during .parsing "Code attribute" (inside payload start p)) := by
  intro s hs
  simp only [during, inside]
  cases p { s with cursor := ⟨payload, start⟩ } with
  | ok a t => exact hs
  | error e t =>
    intro t' ht'
    cases ht'

theorem lossless_attributes (pool : Pool) (depth : Nat) : Lossless n (attributes pool depth) := by
  cases depth with
  | zero => exact lossless_throw rfl
  | succ depth =>
    refine (lossless_related n).attributes (e := depth) pool fun i => ?_
    exact (lossless_related n).oneAttribute (q := attributes pool depth)
      (fun _ payload start => lossless_payload payload start _) pool i

theorem lossless_body (want : UInt16) (depth : Nat) : Lossless n (body want depth) :=
  (lossless_related n).body (e := depth) want fun pool => lossless_attributes pool depth

end Parser

theorem parse_outruns {want : UInt16} {data : Bytes} {e : Error}
    (h : (parse want data).1 = .error e) : e.Outruns data.length := by
  obtain ⟨raised, s, hbody, rfl⟩ := body_of_parse_error h
  have hwhole : Parser.Whole data.length { cursor := ⟨data, 0⟩ } := Nat.zero_add _
  have hraised : raised.Outruns data.length := (Parser.lossless_body want _).error hwhole hbody
  intro t ht
  rw [Error.shortRead?_classify] at ht
  exact hraised t ht

/-- A stream that is announced as it is, or not at all, is read like its bytes. -/
theorem parseStream_eq_parse {s : Stream} (h : s.Honest) (want : UInt16) :
    parseStream want s = parse want s.data := by
  rw [parseStream, h.sure, List.take_length]
  split
  · rfl
  · rename_i e he
    split
    · rename_i t ht
      obtain ⟨hoffset, hneed⟩ := parse_outruns he t ht
      have harrive : t.offset + s.arriving t.offset t.need = s.data.length := by
        rw [Stream.arriving_eq h]
        omega
      rw [harrive, List.take_length]
    · rfl

end ClassFile

end ClassMachine
