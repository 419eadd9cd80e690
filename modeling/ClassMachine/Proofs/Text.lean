import Mathlib.Tactic.IntervalCases
import ClassMachine.Text.Utf8

/-! Characters and numbers as bytes. A byte string is read as UTF-8 exactly if it is the encoding of
some characters, and then it is read as these (`Utf8.chars?_eq_some_iff`); so valid strings can be
put together. Numbers are written in decimal as usual (`Bytes.signed_eq`), each in its own way
(`Bytes.signed_injective`) and without blanks. -/
namespace ClassMachine

namespace Utf8

/-- The last `count` digits of a number to base 64, as continuation bytes. -/
def tail : Nat → Nat → Bytes
  | 0, _ => []
  | count + 1, n => UInt8.ofNat (n / 64 ^ count % 64 + 128) :: tail count n

def width (n : Nat) : Nat :=
  if n < 128 then 0 else if n < 2048 then 1 else if n < 65536 then 2 else 3

def mark : Nat → Nat
  | 0 => 0
  | 1 => 192
  | 2 => 224
  | _ => 240

theorem length_tail (count n : Nat) : (tail count n).length = count := by
  induction count with
  | zero => rfl
  | succ count ih => exact congrArg (· + 1) ih

theorem toNat_lt (c : Char) : c.toNat < 1114112 := by
  have hvalid : c.toNat.isValidChar := c.valid
  omega

theorem width_cases (n : Nat) : (width n = 0 ∧ n < 128) ∨ (width n = 1 ∧ 128 ≤ n ∧ n < 2048) ∨
    (width n = 2 ∧ 2048 ≤ n ∧ n < 65536) ∨ (width n = 3 ∧ 65536 ≤ n) := by
  unfold width
  split_ifs <;> omega

theorem encode_eq (c : Char) : encode c =
    UInt8.ofNat (c.toNat / 64 ^ width c.toNat + mark (width c.toNat)) ::
      tail (width c.toNat) c.toNat := by
  have hlt := toNat_lt c
  rw [encode, String.utf8EncodeChar, Char.toNat_val]
  rcases width_cases c.toNat with ⟨hw, h⟩ | ⟨hw, hlow, h⟩ | ⟨hw, hlow, h⟩ | ⟨hw, hlow⟩
  · rw [hw, if_pos (by omega)]
    simp [tail, mark]
  · have hbits : c.toNat / 64 % 32 = c.toNat / 64 := Nat.mod_eq_of_lt (by omega)
    rw [hw, if_neg (by omega), if_pos (by omega), hbits]
    simp [tail, mark]
  · have hbits : c.toNat / 4096 % 16 = c.toNat / 4096 := Nat.mod_eq_of_lt (by omega)
    rw [hw, if_neg (by omega), if_neg (by omega), if_pos (by omega), hbits]
    simp [tail, mark]
  · have hbits : c.toNat / 262144 % 8 = c.toNat / 262144 := Nat.mod_eq_of_lt (by omega)
    rw [hw, if_neg (by omega), if_neg (by omega), if_neg (by omega), hbits]
    simp [tail, mark]

theorem continuation_ofNat {d : Nat} (hd : d < 64) (count n : Nat) (rest : Bytes) :
    continuation (count + 1) n (UInt8.ofNat (d + 128) :: rest) =
      continuation count (n * 64 + d) rest := by
  have hbyte : (UInt8.ofNat (d + 128)).toNat = d + 128 :=
    UInt8.toNat_ofNat_of_lt' (show d + 128 < 256 by omega)
  have hd' : (d + 128) % 64 = d := by omega
  have hlow : (128 : UInt8) ≤ UInt8.ofNat (d + 128) := by
    rw [UInt8.le_iff_toNat_le, hbyte]
    exact Nat.le_add_left 128 d
  have hhigh : UInt8.ofNat (d + 128) < (192 : UInt8) := by
    rw [UInt8.lt_iff_toNat_lt, hbyte]
    exact Nat.add_lt_add_right hd 128
  rw [continuation, hbyte, hd', decide_eq_true hlow, decide_eq_true hhigh]
  rfl

theorem exists_of_continuation {count m n : Nat} {s : Bytes}
    (h : continuation (count + 1) m s = some n) : ∃ d < 64, ∃ rest,
      s = UInt8.ofNat (d + 128) :: rest ∧ continuation count (m * 64 + d) rest = some n := by
  cases s with
  | nil => cases h
  | cons b rest =>
    rw [continuation] at h
    split at h
    case isFalse => cases h
    case isTrue hrange =>
      obtain ⟨hlow, hhigh⟩ : 128 ≤ b.toNat ∧ b.toNat < 192 := by
        simpa [UInt8.le_iff_toNat_le, UInt8.lt_iff_toNat_lt] using hrange
      have hb : b.toNat % 64 + 128 = b.toNat := by omega
      refine ⟨b.toNat % 64, Nat.mod_lt _ (by omega), rest, ?_, h⟩
      rw [hb, UInt8.ofNat_toNat]

/-- Continuation bytes are read into a number exactly if they are its last digits. -/
theorem continuation_eq_some_iff {count m n : Nat} {s : Bytes} :
    continuation count m s = some n ↔ m = n / 64 ^ count ∧ ∃ rest, s = tail count n ++ rest := by
  induction count generalizing m s with
  | zero => simp [continuation, tail]
  | succ count ih =>
    have hdiv : n / 64 ^ (count + 1) = n / 64 ^ count / 64 := by
      rw [Nat.pow_succ, Nat.div_div_eq_div_mul]
    constructor
    · intro h
      obtain ⟨d, hd, rest, rfl, htail⟩ := exists_of_continuation h
      obtain ⟨hnum, rest', rfl⟩ := ih.1 htail
      have hdigit : d = n / 64 ^ count % 64 := by omega
      exact ⟨by omega, rest', by rw [tail, ← hdigit]; rfl⟩
    · rintro ⟨rfl, rest, rfl⟩
      rw [tail, List.cons_append, continuation_ofNat (Nat.mod_lt _ (by omega))]
      exact ih.2 ⟨by omega, rest, rfl⟩

theorem lead_ofNat {a : Nat} (h : a < 256) : lead (UInt8.ofNat a) =
    if a < 128 then some (a, 0, 0)
    else if a < 192 then none
    else if a < 224 then some (a % 32, 1, 128)
    else if a < 240 then some (a % 16, 2, 2048)
    else if a < 248 then some (a % 8, 3, 65536)
    else none := by
  have hbyte : (UInt8.ofNat a).toNat = a := UInt8.toNat_ofNat_of_lt' h
  simp only [lead, UInt8.lt_iff_toNat_lt, hbyte]
  rfl

theorem next?_cons_iff {a : UInt8} {rest : Bytes} {c : Char} {count : Nat} :
    next? (a :: rest) = some (c, count) ↔ ∃ bits least, lead a = some (bits, count, least) ∧
      continuation count bits rest = some c.toNat ∧ least ≤ c.toNat := by
  constructor
  · intro h
    obtain ⟨⟨bits, count', least⟩, hlead, h⟩ := Option.bind_eq_some_iff.1 h
    obtain ⟨n, hn, hsome⟩ := Option.bind_eq_some_iff.1 h
    by_cases hleast : least ≤ n ∧ n.isValidChar
    · rw [dif_pos hleast] at hsome
      cases hsome
      exact ⟨bits, least, hlead, hn, hleast.1⟩
    · rw [dif_neg hleast] at hsome
      cases hsome
  · rintro ⟨bits, least, hlead, hn, hleast⟩
    refine Option.bind_eq_some_iff.2 ⟨_, hlead, Option.bind_eq_some_iff.2 ⟨_, hn, ?_⟩⟩
    rw [dif_pos ⟨hleast, c.valid⟩]
    exact congrArg (fun c => some (c, count)) (Char.toNat_inj.1 rfl)

/-- Of the first bytes that carry the high bits of a code point, only the one that announces as many
bytes as it needs is accepted. -/
theorem lead_iff {a : UInt8} {count n : Nat} (hn : n < 1114112) :
    (∃ least, lead a = some (n / 64 ^ count, count, least) ∧ least ≤ n) ↔
      count = width n ∧ a = UInt8.ofNat (n / 64 ^ count + mark count) := by
  constructor
  · rintro ⟨least, hlead, hleast⟩
    obtain ⟨a, ha, rfl⟩ : ∃ m < 256, a = UInt8.ofNat m := ⟨a.toNat, a.toNat_lt, by simp⟩
    rw [lead_ofNat ha] at hlead
    have hwidth := width_cases n
    split_ifs at hlead <;> simp only [Option.some.injEq, Prod.mk.injEq] at hlead <;>
      obtain ⟨hbits, rfl, rfl⟩ := hlead <;> norm_num at hbits <;>
      refine ⟨by omega, congrArg UInt8.ofNat ?_⟩ <;> simp only [mark] <;> omega
  · rintro ⟨rfl, rfl⟩
    rcases width_cases n with ⟨hw, h⟩ | ⟨hw, hlow, h⟩ | ⟨hw, hlow, h⟩ | ⟨hw, hlow⟩ <;>
      rw [hw, lead_ofNat (by simp only [mark]; omega)] <;> simp only [mark]
    · exact ⟨0, if_pos (by omega), Nat.zero_le n⟩
    · have hbits : (n / 64 ^ 1 + 192) % 32 = n / 64 ^ 1 := by omega
      refine ⟨128, ?_, hlow⟩
      rw [if_neg (by omega), if_neg (by omega), if_pos (by omega), hbits]
    · have hbits : (n / 64 ^ 2 + 224) % 16 = n / 64 ^ 2 := by omega
      refine ⟨2048, ?_, hlow⟩
      rw [if_neg (by omega), if_neg (by omega), if_neg (by omega), if_pos (by omega), hbits]
    · have hbits : (n / 64 ^ 3 + 240) % 8 = n / 64 ^ 3 := by omega
      refine ⟨65536, ?_, hlow⟩
      rw [if_neg (by omega), if_neg (by omega), if_neg (by omega), if_neg (by omega),
        if_pos (by omega), hbits]

/-- A character is read at the head of a string exactly if the string starts with its encoding. -/
theorem next?_eq_some_iff {s : Bytes} {c : Char} {count : Nat} :
    next? s = some (c, count) ↔ count = width c.toNat ∧ ∃ rest, s = encode c ++ rest := by
  cases s with
  | nil => simp [next?, encode_eq]
  | cons a rest =>
    rw [next?_cons_iff, encode_eq]
    constructor
    · rintro ⟨bits, least, hlead, hcont, hleast⟩
      obtain ⟨rfl, rest, rfl⟩ := continuation_eq_some_iff.1 hcont
      obtain ⟨rfl, rfl⟩ := (lead_iff (toNat_lt c)).1 ⟨least, hlead, hleast⟩
      exact ⟨rfl, rest, rfl⟩
    · rintro ⟨rfl, rest', hs⟩
      obtain ⟨rfl, rfl⟩ := List.cons.inj hs
      obtain ⟨least, hlead, hleast⟩ := (lead_iff (toNat_lt c)).2 ⟨rfl, rfl⟩
      exact ⟨_, least, hlead, continuation_eq_some_iff.2 ⟨rfl, rest', rfl⟩, hleast⟩

theorem charsFrom?_eq_drop (skip : Nat) (s : Bytes) : charsFrom? skip s = chars? (s.drop skip) := by
  induction s generalizing skip with
  | nil => cases skip <;> rfl
  | cons b rest ih =>
    cases skip with
    | zero => rfl
    | succ skip => exact ih skip

theorem chars?_encode_append (c : Char) (rest : Bytes) :
    chars? (encode c ++ rest) = (chars? rest).map (c :: ·) := by
  have hnext : next? (encode c ++ rest) = some (c, width c.toNat) :=
    next?_eq_some_iff.2 ⟨rfl, rest, rfl⟩
  have htail : charsFrom? (width c.toNat) (tail (width c.toNat) c.toNat ++ rest) = chars? rest := by
    rw [charsFrom?_eq_drop, List.drop_left' (length_tail _ _)]
  rw [encode_eq, List.cons_append] at hnext ⊢
  simp only [chars?, charsFrom?, hnext, htail, Option.bind_eq_bind, Option.bind_some]
  exact Option.map_eq_bind.symm

theorem exists_of_chars? {b : UInt8} {s : Bytes} {cs : List Char} (h : chars? (b :: s) = some cs) :
    ∃ c rest cs', b :: s = encode c ++ rest ∧ cs = c :: cs' := by
  simp only [chars?, charsFrom?, Option.bind_eq_bind, Option.bind_eq_some_iff] at h
  obtain ⟨⟨c, count⟩, hnext, cs', hcs, hlist⟩ := h
  cases hlist
  obtain ⟨rest, hs⟩ := (next?_eq_some_iff.1 hnext).2
  exact ⟨c, rest, cs', hs, rfl⟩

/-- A byte string is read as the characters that it is the encoding of. -/
theorem chars?_eq_some_iff {s : Bytes} {cs : List Char} : chars? s = some cs ↔ s = ofChars cs := by
  constructor
  · intro h
    -- on the characters, each of which takes several bytes off the string
    induction cs generalizing s with
    | nil =>
      cases s with
      | nil => rfl
      | cons b s =>
        obtain ⟨_, _, _, _, hcons⟩ := exists_of_chars? h
        cases hcons
    | cons c cs ih =>
      cases s with
      | nil => cases h
      | cons b s =>
        obtain ⟨_, rest, _, hs, hcons⟩ := exists_of_chars? h
        cases hcons
        rw [hs, chars?_encode_append, Option.map_eq_some_iff] at h
        obtain ⟨cs', hrest, hcons⟩ := h
        cases hcons
        rw [hs, ih hrest]
        rfl
  · rintro rfl
    induction cs with
    | nil => rfl
    | cons c cs ih =>
      have hchars : ofChars (c :: cs) = encode c ++ ofChars cs := List.flatMap_cons
      rw [hchars, chars?_encode_append, ih]
      rfl

theorem valid_iff {s : Bytes} : valid s = true ↔ ∃ cs, s = ofChars cs := by
  rw [valid, Option.isSome_iff_exists]
  exact exists_congr fun _ => chars?_eq_some_iff

theorem valid_ofChars (cs : List Char) : valid (ofChars cs) = true := valid_iff.2 ⟨cs, rfl⟩

theorem valid_utf8 (text : String) : valid (utf8 text) = true := valid_ofChars text.toList

theorem valid_encode (c : Char) : valid (encode c) = true := by
  simpa [ofChars] using valid_ofChars [c]

theorem valid_append {s t : Bytes} (hs : valid s = true) (ht : valid t = true) :
    valid (s ++ t) = true := by
  obtain ⟨cs, rfl⟩ := valid_iff.1 hs
  obtain ⟨ds, rfl⟩ := valid_iff.1 ht
  exact valid_iff.2 ⟨cs ++ ds, List.flatMap_append.symm⟩

end Utf8

namespace Bytes

theorem utf8_digitChar {d : Nat} (h : d < 10) :
    String.utf8EncodeChar d.digitChar = [Bytes.digit d] := by
  interval_cases d <;> rfl

theorem decimal_eq (n : Nat) : Bytes.decimal n = utf8 (toString n) := by
  rw [utf8, Nat.toString_eq_repr, Nat.toList_repr]
  fun_induction Bytes.decimal n with
  | case1 n hlt =>
    rw [Nat.toDigits_of_lt_base hlt]
    simp [Bytes.utf8_digitChar hlt]
  | case2 n hge ih =>
    rw [Nat.toDigits_eq_if (by omega), if_neg hge, List.flatMap_append, ih]
    simp [Bytes.utf8_digitChar (Nat.mod_lt n (by omega))]

theorem signed_eq (n : Int) : Bytes.signed n = utf8 (toString n) := by
  cases n with
  | ofNat n => exact decimal_eq n
  | negSucc n =>
    rw [signed, decimal_eq, Int.toString_eq_repr, Int.repr_eq_if, if_neg (by omega)]
    rw [utf8, utf8, String.toList_append, List.flatMap_append]
    rfl

def numeral (s : Bytes) : Nat := s.foldl (fun n b => n * 10 + (b.toNat - 48)) 0

theorem toNat_digit {d : Nat} (h : d < 10) : (digit d).toNat = 48 + d :=
  UInt8.toNat_ofNat_of_lt' (show 48 + d < 256 by omega)

theorem numeral_decimal (n : Nat) : numeral (decimal n) = n := by
  fun_induction decimal n with
  | case1 n hlt => simp [numeral, toNat_digit hlt]
  | case2 n hge ih =>
    have hdigit := toNat_digit (Nat.mod_lt n (show 0 < 10 by omega))
    rw [numeral] at ih ⊢
    rw [List.foldl_append, ih, List.foldl_cons, List.foldl_nil, hdigit]
    omega

theorem decimal_injective : Function.Injective decimal :=
  Function.LeftInverse.injective numeral_decimal

theorem le_of_mem_decimal {n : Nat} {b : UInt8} (h : b ∈ decimal n) : 48 ≤ b.toNat := by
  fun_induction decimal n with
  | case1 n hlt =>
    cases List.mem_singleton.1 h
    rw [toNat_digit hlt]
    omega
  | case2 n hge ih =>
    rcases List.mem_append.1 h with hmem | hmem
    · exact ih hmem
    · cases List.mem_singleton.1 hmem
      rw [toNat_digit (Nat.mod_lt n (by omega))]
      omega

theorem decimal_ne_minus (n : Nat) (s : Bytes) : decimal n ≠ 45 :: s := by
  intro h
  have hminus : 45 ∈ decimal n := h ▸ List.mem_cons_self
  exact absurd (le_of_mem_decimal hminus) (by decide)

theorem blank_notMem_decimal (n : Nat) : 32 ∉ decimal n :=
  fun h => absurd (le_of_mem_decimal h) (by decide)

theorem signed_injective : Function.Injective signed := by
  intro m n h
  cases m with
  | ofNat m =>
    cases n with
    | ofNat n => exact congrArg Int.ofNat (decimal_injective h)
    | negSucc n => exact absurd h (decimal_ne_minus m _)
  | negSucc m =>
    cases n with
    | ofNat n => exact absurd h.symm (decimal_ne_minus n _)
    | negSucc n =>
      have hsucc : m + 1 = n + 1 := decimal_injective (List.cons.inj h).2
      exact congrArg Int.negSucc (Nat.succ.inj hsucc)

theorem blank_notMem_signed (n : Int) : 32 ∉ signed n := by
  cases n with
  | ofNat n => exact blank_notMem_decimal n
  | negSucc n => simpa [signed] using blank_notMem_decimal (n + 1)

def Spaced (s : Bytes) : Prop := ∀ b ∈ s.head?, b = 32

theorem spaced_nil : Spaced [] := nofun

theorem spaced_cons (s : Bytes) : Spaced (32 :: s) := fun _ hb => (Option.mem_some_iff.1 hb).symm

/-- A word in front of a blank can be told from what comes behind it. -/
theorem append_inj_of_spaced {s s' t t' : Bytes} (hs : 32 ∉ s) (hs' : 32 ∉ s') (ht : Spaced t)
    (ht' : Spaced t') (h : s ++ t = s' ++ t') : s = s' ∧ t = t' := by
  -- the word is what comes before the first blank
  have hword {s t : Bytes} (hs : 32 ∉ s) (ht : Spaced t) : (s ++ t).takeWhile (· ≠ 32) = s := by
    rw [List.takeWhile_append_of_pos fun b hb => decide_eq_true (ne_of_mem_of_not_mem hb hs)]
    cases t with
    | nil => exact List.append_nil s
    | cons b t => simp [ht b rfl]
  have heq : s = s' := by rw [← hword hs ht, h, hword hs' ht']
  subst heq
  exact ⟨rfl, List.append_cancel_left h⟩

end Bytes

end ClassMachine
