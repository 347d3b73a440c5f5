import Mathlib.Data.List.Lex
import ViewHolder.Text.Distance

/-!
# The bytes of texts

A text is stored as the bytes of its characters, one character after the other.  The bytes of two
texts stand in the order of the texts: the byte that tells two characters apart is smaller for the
smaller one.

## Main definitions

* `Text.bytes` : the bytes of a text.
* `Text.SplitsBelow` : two lists are told apart by an element that both have.

## Main results

* `Text.bytes_lt_bytes_iff` : the order of bytes is the order of texts.
* `Text.bytes_injective` : texts with the same bytes are equal.
-/

namespace ViewHolder.Text

/-- The bytes of a text. -/
def bytes (s : String) : List UInt8 := s.toByteArray.data.toList

theorem bytes_eq (s : String) : bytes s = s.toList.flatMap String.utf8EncodeChar := by
  rw [bytes, ← String.utf8Encode_toList, List.utf8Encode, List.toList_data_toByteArray]

/-- The distance of texts is that of their bytes. -/
theorem byteDistance_eq (s t : String) : byteDistance s t = distance (bytes s) (bytes t) := by
  rw [bytes_eq, bytes_eq, byteDistance]

/-! ### The first difference -/

/-- Two lists differ at a place that both of them have, and the first such element of the first
list is smaller than that of the second one. -/
def SplitsBelow {α : Type} [LT α] (l m : List α) : Prop :=
  ∃ front x y back back', l = front ++ x :: back ∧ m = front ++ y :: back' ∧ x < y

section

variable {α : Type} [LT α] {x y : α} {l m : List α}

theorem splitsBelow_cons : SplitsBelow (x :: l) (y :: m) ↔ x < y ∨ x = y ∧ SplitsBelow l m := by
  constructor
  · rintro ⟨front, a, b, back, back', hl, hm, hlt⟩
    cases front with
    | nil =>
      obtain ⟨rfl, -⟩ := List.cons.inj hl
      obtain ⟨rfl, -⟩ := List.cons.inj hm
      exact .inl hlt
    | cons c front =>
      obtain ⟨rfl, rfl⟩ := List.cons.inj hl
      obtain ⟨rfl, rfl⟩ := List.cons.inj hm
      exact .inr ⟨rfl, front, a, b, back, back', rfl, rfl, hlt⟩
  · rintro (hlt | ⟨rfl, front, a, b, back, back', rfl, rfl, hlt⟩)
    · exact ⟨[], x, y, l, m, rfl, rfl, hlt⟩
    · exact ⟨x :: front, a, b, back, back', rfl, rfl, hlt⟩

theorem SplitsBelow.append (h : SplitsBelow l m) (more more' : List α) :
    SplitsBelow (l ++ more) (m ++ more') := by
  obtain ⟨front, a, b, back, back', rfl, rfl, hlt⟩ := h
  exact ⟨front, a, b, back ++ more, back' ++ more', by simp, by simp, hlt⟩

theorem SplitsBelow.lt (h : SplitsBelow l m) : l < m := by
  obtain ⟨front, a, b, back, back', rfl, rfl, hlt⟩ := h
  induction front with
  | nil => exact List.Lex.rel hlt
  | cons c front ih => exact List.Lex.cons ih

end

/-- Two characters are told apart by a byte of theirs, which is smaller for the smaller one. -/
theorem splitsBelow_utf8EncodeChar {c d : Char} (h : c < d) :
    SplitsBelow (String.utf8EncodeChar c) (String.utf8EncodeChar d) := by
  have hlt : c.val.toNat < d.val.toNat := UInt32.lt_iff_toNat_lt.1 h
  have hmax : d.val.toNat < 0x110000 := by
    rcases d.valid with hd | ⟨-, hd⟩
    · omega
    · exact hd
  -- The bytes of a character hold the digits of its number in base 64.
  have hdigits {v : Nat} (hv : v < 0x110000) :
      v / 64 / 64 = v / 4096 ∧ v / 4096 / 64 = v / 262144 ∧ v / 262144 % 8 = v / 262144 :=
    ⟨Nat.div_div_eq_div_mul v 64 64, Nat.div_div_eq_div_mul v 4096 64, by omega⟩
  have hv := hdigits (hlt.trans hmax)
  have hw := hdigits hmax
  unfold String.utf8EncodeChar
  generalize c.val.toNat = v at hlt hv
  generalize d.val.toNat = w at hlt hmax hw
  dsimp only
  have hbyte {n m : Nat} (hn : n < 2 ^ 8) (hm : m < 2 ^ 8) :
      (UInt8.ofNat n < UInt8.ofNat m ↔ n < m) ∧ (UInt8.ofNat n = UInt8.ofNat m ↔ n = m) := by
    rw [UInt8.lt_iff_toNat_lt, ← UInt8.toNat_inj, UInt8.toNat_ofNat', UInt8.toNat_ofNat',
      Nat.mod_eq_of_lt hn, Nat.mod_eq_of_lt hm]
    exact ⟨.rfl, .rfl⟩
  split_ifs <;> simp (disch := omega) only [splitsBelow_cons, hbyte] <;> omega

theorem splitsBelow_or_prefix {s t : List Char} (h : s < t) :
    SplitsBelow (s.flatMap String.utf8EncodeChar) (t.flatMap String.utf8EncodeChar) ∨
      ∃ c rest, t = s ++ c :: rest := by
  induction h with
  | nil => exact .inr ⟨_, _, rfl⟩
  | rel hlt => exact .inl ((splitsBelow_utf8EncodeChar hlt).append _ _)
  | @cons c s t _ ih =>
    rcases ih with ⟨front, x, y, back, back', hs, ht, hlt⟩ | ⟨d, rest, rfl⟩
    · refine .inl ⟨String.utf8EncodeChar c ++ front, x, y, back, back', ?_, ?_, hlt⟩
      · rw [List.flatMap_cons, hs, List.append_assoc]
      · rw [List.flatMap_cons, ht, List.append_assoc]
    · exact .inr ⟨d, rest, rfl⟩

/-- The bytes of a smaller text are smaller. -/
theorem bytes_lt_bytes {s t : String} (h : s < t) : bytes s < bytes t := by
  rw [bytes_eq, bytes_eq]
  rcases splitsBelow_or_prefix h with hsplit | ⟨c, rest, ht⟩
  · exact hsplit.lt
  · rw [ht, List.flatMap_append, List.flatMap_cons]
    obtain ⟨b, bs, hb⟩ := List.exists_cons_of_ne_nil (String.utf8EncodeChar_ne_nil (c := c))
    rw [hb, List.cons_append]
    exact (List.append_nil _).symm.trans_lt (List.append_left_lt (List.nil_lt_cons _ _))

/-- **The order of bytes is the order of texts.** -/
theorem bytes_lt_bytes_iff {s t : String} : bytes s < bytes t ↔ s < t := by
  refine ⟨fun h => String.not_le.1 fun hle => ?_, bytes_lt_bytes⟩
  rcases eq_or_ne t s with rfl | hne
  · exact List.lt_irrefl _ h
  · have hlt : t < s := String.not_le.1 fun hge => hne (String.le_antisymm hle hge)
    exact List.lt_asymm h (bytes_lt_bytes hlt)

theorem bytes_injective : Function.Injective bytes := by
  intro s t h
  refine String.le_antisymm (String.not_lt.1 fun hlt => ?_) (String.not_lt.1 fun hlt => ?_)
  · exact List.lt_irrefl _ (h ▸ bytes_lt_bytes hlt)
  · exact List.lt_irrefl _ (h ▸ bytes_lt_bytes hlt)

end ViewHolder.Text
