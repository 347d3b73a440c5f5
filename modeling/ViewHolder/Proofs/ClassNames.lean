import Mathlib
import ViewHolder.Proofs.AccessorNames
import ViewHolder.Proofs.Path

/-!
# Names of classes

A layout name is a sequence of words with separators around them, and the class of its holder is
named by the words: each with its first letter in upper case, `Holder` behind them, and a `_` in
front if the first word starts with a digit.  So the class name of every layout name of ASCII
letters, digits and separators is an identifier, also if there is no word at all, and it depends on
nothing but the words, up to the case of their first letters.

## Main definitions

* `Text.HasWords` : the words of a text.
* `Holder.IsSimpleName` : a name of ASCII letters, digits and separators.
* `Holder.SameWord` : words that agree up to the case of their first letters.
* `Holder.IsClassName` : the texts that name a class.

## Main results

* `Text.hasWords_iff` : a text has exactly one sequence of words.
* `Text.upper_of_isAlphanum` : the upper-case form of an ASCII letter or digit.
* `Holder.toList_className` : the characters of a class name.
* `Holder.className_identifies` : class names are identifiers that depend on the words only.
-/

namespace ViewHolder

/-! ### Words -/

namespace Text

variable {sep : Char → Bool}

/-- A text has some words: they stand in it one after the other, with separators around them. -/
inductive HasWords (sep : Char → Bool) : List Char → List (List Char) → Prop
  /-- An empty text has no words. -/
  | nil : HasWords sep [] []
  /-- A separator is part of no word. -/
  | skip {c cs ws} (hc : sep c = true) (h : HasWords sep cs ws) : HasWords sep (c :: cs) ws
  /-- A word is not empty and goes on to the next separator or to the end. -/
  | word {w cs ws} (hne : w ≠ []) (hw : ∀ c ∈ w, sep c = false)
      (hend : ∀ c ∈ cs.head?, sep c = true) (h : HasWords sep cs ws) :
      HasWords sep (w ++ cs) (w :: ws)

theorem splitBy_cons_of_sep {c : Char} (hc : sep c = true) (cs : List Char) :
    splitBy sep (c :: cs) = splitBy sep cs := by
  simp [splitBy, pieces, hc]

theorem splitBy_append {w cs : List Char} (hne : w ≠ []) (hw : ∀ c ∈ w, sep c = false)
    (hend : ∀ c ∈ cs.head?, sep c = true) : splitBy sep (w ++ cs) = w :: splitBy sep cs := by
  have hpieces : pieces sep w = [w] := pieces_of_forall_not hw
  cases cs with
  | nil => simp [splitBy, pieces, hpieces, hne]
  | cons c cs =>
    have hc : sep c = true := hend c rfl
    rw [splitBy_cons_of_sep hc, splitBy, pieces_append_sep hc, hpieces]
    simp [splitBy, hne]

/-- Every text has words: a character in front of a text is skipped, or it starts a word, or it
goes to the front of the first word. -/
theorem exists_hasWords (sep : Char → Bool) (cs : List Char) : ∃ ws, HasWords sep cs ws := by
  induction cs with
  | nil => exact ⟨[], .nil⟩
  | cons c cs ih =>
    obtain ⟨ws, h⟩ := ih
    by_cases hc : sep c = true
    · exact ⟨ws, .skip hc h⟩
    · have hc : sep c = false := Bool.not_eq_true _ ▸ hc
      have hone : ∀ d ∈ [c], sep d = false := by simpa using hc
      cases h with
      | nil => exact ⟨[[c]], .word (List.cons_ne_nil c []) hone (by simp) .nil⟩
      | skip hd h =>
        exact ⟨[c] :: ws, .word (List.cons_ne_nil c []) hone (by simpa using hd) (.skip hd h)⟩
      | @word w rest ws _ hw hend h =>
        exact ⟨(c :: w) :: ws, .word (List.cons_ne_nil c w) (by simpa [hc] using hw) hend h⟩

/-- **A text has exactly one sequence of words.** -/
theorem hasWords_iff {cs : List Char} {ws : List (List Char)} :
    HasWords sep cs ws ↔ splitBy sep cs = ws := by
  have hsplit {vs : List (List Char)} (h : HasWords sep cs vs) : splitBy sep cs = vs := by
    induction h with
    | nil => rfl
    | skip hc _ ih => rw [splitBy_cons_of_sep hc, ih]
    | word hne hw hend _ ih => rw [splitBy_append hne hw hend, ih]
  constructor
  · exact hsplit
  · rintro rfl
    obtain ⟨vs, h⟩ := exists_hasWords sep cs
    rwa [hsplit h]

theorem HasWords.ne_nil {cs w : List Char} {ws : List (List Char)} (h : HasWords sep cs ws)
    (hw : w ∈ ws) : w ≠ [] := by
  induction h with
  | nil => cases hw
  | skip _ _ ih => exact ih hw
  | word hne _ _ _ ih =>
    rcases List.mem_cons.1 hw with rfl | hw
    · exact hne
    · exact ih hw

theorem HasWords.mem {cs w : List Char} {ws : List (List Char)} (h : HasWords sep cs ws)
    (hw : w ∈ ws) {c : Char} (hc : c ∈ w) : c ∈ cs ∧ sep c = false := by
  rw [hasWords_iff] at h
  subst h
  exact mem_of_mem_pieces (List.mem_filter.1 hw).1 hc

/-! ### ASCII characters -/

theorem isLower_iff_toNat {c : Char} : c.isLower = true ↔ 0x61 ≤ c.toNat ∧ c.toNat ≤ 0x7A := by
  simp [Char.isLower, UInt32.le_iff_toNat_le]

theorem isUpper_iff_toNat {c : Char} : c.isUpper = true ↔ 0x41 ≤ c.toNat ∧ c.toNat ≤ 0x5A := by
  simp [Char.isUpper, UInt32.le_iff_toNat_le]

theorem isDigit_iff_toNat {c : Char} : c.isDigit = true ↔ 0x30 ≤ c.toNat ∧ c.toNat ≤ 0x39 :=
  Char.isDigit_iff_toNat

theorem isAlphanum_iff {c : Char} :
    c.isAlphanum = true ↔ c.isUpper = true ∨ c.isLower = true ∨ c.isDigit = true := by
  simp [Char.isAlphanum, Char.isAlpha, or_assoc]

theorem not_isDigit_of_isUpper {c : Char} (h : c.isUpper = true) : c.isDigit = false := by
  rw [← Bool.not_eq_true, isDigit_iff_toNat]
  rw [isUpper_iff_toNat] at h
  omega

/-- An ASCII letter or digit stays one in upper case. -/
theorem isAlphanum_toUpper {c : Char} (h : c.isAlphanum = true) : c.toUpper.isAlphanum = true := by
  by_cases hlow : c.isLower = true
  · have hupper : c.toUpper.isUpper = true := by simp [Char.isAlpha, hlow]
    exact isAlphanum_iff.2 (.inl hupper)
  · rwa [Char.toUpper_eq_of_not_isLower hlow]

/-- The upper-case form of an ASCII letter or digit is a single character. -/
theorem upper_of_isAlphanum {c : Char} (h : c.isAlphanum = true) : upper c = [c.toUpper] := by
  have hsingle : ∀ e ∈ upperExpansions, 0x7A < e.1 := by decide +kernel
  have hfirst : ∀ run ∈ upperRuns, 0x61 ≤ run.first := by decide +kernel
  rw [isAlphanum_iff, isUpper_iff_toNat, isLower_iff_toNat, isDigit_iff_toNat] at h
  have hlookup : upperExpansions.lookup c.toNat = none :=
    List.lookup_eq_none_iff.2 fun e he => by
      have hkey := hsingle e he
      rw [bne_iff_ne]
      omega
  rw [upper, hlookup]
  by_cases hlow : c.isLower = true
  · -- the lower-case letters are the first run of the table
    obtain ⟨hlo, hhi⟩ := isLower_iff_toNat.1 hlow
    have hrun : upperRuns.find? (·.contains c.toNat) = some ⟨0x61, 0x7A, 1, -32⟩ := by
      rw [upperRuns, List.find?_cons_of_pos]
      simp [CaseRun.contains, hlo, hhi, Nat.mod_one]
    have hshift : ((c.toNat : Int) + -32).toNat = c.toNat - 32 := by omega
    rw [hrun, Char.toUpper_eq_of_isLower hlow]
    simp only [hshift]
  · -- the other ones stand before all runs
    have hnone : upperRuns.find? (·.contains c.toNat) = none :=
      List.find?_eq_none.2 fun run hrun => by
        have hbound := hfirst run hrun
        rw [isLower_iff_toNat] at hlow
        simp only [CaseRun.contains, Bool.and_eq_true, decide_eq_true_eq]
        omega
    rw [hnone, Char.toUpper_eq_of_not_isLower hlow]

end Text

namespace Holder

/-- A name of ASCII letters and digits and of separators: `_`, `-`, `.` and white space. -/
def IsSimpleName (n : String) : Prop :=
  ∀ c ∈ n.toList, c.isAlphanum = true ∨ c = '_' ∨ c = '-' ∨ c = '.' ∨ Text.isBlank c = true

instance (n : String) : Decidable (IsSimpleName n) := List.decidableBAll _ n.toList

/-- Two words agree up to the case of their first letters. -/
def SameWord (v w : List Char) : Prop :=
  v.head?.map Char.toUpper = w.head?.map Char.toUpper ∧ v.tail = w.tail

/-- Whether the first one of some words starts with a digit. -/
def startsWithDigit (ws : List (List Char)) : Bool := (ws.head?.bind List.head?).any Char.isDigit

/-- A text that names the class of some words. -/
structure IsClassName (ws : List (List Char)) (name : String) : Prop extends IsIdentifier name where
  /-- The characters are ASCII letters and digits, but for at most one `_` in front. -/
  spelled : ∃ lead body, name.toList = lead ++ body ∧ (lead = [] ∨ lead = ['_']) ∧
    ∀ c ∈ body, c.isAlphanum = true
  /-- The text ends in `Holder`. -/
  suffix : "Holder".toList <:+ name.toList
  /-- It starts with an upper-case letter unless the first word starts with a digit. -/
  capital : startsWithDigit ws = false → ∃ c ∈ name.toList.head?, c.isUpper = true

theorem className_eq (n : String) : className n = String.ofList
    (guardDigit ((words n).flatMap Text.capitalize ++ "Holder".toList)) := by
  have hguard (cs : List Char) :
      guardDigit (cs ++ "Holder".toList) = guardDigit cs ++ "Holder".toList := by
    cases cs with
    | nil => decide +kernel
    | cons c cs =>
      rw [List.cons_append, guardDigit, guardDigit]
      split <;> rfl
  rw [hguard, String.ofList_append, String.ofList_toList, className]

/-- A digit in front of a text is guarded by a `_`, and otherwise nothing is added. -/
theorem guardDigit_eq (cs : List Char) :
    guardDigit cs = (if cs.head?.any Char.isDigit then ['_'] else []) ++ cs := by
  cases cs with
  | nil => rfl
  | cons c cs =>
    rw [guardDigit, List.head?_cons, Option.any_some]
    split <;> rfl

/-! ### Names of letters, digits and separators -/

/-- The characters of the class name of some words, but for a `_` in front. -/
def classBody (ws : List (List Char)) : List Char :=
  ws.flatMap (List.modifyHead Char.toUpper) ++ "Holder".toList

section

variable {n : String} {ws : List (List Char)} (hn : IsSimpleName n)
  (hws : Text.HasWords isWordSeparator n.toList ws)
include hn hws

theorem isAlphanum_of_mem_word {w : List Char} (hw : w ∈ ws) {c : Char} (hc : c ∈ w) :
    c.isAlphanum = true := by
  obtain ⟨hmem, hword⟩ := hws.mem hw hc
  simp only [isWordSeparator, Bool.or_eq_false_iff, beq_eq_false_iff_ne] at hword
  obtain ⟨⟨⟨hline, hdash⟩, hdot⟩, hblank⟩ := hword
  simpa [hline, hdash, hdot, hblank] using hn c hmem

/-- The class of a simple name is named by the words alone. -/
theorem className_of_words : className n = String.ofList (guardDigit (classBody ws)) := by
  have hwords : words n = ws := Text.hasWords_iff.1 hws
  have hcapitalize : ws.flatMap Text.capitalize = ws.flatMap (List.modifyHead Char.toUpper) := by
    refine List.flatMap_congr fun w hw => ?_
    cases w with
    | nil => rfl
    | cons c cs =>
      have hc : c.isAlphanum = true := isAlphanum_of_mem_word hn hws hw List.mem_cons_self
      rw [Text.capitalize, Text.upper_of_isAlphanum hc]
      rfl
  rw [className_eq, hwords, hcapitalize, classBody]

theorem isAlphanum_of_mem_classBody {c : Char} (hc : c ∈ classBody ws) : c.isAlphanum = true := by
  have hsuffix : ∀ c ∈ "Holder".toList, c.isAlphanum = true := by simp
  rcases List.mem_append.1 hc with hc | hc
  · obtain ⟨w, hw, hc⟩ := List.mem_flatMap.1 hc
    have hletters : ∀ d ∈ w, d.isAlphanum = true := fun d hd => isAlphanum_of_mem_word hn hws hw hd
    cases w with
    | nil => cases hc
    | cons d w =>
      rcases List.mem_cons.1 hc with rfl | hc
      · exact Text.isAlphanum_toUpper (hletters d List.mem_cons_self)
      · exact hletters c (List.mem_cons_of_mem d hc)
  · exact hsuffix c hc

/-- The class name of words that do not start with a digit starts with an upper-case letter. -/
theorem exists_head_classBody (hdigit : startsWithDigit ws = false) :
    ∃ c ∈ (classBody ws).head?, c.isUpper = true := by
  cases ws with
  | nil => exact ⟨'H', rfl, rfl⟩
  | cons w ws =>
    obtain ⟨c, cs, rfl⟩ := List.exists_cons_of_ne_nil (hws.ne_nil List.mem_cons_self)
    have hc : c.isAlphanum = true :=
      isAlphanum_of_mem_word hn hws List.mem_cons_self List.mem_cons_self
    have halpha : c.isAlpha = true := by
      have hc' : c.isDigit = false := hdigit
      rwa [Char.isAlphanum, hc', Bool.or_false] at hc
    exact ⟨c.toUpper, rfl, by rwa [Char.isUpper_toUpper_eq_isAlpha]⟩

theorem isClassName_className : IsClassName ws (className n) := by
  have hbody := fun c => isAlphanum_of_mem_classBody hn hws (c := c)
  have hne : classBody ws ≠ [] := by simp [classBody]
  have hname := className_of_words hn hws
  have hspelled : IsSpelledIdentifier (className n) := by
    rw [hname]
    exact isSpelledIdentifier_guardDigit hne fun c hc => isIdentifierChar_iff.2 (.inl (hbody c hc))
  have hchars : (className n).toList =
      (if (classBody ws).head?.any Char.isDigit then ['_'] else []) ++ classBody ws := by
    rw [hname, String.toList_ofList, guardDigit_eq]
  have hsuffix : "Holder".toList <:+ (className n).toList := by
    rw [hchars]
    exact (List.suffix_append _ _).trans (List.suffix_append _ _)
  refine ⟨⟨hspelled, fun hreserved => ?_⟩, ⟨_, _, hchars, ?_, hbody⟩, hsuffix, fun hdigit => ?_⟩
  · have htable : ∀ word ∈ reservedWords, 'H' ∉ word.toList := by decide +kernel
    exact htable _ hreserved (hsuffix.subset (by decide))
  · split
    · exact .inr rfl
    · exact .inl rfl
  · obtain ⟨c, hc, hupper⟩ := exists_head_classBody hn hws hdigit
    have hplain : (classBody ws).head?.any Char.isDigit = false := by
      rw [hc, Option.any_some, Text.not_isDigit_of_isUpper hupper]
    rw [hchars, hplain]
    exact ⟨c, hc, hupper⟩

end

/-- Words that agree up to the case of their first letters name the same class. -/
theorem classBody_congr {vs ws : List (List Char)} (h : List.Forall₂ SameWord vs ws) :
    classBody vs = classBody ws := by
  have hword {v w : List Char} (h : SameWord v w) :
      v.modifyHead Char.toUpper = w.modifyHead Char.toUpper := by
    obtain ⟨hhead, htail⟩ := h
    cases v with
    | nil => cases w <;> simp_all
    | cons c v => cases w <;> simp_all
  have hwords : vs.flatMap (List.modifyHead Char.toUpper) =
      ws.flatMap (List.modifyHead Char.toUpper) := by
    induction h with
    | nil => rfl
    | cons hfirst _ ih => rw [List.flatMap_cons, List.flatMap_cons, hword hfirst, ih]
  rw [classBody, classBody, hwords]

/-- **Class names are identifiers that depend on the words only.**  A layout name of ASCII letters,
digits and separators has one sequence of words, which may be empty.  Its class name is an
identifier that ends in `Holder`, of ASCII letters and digits with at most one `_` in front, and it
starts with an upper-case letter unless the first word starts with a digit.  Every other such name
whose words differ in the case of their first letters only has the same class name. -/
theorem className_identifies {n : String} (hn : IsSimpleName n) :
    ∃ ws, (∀ vs, Text.HasWords isWordSeparator n.toList vs ↔ vs = ws) ∧
      IsClassName ws (className n) ∧
      ∀ m vs, IsSimpleName m → Text.HasWords isWordSeparator m.toList vs →
        List.Forall₂ SameWord vs ws → className m = className n := by
  obtain ⟨ws, hws⟩ := Text.exists_hasWords isWordSeparator n.toList
  refine ⟨ws, fun vs => ?_, isClassName_className hn hws, fun m vs hm hvs hsame => ?_⟩
  · rw [Text.hasWords_iff, Text.hasWords_iff.1 hws, eq_comm]
  · rw [className_of_words hn hws, className_of_words hm hvs, classBody_congr hsame]

/-- A name that starts with a digit and has separators of all kinds, and a name of the same words
with other separators and another case of first letters. -/
theorem className_identifies_separatedWords :
    let n := "_2pane\u00a0list-.ITEM "
    let m := "2pane.List iTEM"
    let vs := ["2pane".toList, "List".toList, "iTEM".toList]
    let ws := ["2pane".toList, "list".toList, "ITEM".toList]
    IsSimpleName n ∧ IsClassName ws (className n) ∧ IsSimpleName m ∧
      Text.HasWords isWordSeparator m.toList vs ∧ List.Forall₂ SameWord vs ws ∧
      className m = className n := by
  intro n m vs ws
  have hn : IsSimpleName n := by decide +kernel
  have hm : IsSimpleName m := by decide +kernel
  have hws : Text.HasWords isWordSeparator n.toList ws := Text.hasWords_iff.2 (by decide +kernel)
  have hvs : Text.HasWords isWordSeparator m.toList vs := Text.hasWords_iff.2 (by decide +kernel)
  obtain ⟨us, hus, hclass, hsame⟩ := className_identifies hn
  obtain rfl : ws = us := (hus ws).1 hws
  have hwords : List.Forall₂ SameWord vs ws := by simp [vs, ws, SameWord]
  exact ⟨hn, hclass, hm, hvs, hwords, hsame m vs hm hvs hwords⟩

/-- A name without words is named by the ending alone. -/
example : className "_-. " = "Holder" := by decide +kernel

end Holder

end ViewHolder
