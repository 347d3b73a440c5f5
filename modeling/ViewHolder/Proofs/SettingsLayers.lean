import Mathlib
import ViewHolder.Settings.Environment

/-!
# Settings under the environment

Each variable of the environment belongs to one setting.  A value that says something replaces this
setting, any other value leaves it as it was, and no variable touches another setting.  The level of
verbosity is the exception: a value that names no level does not leave it, but makes it the normal
one.

## Main definitions

* `TrimsTo`, `SpellsWord` : a text with blanks around it, and a word in any case of its letters.
* `DenotesPackage`, `DenotesDir`, `DenotesFlag`, `DenotesCount`, `DenotesLevel` : what the value of
  a variable says.
* `Layered` : a setting after the value of a variable has been looked at.
* `SetsLevel` : what any value makes of the level of verbosity.
* `Settings.LayeredUnder` : settings of which each is layered by its own variable.

## Main results

* `layered_iff_eq_getD` : what a reader that finds what values say makes of a setting.
* `Settings.override_layered` : the settings after the environment has been looked at.
* `Settings.override_resets_level` : a level that is lost to a value that names none.
-/

namespace ViewHolder

/-! ### Texts with blanks around them -/

/-- The core of a text is what stands between the blanks at its two ends. -/
structure TrimsTo (text : String) (core : List Char) : Prop where
  /-- Before and behind the core there are blanks only. -/
  blank : ∃ front back, text.toList = front ++ core ++ back ∧
    (∀ c ∈ front, Text.isBlank c = true) ∧ ∀ c ∈ back, Text.isBlank c = true
  /-- The core starts with no blank. -/
  head : ∀ c ∈ core.head?, Text.isBlank c = false
  /-- The core ends in no blank. -/
  last : ∀ c ∈ core.getLast?, Text.isBlank c = false

namespace Text

theorem not_of_mem_head?_dropWhile {p : Char → Bool} {cs : List Char} {c : Char}
    (h : c ∈ (cs.dropWhile p).head?) : p c = false := by
  have hhead := List.head?_dropWhile_not p cs
  rwa [h] at hhead

theorem dropWhile_eq_self {p : Char → Bool} {cs : List Char} (h : ∀ c ∈ cs.head?, p c = false) :
    cs.dropWhile p = cs := by
  cases cs with
  | nil => rfl
  | cons c cs => exact List.dropWhile_cons_of_neg (by simp [h c rfl])

theorem dropEndWhile_append {p : Char → Bool} {cs back : List Char}
    (hback : ∀ c ∈ back, p c = true) (hlast : ∀ c ∈ cs.getLast?, p c = false) :
    dropEndWhile p (cs ++ back) = cs := by
  rw [dropEndWhile, List.reverse_append,
    List.dropWhile_append_of_pos fun c hc => hback c (List.mem_reverse.1 hc),
    dropWhile_eq_self (by rwa [List.head?_reverse]), List.reverse_reverse]

/-- Trimming finds the core of a text. -/
theorem trimChars_eq_iff {text : String} {core : List Char} :
    trimChars text.toList = core ↔ TrimsTo text core := by
  have hdrop (cs : List Char) : dropEndWhile isBlank cs = cs.rdropWhile isBlank := rfl
  constructor
  · rintro rfl
    refine ⟨⟨text.toList.takeWhile isBlank, (text.toList.dropWhile isBlank).rtakeWhile isBlank, ?_,
      fun c hc => List.mem_takeWhile_imp hc, fun c hc => List.mem_rtakeWhile_imp hc⟩,
      fun c hc => ?_, fun c hc => ?_⟩
    · rw [trimChars, hdrop, List.append_assoc, List.rdropWhile_append_rtakeWhile,
        List.takeWhile_append_dropWhile]
    · rw [trimChars, hdrop] at hc
      obtain ⟨back, hback⟩ := List.rdropWhile_prefix isBlank (text.toList.dropWhile isBlank)
      have hhead : c ∈ (text.toList.dropWhile isBlank).head? := by
        rw [← hback, List.head?_append, hc]
        rfl
      exact not_of_mem_head?_dropWhile hhead
    · rw [trimChars, dropEndWhile, List.getLast?_reverse] at hc
      exact not_of_mem_head?_dropWhile hc
  · rintro ⟨⟨front, back, htext, hfront, hback⟩, hhead, hlast⟩
    rw [trimChars, htext, List.append_assoc, List.dropWhile_append_of_pos hfront]
    cases core with
    | nil => rw [List.nil_append, List.dropWhile_eq_nil_iff.2 hback]; rfl
    | cons c core => rw [dropWhile_eq_self (by simpa using hhead), dropEndWhile_append hback hlast]

end Text

/-! ### Words in any case -/

/-- The characters are those of a word, each of them as it stands or as a capital letter. -/
def SpellsWord (cs : List Char) (word : String) : Prop :=
  List.Forall₂ (fun c letter => c = letter ∨ c = letter.toUpper) cs word.toList

/-- A character becomes a small one exactly if it is this one or its capital. -/
theorem toLower_eq_iff {c letter : Char} (h : letter.toLower = letter) :
    c.toLower = letter ↔ c = letter ∨ c = letter.toUpper := by
  constructor
  · rintro rfl
    by_cases hc : c.isUpper = true
    · have hself : c.toUpper = c := Char.toUpper_eq_of_not_isLower (Char.not_isLower_of_isUpper hc)
      exact Or.inr (by rw [Char.toUpper_toLower_eq_toUpper, hself])
    · exact Or.inl (Char.toLower_eq_of_not_isUpper hc).symm
  · rintro (rfl | rfl)
    · exact h
    · rw [Char.toLower_toUpper_eq_toLower, h]

/-- A word without capital letters is found by making all letters small. -/
theorem map_toLower_eq_iff {cs : List Char} {word : String}
    (hword : ∀ letter ∈ word.toList, letter.toLower = letter) :
    cs.map Char.toLower = word.toList ↔ SpellsWord cs word := by
  unfold SpellsWord
  generalize word.toList = letters at hword
  induction letters generalizing cs with
  | nil => cases cs <;> simp
  | cons letter letters ih =>
    obtain ⟨hletter, hothers⟩ := List.forall_mem_cons.1 hword
    cases cs with
    | nil => simp
    | cons c cs =>
      rw [List.map_cons, List.cons.injEq, List.forall₂_cons, toLower_eq_iff hletter, ih hothers]

/-! ### What values say -/

/-- A value says the name of a package: what it is without the blanks around it, if anything is
left. -/
def DenotesPackage (text name : String) : Prop := name ≠ "" ∧ TrimsTo text name.toList

/-- A value that is not empty says the path of a directory. -/
def DenotesDir (text : String) (dir : Path) : Prop := text ≠ "" ∧ dir.text = text

/-- The words for a truth value. -/
def flagWords : Bool → List String
  | true => ["true", "1", "yes", "on"]
  | false => ["false", "0", "no", "off"]

/-- A value says yes or no: one of the words for it in any case, with blanks around it. -/
def DenotesFlag (text : String) (flag : Bool) : Prop :=
  ∃ core, TrimsTo text core ∧ ∃ word ∈ flagWords flag, SpellsWord core word

/-- The number that some decimal digits write. -/
def decimalValue (digits : List Char) : Nat :=
  Nat.ofDigits 10 (digits.map fun c => c.toNat - '0'.toNat).reverse

/-- The characters are decimal digits, at least one, and write a number. -/
structure WritesNumber (digits : List Char) (n : Nat) : Prop where
  nonempty : digits ≠ []
  digit : ∀ c ∈ digits, c.isDigit = true
  value : n = decimalValue digits

/-- A value says a number of 64 bits: decimal digits, with a plus sign or without and with blanks
around them. -/
def DenotesCount (text : String) (n : Nat) : Prop :=
  n < 2 ^ 64 ∧ ∃ sign digits, TrimsTo text (sign ++ digits) ∧ (sign = [] ∨ sign = ['+']) ∧
    WritesNumber digits n

/-- A value says a level: its name in any case, without blanks around it. -/
def DenotesLevel (text : String) (level : Verbosity) : Prop := SpellsWord text.toList level.name

/-! ### Reading values -/

theorem nameOf?_eq_some_iff {text name : String} :
    nameOf? text = some name ↔ DenotesPackage text name := by
  have htrim : Text.trim text = name ↔ TrimsTo text name.toList := by
    rw [← Text.trimChars_eq_iff, Text.trim, ← String.toList_inj, String.toList_ofList]
  rw [nameOf?, DenotesPackage, ← htrim]
  by_cases hempty : (Text.trim text).isEmpty = true
  · have hnil : Text.trim text = "" := String.isEmpty_iff.1 hempty
    rw [if_pos hempty]
    exact ⟨nofun, fun h => absurd (h.2.symm.trans hnil) h.1⟩
  · have hne : Text.trim text ≠ "" := fun h => hempty (String.isEmpty_iff.2 h)
    rw [if_neg hempty, Option.some.injEq]
    exact ⟨fun h => ⟨h ▸ hne, h⟩, And.right⟩

theorem pathOf?_eq_some_iff {text : String} {dir : Path} :
    pathOf? text = some dir ↔ DenotesDir text dir := by
  rw [pathOf?, DenotesDir]
  by_cases hempty : text = ""
  · simp [hempty]
  · have hne : ¬ text.isEmpty = true := fun h => hempty (String.isEmpty_iff.1 h)
    rw [if_neg hne, Option.some.injEq]
    exact ⟨fun h => ⟨hempty, h ▸ rfl⟩, fun h => congrArg Path.mk h.2.symm⟩

/-- A word of a list is found in any case, if the list has no capital letters. -/
theorem contains_toLower_iff {words : List String} {cs : List Char}
    (hwords : ∀ word ∈ words, ∀ letter ∈ word.toList, letter.toLower = letter) :
    words.contains (String.ofList (cs.map Char.toLower)) = true ↔
      ∃ word ∈ words, SpellsWord cs word := by
  rw [List.contains_iff_mem]
  constructor
  · intro h
    exact ⟨_, h, (map_toLower_eq_iff (hwords _ h)).1 (String.toList_ofList).symm⟩
  · rintro ⟨word, hword, hspells⟩
    rwa [(map_toLower_eq_iff (hwords word hword)).2 hspells, String.ofList_toList]

theorem flagOf?_eq_some_iff {text : String} {flag : Bool} :
    flagOf? text = some flag ↔ DenotesFlag text flag := by
  have hsmall : ∀ word ∈ flagWords true ++ flagWords false, ∀ letter ∈ word.toList,
      letter.toLower = letter := by simp [flagWords]
  have hdenotes (flag : Bool) : DenotesFlag text flag ↔ (flagWords flag).contains
      (String.ofList ((Text.trimChars text.toList).map Char.toLower)) = true := by
    have hwords : ∀ word ∈ flagWords flag, ∀ letter ∈ word.toList, letter.toLower = letter :=
      fun word hword => hsmall word (List.mem_append.2 (by cases flag <;> simp [hword]))
    rw [contains_toLower_iff hwords, DenotesFlag]
    simp only [← Text.trimChars_eq_iff, exists_eq_left']
  have hapart : ∀ word ∈ flagWords true, word ∉ flagWords false := by decide +kernel
  have hyes : yesWords = flagWords true := rfl
  have hno : noWords = flagWords false := rfl
  rw [hdenotes, flagOf?, hyes, hno]
  generalize String.ofList ((Text.trimChars text.toList).map Char.toLower) = word
  by_cases htrue : word ∈ flagWords true
  · cases flag <;> simp [htrue, hapart word htrue]
  · by_cases hfalse : word ∈ flagWords false <;> cases flag <;> simp [htrue, hfalse]

theorem digitValue?_eq_some_iff {c : Char} {d : Nat} :
    Text.digitValue? 10 c = some d ↔ c.isDigit = true ∧ d = c.toNat - '0'.toNat := by
  have hdigit : c.isDigit = true ↔ 48 ≤ c.toNat ∧ c.toNat ≤ 57 := by
    rw [Char.isDigit, Bool.and_eq_true, decide_eq_true_eq, decide_eq_true_eq, ge_iff_le,
      UInt32.le_iff_toNat_le, UInt32.le_iff_toNat_le]
    rfl
  have hzero : '0'.toNat = 48 := rfl
  rw [hdigit, hzero, Text.digitValue?]
  simp only [Bool.and_eq_true, decide_eq_true_eq]
  split_ifs <;> simp only [Option.some.injEq, false_iff] <;> omega

/-- Reading digits behind others that write a number. -/
theorem appendDigits?_eq_some_iff {cs : List Char} {value n : Nat} :
    Text.appendDigits? 10 value cs = some n ↔
      (∀ c ∈ cs, c.isDigit = true) ∧ n = value * 10 ^ cs.length + decimalValue cs := by
  induction cs generalizing value with
  | nil =>
    rw [Text.appendDigits?, List.length_nil, pow_zero, mul_one, Option.some.injEq]
    exact ⟨fun h => ⟨by simp, h.symm⟩, fun h => h.2.symm⟩
  | cons c cs ih =>
    rw [Text.appendDigits?]
    cases hc : Text.digitValue? 10 c with
    | none =>
      have hno : ¬ c.isDigit = true := fun h =>
        absurd (hc.symm.trans (digitValue?_eq_some_iff.2 ⟨h, rfl⟩)) (by simp)
      simp [hno]
    | some d =>
      obtain ⟨hdigit, rfl⟩ := digitValue?_eq_some_iff.1 hc
      rw [ih, List.forall_mem_cons, and_iff_right hdigit]
      refine and_congr_right fun _ => Eq.congr_right ?_
      rw [decimalValue, decimalValue, List.map_cons, Nat.ofDigits_reverse_cons, List.length_cons,
        List.length_map]
      ring

theorem ofDigits?_eq_some_iff {cs : List Char} {n : Nat} :
    Text.ofDigits? 10 cs = some n ↔ WritesNumber cs n := by
  rw [Text.ofDigits?]
  cases cs with
  | nil => exact ⟨nofun, fun h => absurd rfl h.nonempty⟩
  | cons c cs =>
    rw [if_neg (by simp), appendDigits?_eq_some_iff, Nat.zero_mul, Nat.zero_add]
    exact ⟨fun h => ⟨by simp, h.1, h.2⟩, fun h => ⟨h.digit, h.value⟩⟩

/-- The characters behind a plus sign, if there is one. -/
def behindPlus : List Char → List Char
  | '+' :: digits => digits
  | digits => digits

theorem writesNumber_behindPlus_iff {cs : List Char} {n : Nat} :
    WritesNumber (behindPlus cs) n ↔ ∃ sign digits, cs = sign ++ digits ∧
      (sign = [] ∨ sign = ['+']) ∧ WritesNumber digits n := by
  unfold behindPlus
  constructor
  · split
    · exact fun h => ⟨['+'], _, rfl, Or.inr rfl, h⟩
    · exact fun h => ⟨[], _, rfl, Or.inl rfl, h⟩
  · rintro ⟨sign, digits, rfl, rfl | rfl, hdigits⟩
    · rw [List.nil_append]
      split
      · -- A plus sign is no digit.
        exact absurd (hdigits.digit '+' List.mem_cons_self) (by decide)
      · exact hdigits
    · exact hdigits

theorem countOfChars?_eq (cs : List Char) :
    countOfChars? cs = (Text.ofDigits? 10 (behindPlus cs)).bind fun m =>
      if m < UInt64.size then some m else none := by
  unfold countOfChars?
  split
  · simp only [behindPlus]
    cases Text.ofDigits? 10 _ <;> rfl
  · simp only [behindPlus]
    cases Text.ofDigits? 10 _ <;> rfl

theorem countOfChars?_eq_some_iff {cs : List Char} {n : Nat} :
    countOfChars? cs = some n ↔ n < 2 ^ 64 ∧ WritesNumber (behindPlus cs) n := by
  rw [countOfChars?_eq, ← ofDigits?_eq_some_iff, Option.bind_eq_some_iff]
  constructor
  · rintro ⟨m, hdigits, hm⟩
    rw [Option.ite_none_right_eq_some, Option.some.injEq] at hm
    obtain ⟨hlt, rfl⟩ := hm
    exact ⟨hlt, hdigits⟩
  · rintro ⟨hlt, hdigits⟩
    exact ⟨n, hdigits, if_pos hlt⟩

theorem countOf?_eq_some_iff {text : String} {n : Nat} :
    countOf? text = some n ↔ DenotesCount text n := by
  rw [countOf?, countOfChars?_eq_some_iff, writesNumber_behindPlus_iff, DenotesCount]
  simp only [Text.trimChars_eq_iff]

theorem ofName?_eq_some_iff {name : String} {level : Verbosity} :
    Verbosity.ofName? name = some level ↔ level.name = name := by
  constructor
  · intro h
    simpa using List.find?_some h
  · rintro rfl
    cases level <;> rfl

theorem ofName?_toLower_eq_some_iff {text : String} {level : Verbosity} :
    Verbosity.ofName? (String.ofList (text.toList.map Char.toLower)) = some level ↔
      DenotesLevel text level := by
  have hsmall : ∀ letter ∈ level.name.toList, letter.toLower = letter := by
    cases level <;> simp [Verbosity.name]
  rw [ofName?_eq_some_iff, DenotesLevel, ← map_toLower_eq_iff hsmall, ← String.toList_inj,
    String.toList_ofList, eq_comm]

/-! ### Layers -/

/-- A setting after the value of a variable has been looked at: if the value says something, it is
this; without a value, or with one that says nothing, it is what it was before. -/
inductive Layered {α : Type} (denotes : String → α → Prop) (old : α) : Option String → α → Prop
  | unset : Layered denotes old none old
  | ignored {text : String} (h : ∀ a, ¬ denotes text a) : Layered denotes old (some text) old
  | used {text : String} {new : α} (h : denotes text new) : Layered denotes old (some text) new

/-- With a reader that finds what values say there is one such setting. -/
theorem layered_iff_eq_getD {α : Type} {denotes : String → α → Prop} {read : String → Option α}
    (hread : ∀ {text a}, read text = some a ↔ denotes text a) {old new : α}
    {value : Option String} :
    Layered denotes old value new ↔ new = (value.bind read).getD old := by
  constructor
  · rintro (_ | hnone | hnew)
    · rfl
    · rw [Option.bind_some, Option.eq_none_iff_forall_ne_some.2 fun a ha => hnone a (hread.1 ha)]
      rfl
    · rw [Option.bind_some, hread.2 hnew]
      rfl
  · rintro rfl
    cases value with
    | none => exact .unset
    | some text =>
      rw [Option.bind_some]
      cases hnew : read text with
      | none => exact .ignored fun a ha => by simp [hread.2 ha] at hnew
      | some new => exact .used (hread.1 hnew)

/-- A value sets the level of verbosity: to the one that it says, and to the normal one if it says
none. -/
def SetsLevel (text : String) (level : Verbosity) : Prop :=
  DenotesLevel text level ∨ (∀ v, ¬ DenotesLevel text v) ∧ level = .normal

theorem ofName_eq_iff {text : String} {level : Verbosity} :
    Verbosity.ofName text = level ↔ SetsLevel text level := by
  rw [Verbosity.ofName, SetsLevel]
  simp only [← ofName?_toLower_eq_some_iff]
  cases Verbosity.ofName? (String.ofList (text.toList.map Char.toLower)) with
  | none => simp [eq_comm]
  | some v => simp

namespace Settings

/-- The settings `new` are those of `s` with the variables of an environment laid over them. -/
structure LayeredUnder (s : Settings) (env : Environment) (new : Settings) : Prop where
  package : Layered (fun text package => ∃ name, package = some name ∧ DenotesPackage text name)
    s.package (env "HOLDR_PACKAGE") new.package
  outputDir : Layered DenotesDir s.outputDir (env "HOLDR_OUTPUT_DIR") new.outputDir
  defaultInclude :
    Layered DenotesFlag s.defaultInclude (env "HOLDR_DEFAULT_INCLUDE") new.defaultInclude
  jobs : Layered DenotesCount s.jobs (env "HOLDR_JOBS") new.jobs
  pruneStale : Layered DenotesFlag s.pruneStale (env "HOLDR_PRUNE_STALE") new.pruneStale
  /-- Any value of this variable sets the level. -/
  verbosity : Layered SetsLevel s.verbosity (env "HOLDR_VERBOSITY") new.verbosity
  /-- No variable belongs to the resource roots. -/
  resDirs : new.resDirs = s.resDirs
  /-- No variable belongs to the package of the widgets. -/
  widgetPackage : new.widgetPackage = s.widgetPackage
  /-- No variable says whether files are written that are up to date. -/
  writeUnchanged : new.writeUnchanged = s.writeUnchanged

theorem layeredUnder_override (s : Settings) (env : Environment) :
    s.LayeredUnder env (s.override env) where
  package := by
    have hread {text : String} {package : Option String} :
        (nameOf? text).map some = some package ↔
          ∃ name, package = some name ∧ DenotesPackage text name := by
      simp only [Option.map_eq_some_iff, ← nameOf?_eq_some_iff, and_comm, @eq_comm _ package]
    rw [layered_iff_eq_getD hread, override]
    cases env "HOLDR_PACKAGE" with
    | none => rfl
    | some text => cases h : nameOf? text <;> simp [h]
  outputDir := (layered_iff_eq_getD pathOf?_eq_some_iff).2 rfl
  defaultInclude := (layered_iff_eq_getD flagOf?_eq_some_iff).2 rfl
  jobs := (layered_iff_eq_getD countOf?_eq_some_iff).2 rfl
  pruneStale := (layered_iff_eq_getD flagOf?_eq_some_iff).2 rfl
  verbosity := by
    have hread {text : String} {level : Verbosity} :
        some (Verbosity.ofName text) = some level ↔ SetsLevel text level := by
      rw [Option.some.injEq, ofName_eq_iff]
    rw [layered_iff_eq_getD hread, override]
    cases env "HOLDR_VERBOSITY" <;> rfl
  resDirs := rfl
  widgetPackage := rfl
  writeUnchanged := rfl

/-- Each variable of the environment is laid over its own setting, and over no other one.  Only the
level of verbosity does not always stay with a value that says nothing: it does exactly if the value
says a level after all, or the level was the normal one before. -/
theorem override_layered (s : Settings) (env : Environment) :
    s.LayeredUnder env (s.override env) ∧
      (Layered DenotesLevel s.verbosity (env "HOLDR_VERBOSITY") (s.override env).verbosity ↔
        ∀ text, env "HOLDR_VERBOSITY" = some text →
          (∃ level, DenotesLevel text level) ∨ s.verbosity = .normal) := by
  refine ⟨layeredUnder_override s env, ?_⟩
  rw [layered_iff_eq_getD ofName?_toLower_eq_some_iff, override]
  cases env "HOLDR_VERBOSITY" with
  | none => simp
  | some text =>
    simp only [← ofName?_toLower_eq_some_iff, Option.map_some, Option.getD_some, Option.bind_some,
      Option.some.injEq, forall_eq', Verbosity.ofName]
    cases Verbosity.ofName? (String.ofList (text.toList.map Char.toLower)) with
    | none => simp [eq_comm]
    | some v => simp

/-- A level is lost to a value that says none. -/
theorem override_resets_level :
    let s : Settings := { verbosity := .quiet }
    let env := Environment.ofList [("HOLDR_VERBOSITY", "loud")]
    (∀ level, ¬ DenotesLevel "loud" level) ∧ (s.override env).verbosity = .normal ∧
      ¬ Layered DenotesLevel s.verbosity (env "HOLDR_VERBOSITY") (s.override env).verbosity := by
  have hnone : ∀ level, ¬ DenotesLevel "loud" level := by
    intro level h
    have hread := ofName?_toLower_eq_some_iff.2 h
    revert hread
    cases level <;> decide +kernel
  have hnormal : (({ verbosity := .quiet } : Settings).override
      (Environment.ofList [("HOLDR_VERBOSITY", "loud")])).verbosity = .normal := by decide +kernel
  refine ⟨hnone, hnormal, fun h => ?_⟩
  rw [hnormal] at h
  obtain _ | _ | hnew := h
  exact hnone _ hnew

end Settings

end ViewHolder
