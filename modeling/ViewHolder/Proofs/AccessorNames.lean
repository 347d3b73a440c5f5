import Mathlib.Data.List.Induction
import Mathlib.Data.List.Nodup
import Mathlib.Data.List.Perm.Subperm
import ViewHolder.Holder.Name

/-!
# Names of accessors

Whatever a view asks for becomes an identifier, and a name that an earlier view of the holder has
is followed by the smallest number that makes it new.  There always is such a number: the numbered
forms of a name are different, and there are more of them than names in use.

## Main definitions

* `Holder.IsIdentifier` : the texts that may name a field.
* `Holder.TakesName` : the name that a view takes when other names are in use.

## Main results

* `Holder.isIdentifier_identifier` : every text is turned into an identifier.
* `Holder.takesName_fresh` : a name in use gets the smallest number that makes it new.
* `Holder.accessorNames_append` : later views do not change the names of earlier ones.
* `Holder.mem_accessorNames_iff` : which names without a number the views of a holder have.
* `Holder.accessorNames_unique` : the accessor names of a holder.
-/

namespace ViewHolder.Holder

/-! ### Identifiers -/

/-- A text of the characters of identifiers that begins as an identifier may. -/
structure IsSpelledIdentifier (name : String) : Prop where
  /-- There is a character. -/
  ne_empty : name ≠ ""
  /-- The characters are letters, digits, `_` and `$`. -/
  chars : ∀ c ∈ name.toList, c.isAlphanum = true ∨ c = '_' ∨ c = '$'
  /-- The first character is no digit. -/
  start : ∀ c ∈ name.toList.head?, c.isDigit = false

/-- A text that may name a field: an identifier that is no reserved word. -/
structure IsIdentifier (name : String) : Prop extends IsSpelledIdentifier name where
  /-- The text is no reserved word. -/
  not_reserved : name ∉ reservedWords

theorem isIdentifierChar_iff {c : Char} :
    isIdentifierChar c = true ↔ c.isAlphanum = true ∨ c = '_' ∨ c = '$' := by
  simp [isIdentifierChar, or_assoc]

/-- Reserved words have no digit and no `_`. -/
theorem not_isDigit_of_reserved {word : String} (h : word ∈ reservedWords) {c : Char}
    (hc : c ∈ word.toList) : ¬ (c.isDigit = true ∨ c = '_') := by
  have htable : ∀ word ∈ reservedWords,
      (word.toList.all fun c => !(c.isDigit || c == '_')) = true := by decide +kernel
  simpa using List.all_eq_true.1 (htable word h) c hc

/-- Other characters do not occur in an identifier. -/
theorem IsSpelledIdentifier.notMem {name : String} (h : IsSpelledIdentifier name) {c : Char}
    (hc : isIdentifierChar c = false) : c ∉ name.toList := fun hmem =>
  absurd (isIdentifierChar_iff.2 (h.chars c hmem)) (by rw [hc]; exact Bool.false_ne_true)

/-- The head of a text stays when something is put behind it. -/
theorem head?_toList_append {name : String} (h : name ≠ "") (tail : String) :
    (name ++ tail).toList.head? = name.toList.head? := by
  rw [String.toList_append, List.head?_append_of_ne_nil _ (mt String.toList_eq_nil_iff.1 h)]

/-- A spelled identifier with digits or a `_` behind it is an identifier. -/
theorem IsSpelledIdentifier.append {name tail : String} (h : IsSpelledIdentifier name)
    (hne : tail ≠ "") (htail : ∀ c ∈ tail.toList, c.isDigit = true ∨ c = '_') :
    IsIdentifier (name ++ tail) where
  ne_empty := fun hempty => h.ne_empty (String.append_eq_empty_iff.1 hempty).1
  chars := by
    intro c hc
    rcases List.mem_append.1 (String.toList_append ▸ hc) with hc | hc
    · exact h.chars c hc
    · exact (htail c hc).imp (fun hdigit => by simp [Char.isAlphanum, hdigit]) Or.inl
  start := by
    rw [head?_toList_append h.ne_empty]
    exact h.start
  not_reserved := by
    intro hreserved
    obtain ⟨c, hc⟩ := List.exists_mem_of_ne_nil _ (mt String.toList_eq_nil_iff.1 hne)
    refine not_isDigit_of_reserved hreserved ?_ (htail c hc)
    rw [String.toList_append]
    exact List.mem_append_right _ hc

/-- The characters of an identifier, made from any characters, with a guard against digits. -/
theorem isSpelledIdentifier_guardDigit {body : List Char} (hne : body ≠ [])
    (h : ∀ c ∈ body, isIdentifierChar c = true) :
    IsSpelledIdentifier (String.ofList (guardDigit body)) := by
  obtain ⟨c, cs, rfl⟩ := List.exists_cons_of_ne_nil hne
  have hchars : ∀ d ∈ c :: cs, d.isAlphanum = true ∨ d = '_' ∨ d = '$' := fun d hd =>
    isIdentifierChar_iff.1 (h d hd)
  rw [guardDigit]
  split
  · refine ⟨by simp, fun d hd => ?_, fun d hd => ?_⟩
    · rw [String.toList_ofList] at hd
      exact (List.mem_cons.1 hd).elim (fun hd => .inr (.inl hd)) (hchars d)
    · obtain rfl : '_' = d := by simpa using hd
      rfl
  · rename_i hdigit
    refine ⟨by simp, by simpa using hchars, fun d hd => ?_⟩
    obtain rfl : c = d := by simpa using hd
    simpa using hdigit

/-- **Every text is turned into an identifier.** -/
theorem isIdentifier_identifier (name : List Char) : IsIdentifier (identifier name) := by
  unfold identifier
  have hbody : ∀ d ∈ name.map (fun c => if isIdentifierChar c then c else '_'),
      isIdentifierChar d = true := by
    intro d hd
    obtain ⟨c, -, rfl⟩ := List.mem_map.1 hd
    split
    · assumption
    · decide
  generalize name.map (fun c => if isIdentifierChar c then c else '_') = body at hbody
  have hspelled :
      IsSpelledIdentifier (String.ofList (if body.isEmpty then ['_'] else guardDigit body)) := by
    split
    · exact isSpelledIdentifier_guardDigit (List.cons_ne_nil '_' [])
        (List.forall_mem_singleton.2 rfl)
    · rename_i hne
      exact isSpelledIdentifier_guardDigit (by simpa using hne) hbody
  dsimp only
  generalize String.ofList (if body.isEmpty then ['_'] else guardDigit body) = text at hspelled
  split
  · exact hspelled.append (by decide) (by simp)
  · rename_i hreserved
    exact ⟨hspelled, by simpa using hreserved⟩

/-! ### Numbered names -/

/-- A number is written in digits. -/
theorem isDigit_of_mem_toString {n : Nat} {c : Char} (hc : c ∈ (toString n).toList) :
    c.isDigit = true := by
  rw [Nat.toString_eq_repr, Nat.toList_repr] at hc
  exact Nat.isDigit_of_mem_toDigits (by decide) (by decide) hc

theorem toString_ne_empty (n : Nat) : toString n ≠ "" := by
  intro h
  refine Nat.toDigits_ne_nil (b := 10) (n := n) ?_
  rw [← Nat.toList_repr, ← Nat.toString_eq_repr, h]
  rfl

theorem numbered_injective (base : String) : Function.Injective (numbered base) := by
  intro m n h
  have hchars : (toString m).toList = (toString n).toList := by
    have htext := congrArg String.toList h
    rw [numbered, numbered, String.toList_append, String.toList_append] at htext
    exact List.append_cancel_left htext
  rw [Nat.toString_eq_repr, Nat.toString_eq_repr, Nat.toList_repr, Nat.toList_repr] at hchars
  have hvalue := congrArg (fun digits => Nat.ofDigitChars 10 digits 0) hchars
  simpa [Nat.ofDigitChars_toDigits] using hvalue

theorem numbered_ne_self (base : String) (n : Nat) : numbered base n ≠ base := by
  intro h
  have htext := congrArg String.toList h
  rw [numbered, String.toList_append] at htext
  exact toString_ne_empty n (String.toList_eq_nil_iff.1 (List.append_right_eq_self.1 htext))

/-- A text whose last character is no digit is no numbered name. -/
theorem numbered_ne {name : String} (h : ∀ c ∈ name.toList.getLast?, c.isDigit = false)
    (base : String) (n : Nat) : numbered base n ≠ name := by
  rintro rfl
  have hne : (toString n).toList ≠ [] := mt String.toList_eq_nil_iff.1 (toString_ne_empty n)
  have hlast : (toString n).toList.getLast hne ∈ (numbered base n).toList.getLast? := by
    rw [numbered, String.toList_append, List.getLast?_append_of_ne_nil _ hne,
      List.getLast?_eq_some_getLast hne]
    rfl
  have hdigit := isDigit_of_mem_toString (List.getLast_mem hne)
  rw [h _ hlast] at hdigit
  cases hdigit

theorem IsIdentifier.numbered {base : String} (h : IsIdentifier base) (n : Nat) :
    IsIdentifier (numbered base n) :=
  h.toIsSpelledIdentifier.append (toString_ne_empty n) fun _ hc => .inl (isDigit_of_mem_toString hc)

/-! ### New names -/

/-- The name that a view takes when it asks for one and other names are in use. -/
inductive TakesName (used : List String) (base : String) : String → Prop
  /-- A name that is not in use is taken as it is. -/
  | free (h : base ∉ used) : TakesName used base base
  /-- A name in use is followed by the smallest number from two on that makes it new; there are
  no more numbers to try than names in use. -/
  | counted (n : Nat) (hused : base ∈ used) (htwo : 2 ≤ n) (hbound : n ≤ used.length + 1)
      (hnew : numbered base n ∉ used) (hleast : ∀ m, 2 ≤ m → m < n → numbered base m ∈ used) :
      TakesName used base (numbered base n)

namespace TakesName

variable {used used' : List String} {base name : String}

theorem notMem (h : TakesName used base name) : name ∉ used := by
  cases h with
  | free h => exact h
  | counted n _ _ _ hnew => exact hnew

/-- Only how often and which names are in use counts, not their order. -/
theorem of_perm (h : TakesName used base name) (hperm : used.Perm used') :
    TakesName used' base name := by
  cases h with
  | free h => exact .free (mt hperm.mem_iff.2 h)
  | counted n hused htwo hbound hnew hleast =>
    exact .counted n (hperm.mem_iff.1 hused) htwo (hperm.length_eq ▸ hbound)
      (mt hperm.mem_iff.2 hnew) fun m hm hmn => hperm.mem_iff.1 (hleast m hm hmn)

theorem isIdentifier (h : TakesName used base name) (hbase : IsIdentifier base) :
    IsIdentifier name := by
  cases h with
  | free h => exact hbase
  | counted n => exact hbase.numbered n

end TakesName

/-- A name in use has a numbered form that is not in use. -/
theorem exists_numbered_notMem {used : List String} {base : String} (h : base ∈ used) :
    ∃ k < used.length, numbered base (k + 2) ∉ used := by
  by_contra hall
  push Not at hall
  let forms := base :: (List.range used.length).map fun k => numbered base (k + 2)
  have hnodup : forms.Nodup := by
    refine List.nodup_cons.2 ⟨fun hmem => ?_, ?_⟩
    · obtain ⟨k, -, hk⟩ := List.mem_map.1 hmem
      exact numbered_ne_self base _ hk
    · refine List.nodup_range.map fun j k hjk => ?_
      exact Nat.add_right_cancel (numbered_injective base hjk)
  have hsub : forms ⊆ used := by
    refine List.cons_subset.2 ⟨h, fun name hname => ?_⟩
    obtain ⟨k, hk, rfl⟩ := List.mem_map.1 hname
    exact hall k (List.mem_range.1 hk)
  have hlength := (hnodup.subperm hsub).length_le
  rw [List.length_cons, List.length_map, List.length_range] at hlength
  omega

/-- **A name in use gets the smallest number that makes it new.** -/
theorem takesName_fresh (used : List String) (base : String) :
    TakesName used base (fresh used base) := by
  by_cases hused : base ∈ used
  · let p (k : Nat) : Bool := !used.contains (numbered base (k + 2))
    obtain ⟨k, hk⟩ : ∃ k, (List.range used.length).find? p = some k := by
      obtain ⟨k, hk, hnew⟩ := exists_numbered_notMem hused
      exact Option.isSome_iff_exists.1 (List.find?_isSome.2
        ⟨k, List.mem_range.2 hk, by simpa [p] using hnew⟩)
    have hfresh : fresh used base = numbered base (k + 2) := by
      rw [fresh, if_pos (by simpa using hused), List.find?_map]
      change ((((List.range used.length).find? p).map fun k => numbered base (k + 2)).getD _) = _
      rw [hk]
      rfl
    obtain ⟨hnew, hrange, hleast⟩ := List.find?_range_eq_some.1 hk
    rw [List.mem_range] at hrange
    rw [hfresh]
    refine .counted (k + 2) hused (by omega) (by omega) (by simpa [p] using hnew) fun m hm hmk => ?_
    obtain ⟨j, rfl⟩ := Nat.exists_eq_add_of_le' hm
    simpa [p] using hleast j (by omega)
  · rw [fresh, if_neg (by simpa using hused)]
    exact .free hused

/-! ### The names of some views -/

theorem length_accessorNamesFrom (used : List String) (vs : List View) :
    (accessorNamesFrom used vs).length = vs.length := by
  induction vs generalizing used with
  | nil => rfl
  | cons v vs ih => exact congrArg (· + 1) (ih _)

@[simp] theorem length_accessorNames (vs : List View) :
    (accessorNames vs).length = vs.length := length_accessorNamesFrom [] vs

/-- The names of a holder depend on no more than the names that its views ask for. -/
theorem accessorNamesFrom_congr {vs ws : List View}
    (h : vs.map accessorName = ws.map accessorName) (used : List String) :
    accessorNamesFrom used vs = accessorNamesFrom used ws := by
  induction vs generalizing ws used with
  | nil => rw [List.map_eq_nil_iff.1 h.symm]
  | cons v vs ih =>
    cases ws with
    | nil => cases h
    | cons w ws =>
      obtain ⟨hname, hnames⟩ := List.cons_eq_cons.1 h
      rw [accessorNamesFrom, accessorNamesFrom, hname, ih hnames]

theorem accessorNames_congr {vs ws : List View}
    (h : vs.map accessorName = ws.map accessorName) : accessorNames vs = accessorNames ws :=
  accessorNamesFrom_congr h []

/-- The names of the first views are in use for the later ones. -/
theorem accessorNamesFrom_append (used : List String) (vs ws : List View) :
    accessorNamesFrom used (vs ++ ws) = accessorNamesFrom used vs ++
      accessorNamesFrom ((accessorNamesFrom used vs).reverse ++ used) ws := by
  induction vs generalizing used with
  | nil => rfl
  | cons v vs ih => simp [accessorNamesFrom, ih]

/-- **Later views do not change the names of earlier ones.** -/
theorem accessorNames_append (vs ws : List View) :
    accessorNames (vs ++ ws) =
      accessorNames vs ++ accessorNamesFrom (accessorNames vs).reverse ws := by
  rw [accessorNames, accessorNamesFrom_append, List.append_nil]
  rfl

/-- A further view takes its name when those of the earlier views are in use. -/
theorem accessorNames_concat (vs : List View) (v : View) : ∃ name,
    accessorNames (vs ++ [v]) = accessorNames vs ++ [name] ∧
      TakesName (accessorNames vs) (accessorName v) name :=
  ⟨_, accessorNames_append vs [v], (takesName_fresh _ _).of_perm (List.reverse_perm _)⟩

theorem accessorNames_nodup (views : List View) : (accessorNames views).Nodup := by
  induction views using List.reverseRecOn with
  | nil => exact .nil
  | append_singleton vs v ih =>
    obtain ⟨name, hnames, htakes⟩ := accessorNames_concat vs v
    rw [hnames]
    exact List.nodup_append_comm.1 (List.nodup_cons.2 ⟨htakes.notMem, ih⟩)

theorem isIdentifier_of_mem {views : List View} {name : String}
    (h : name ∈ accessorNames views) : IsIdentifier name := by
  induction views using List.reverseRecOn with
  | nil => cases h
  | append_singleton vs v ih =>
    obtain ⟨last, hnames, htakes⟩ := accessorNames_concat vs v
    rw [hnames] at h
    rcases List.mem_append.1 h with h | h
    · exact ih h
    · rw [List.mem_singleton.1 h]
      exact htakes.isIdentifier (isIdentifier_identifier _)

/-- A name that is no numbered form is an accessor name exactly if some view asks for it. -/
theorem mem_accessorNames_iff {views : List View} {name : String}
    (h : ∀ base n, numbered base n ≠ name) :
    name ∈ accessorNames views ↔ ∃ v ∈ views, accessorName v = name := by
  induction views using List.reverseRecOn with
  | nil => simp [accessorNames, accessorNamesFrom]
  | append_singleton vs v ih =>
    obtain ⟨last, hnames, htakes⟩ := accessorNames_concat vs v
    simp only [hnames, List.mem_append, List.mem_singleton, or_and_right, exists_or,
      exists_eq_left, ← ih]
    cases htakes with
    | free => rw [@eq_comm _ name]
    | counted n hused =>
      exact ⟨fun hname => hname.imp_right fun hlast => absurd hlast.symm (h _ n), fun hname =>
        .inl (hname.elim (fun hname => hname) fun hname => hname ▸ hused)⟩

/-- The name at a position is the one that its view takes after the earlier views. -/
theorem exists_takesName {views : List View} {i : Nat} {v : View} (h : views[i]? = some v) :
    ∃ name, (accessorNames views)[i]? = some name ∧
      TakesName ((accessorNames views).take i) (accessorName v) name := by
  induction views using List.reverseRecOn with
  | nil => simp at h
  | append_singleton vs w ih =>
    obtain ⟨last, hnames, htakes⟩ := accessorNames_concat vs w
    have hlength := length_accessorNames vs
    rw [hnames]
    by_cases hi : i < vs.length
    · rw [List.getElem?_append_left hi] at h
      rw [List.getElem?_append_left (hlength ▸ hi),
        List.take_append_of_le_length (hlength ▸ Nat.le_of_lt hi)]
      exact ih h
    · obtain ⟨hlt, hget⟩ := List.getElem?_eq_some_iff.1 h
      rw [List.length_append, List.length_singleton] at hlt
      obtain rfl : i = (accessorNames vs).length := by omega
      obtain rfl : w = v := by simpa using hget
      exact ⟨last, List.getElem?_concat_length, by rwa [List.take_left]⟩

/-- Names that differ already are taken as they are. -/
theorem accessorNames_of_nodup {views : List View} (h : (views.map accessorName).Nodup) :
    accessorNames views = views.map accessorName := by
  induction views using List.reverseRecOn with
  | nil => rfl
  | append_singleton vs v ih =>
    rw [List.map_append, List.map_singleton] at h ⊢
    obtain ⟨name, hnames, htakes⟩ := accessorNames_concat vs v
    obtain ⟨hfront, -, hlast⟩ := List.nodup_append.1 h
    rw [ih hfront] at hnames htakes
    rw [hnames]
    cases htakes with
    | free => rfl
    | counted n hused => exact absurd rfl (hlast _ hused _ List.mem_cons_self)

/-- **The accessor names of a holder.**  Every view gets one name; the names are different
identifiers, each being what its view asks for or, if an earlier view has that name, the same with
the smallest number that makes it new.  Views that ask for different names get what they ask for. -/
theorem accessorNames_unique (views : List View) :
    (accessorNames views).length = views.length ∧ (accessorNames views).Nodup ∧
      (∀ name ∈ accessorNames views, IsIdentifier name) ∧
      (∀ i v, views[i]? = some v → ∃ name, (accessorNames views)[i]? = some name ∧
        TakesName ((accessorNames views).take i) (accessorName v) name) ∧
      ((views.map accessorName).Nodup → accessorNames views = views.map accessorName) :=
  ⟨length_accessorNames views, accessorNames_nodup views,
    fun _ h => isIdentifier_of_mem h, fun _ _ h => exists_takesName h, accessorNames_of_nodup⟩

/-- Views of which two ask for one name and a third for the numbered form of it. -/
def collidingViews : List View :=
  [⟨"android.widget.Button", "save", false, some "action"⟩,
    ⟨"android.widget.Button", "cancel", false, some "action"⟩,
    ⟨"android.widget.Button", "undo", false, some "action2"⟩]

theorem accessorNames_unique_collidingViews :
    accessorNames collidingViews = ["action", "action2", "action22"] ∧
      TakesName ["action", "action2"] "action2" "action22" ∧ IsIdentifier "action22" ∧
      accessorNames (collidingViews.drop 1) = ["action", "action2"] := by
  have hnames : accessorNames collidingViews = ["action", "action2", "action22"] := by
    decide +kernel
  obtain ⟨-, -, hidentifier, htakes, -⟩ := accessorNames_unique collidingViews
  obtain ⟨-, -, -, -, hsame⟩ := accessorNames_unique (collidingViews.drop 1)
  obtain ⟨name, hname, htwo⟩ := htakes 2 _ rfl
  rw [hnames] at hname htwo hidentifier
  obtain rfl : "action22" = name := Option.some.inj hname
  have hasks : (collidingViews.drop 1).map accessorName = ["action", "action2"] := by
    decide +kernel
  have hbase : accessorName ⟨"android.widget.Button", "undo", false, some "action2"⟩ =
      "action2" := by decide +kernel
  rw [hbase] at htwo
  rw [hasks] at hsame
  exact ⟨hnames, htwo, hidentifier _ (by simp), hsame (by decide)⟩

end ViewHolder.Holder
