import ViewHolder.Markup.Document
import ViewHolder.Proofs.Escape

/-!
# Spelled tags

A start tag is spelled as a name and items: declarations of qualifiers and attributes, in any
order, with escaped values between double quotes.  Reading the content of such a tag gives its name
and its items back.

## Main definitions

* `Markup.IsName` : the texts that can stand for a tag or for a part of a key.
* `Markup.Item`, `Markup.tagContent` : the items of a tag, and the content of the tag.

## Main results

* `Markup.cutTag_tagContent` : a spelled tag ends at its `>`.
* `Markup.tagName_tagContent`, `Markup.tagAttributes_tagContent` : reading the content of a tag.
-/

namespace ViewHolder.Markup

/-! ### Names -/

/-- Whether a character may stand in a name. -/
def isNameChar (c : Char) : Bool :=
  !(isSpace c || ['!', '"', '&', '\'', '/', ':', '<', '=', '>', '?'].contains c)

/-- The names without a colon. -/
def IsName (cs : List Char) : Prop := cs ≠ [] ∧ cs.all isNameChar = true

instance (cs : List Char) : Decidable (IsName cs) := inferInstanceAs (Decidable (_ ∧ _))

theorem isNameChar_spec {c : Char} (h : isNameChar c = true) :
    isSpace c = false ∧ isQuote c = false ∧ isKeyChar c = true ∧ c ≠ '!' ∧ c ≠ '/' ∧ c ≠ ':' ∧
      c ≠ '<' ∧ c ≠ '>' ∧ c ≠ '?' := by
  simp only [isNameChar, Bool.not_eq_true', Bool.or_eq_false_iff, List.contains_eq_mem,
    decide_eq_false_iff_not, List.mem_cons, not_or] at h
  simp [isQuote, isKeyChar, h]

theorem IsName.isNameChar {cs : List Char} (h : IsName cs) {c : Char} (hc : c ∈ cs) :
    isNameChar c = true :=
  List.all_eq_true.1 h.2 c hc

/-- A scan for a character passes over a text without it. -/
theorem bne_of_notMem {x : Char} {cs : List Char} (h : x ∉ cs) : ∀ c ∈ cs, (c != x) = true := by
  intro c hc
  exact bne_iff_ne.2 fun hcx => h (hcx ▸ hc)

/-! ### Items -/

/-- The qualifier of the keys that declare a qualifier. -/
def xmlnsName : List Char := "xmlns".toList

/-- What stands in a start tag behind its name. -/
inductive Item where
  /-- A declaration that binds a qualifier to a namespace. -/
  | binding (qualifier space : List Char)
  /-- An attribute. -/
  | entry (qualifier : Option (List Char)) (name value : List Char)
  deriving DecidableEq, Inhabited, Repr

namespace Item

/-- The key of an item. -/
def key : Item → List Char
  | binding q _ => xmlnsName ++ ':' :: q
  | entry none n _ => n
  | entry (some q) n _ => q ++ ':' :: n

/-- What an item says about its key. -/
def text : Item → List Char
  | binding _ space => space
  | entry _ _ value => value

/-- The parts of the key of an item are names. -/
def HasNames : Item → Prop
  | binding q _ => IsName q
  | entry q n _ => (∀ p ∈ q, IsName p) ∧ IsName n

instance : (i : Item) → Decidable i.HasNames
  | binding q _ => inferInstanceAs (Decidable (IsName q))
  | entry q n _ => inferInstanceAs (Decidable ((∀ p ∈ q, IsName p) ∧ IsName n))

/-- An item as it is read. -/
def written (i : Item) : Attribute := ⟨i.key, escape i.text⟩

/-- The spelling of an item. -/
def spelling (i : Item) : List Char := ' ' :: (i.key ++ '=' :: '"' :: (escape i.text ++ ['"']))

theorem HasNames.key_chars {i : Item} (h : i.HasNames) {c : Char} (hc : c ∈ i.key) :
    c = ':' ∨ isNameChar c = true := by
  cases i with
  | binding q space =>
    have hxmlns : IsName xmlnsName := by decide
    rcases List.mem_append.1 hc with hc | hc
    · exact Or.inr (hxmlns.isNameChar hc)
    · exact (List.mem_cons.1 hc).imp_right h.isNameChar
  | entry q n value =>
    cases q with
    | none => exact Or.inr (h.2.isNameChar hc)
    | some q =>
      rcases List.mem_append.1 hc with hc | hc
      · exact Or.inr ((h.1 q rfl).isNameChar hc)
      · exact (List.mem_cons.1 hc).imp_right h.2.isNameChar

end Item

/-- The content of a start tag. -/
def tagContent (tag : List Char) (items : List Item) : List Char :=
  tag ++ items.flatMap Item.spelling

/-! ### The end of a tag -/

/-- A piece of a tag that is passed over on the way to the end of the tag. -/
def IsPassed (cs : List Char) : Prop :=
  ∀ seen rest, cutTag none seen (cs ++ rest) = cutTag none (cs.reverse ++ seen) rest

namespace IsPassed

variable {cs ds : List Char}

theorem append (hc : IsPassed cs) (hd : IsPassed ds) : IsPassed (cs ++ ds) := by
  intro seen rest
  rw [List.append_assoc, hc, hd, List.reverse_append, List.append_assoc]

theorem flatMap {α : Type} {f : α → List Char} {l : List α} (h : ∀ a ∈ l, IsPassed (f a)) :
    IsPassed (l.flatMap f) := by
  induction l with
  | nil => exact fun _ _ => rfl
  | cons a l ih =>
    exact (h a List.mem_cons_self).append (ih fun b hb => h b (List.mem_cons_of_mem a hb))

theorem of_plain (h : ∀ c ∈ cs, isQuote c = false ∧ c ≠ '>') : IsPassed cs := by
  intro seen rest
  induction cs generalizing seen with
  | nil => rfl
  | cons c cs ih =>
    obtain ⟨hquote, hclose⟩ := h c List.mem_cons_self
    rw [List.cons_append, cutTag]
    simp only [hquote, beq_iff_eq, hclose, Bool.false_eq_true, if_false]
    rw [ih fun d hd => h d (List.mem_cons_of_mem c hd), List.reverse_cons, List.append_assoc,
      List.singleton_append]

theorem singleton {c : Char} (hquote : isQuote c = false) (hclose : c ≠ '>') : IsPassed [c] :=
  .of_plain fun d hd => by
    rw [List.mem_singleton.1 hd]
    exact ⟨hquote, hclose⟩

theorem of_quoted (h : '"' ∉ cs) : IsPassed ('"' :: (cs ++ ['"'])) := by
  have hinside (seen rest : List Char) : cutTag (some '"') seen (cs ++ '"' :: rest) =
      cutTag none ('"' :: (cs.reverse ++ seen)) rest := by
    induction cs generalizing seen with
    | nil => rfl
    | cons c cs ih =>
      obtain ⟨hc, hcs⟩ : '"' ≠ c ∧ '"' ∉ cs := by simpa using h
      rw [List.cons_append, cutTag]
      simp only [beq_iff_eq, hc.symm, if_false]
      rw [ih hcs, List.reverse_cons, List.append_assoc, List.singleton_append]
  intro seen rest
  rw [List.cons_append, List.append_assoc, List.singleton_append]
  change cutTag (some '"') ('"' :: seen) (cs ++ '"' :: rest) = _
  rw [hinside]
  simp

theorem cutTag_eq (h : IsPassed cs) (rest : List Char) :
    cutTag none [] (cs ++ '>' :: rest) = some (cs, rest) := by
  rw [h, List.append_nil, cutTag]
  simp

end IsPassed

theorem IsName.isPassed {cs : List Char} (h : IsName cs) : IsPassed cs :=
  .of_plain fun c hc => by
    obtain ⟨-, hquote, -, -, -, -, -, hclose, -⟩ := isNameChar_spec (h.isNameChar hc)
    exact ⟨hquote, hclose⟩

namespace Item

variable {i : Item} (h : i.HasNames)
include h

theorem HasNames.isPassed_key : IsPassed i.key :=
  .of_plain fun c hc => by
    rcases h.key_chars hc with rfl | hc
    · decide
    · obtain ⟨-, hquote, -, -, -, -, -, hclose, -⟩ := isNameChar_spec hc
      exact ⟨hquote, hclose⟩

theorem HasNames.isPassed : IsPassed i.spelling := by
  have hvalue : IsPassed ('"' :: (escape i.text ++ ['"'])) :=
    .of_quoted (notMem_escape (by decide) (by decide) i.text)
  have hspace : IsPassed [' '] := .singleton (by decide) (by decide)
  have hequals : IsPassed ['='] := .singleton (by decide) (by decide)
  have hall := hspace.append (h.isPassed_key.append (hequals.append hvalue))
  rwa [List.singleton_append, List.singleton_append] at hall

end Item

theorem isPassed_tagContent {tag : List Char} {items : List Item} (htag : IsName tag)
    (hitems : ∀ i ∈ items, i.HasNames) : IsPassed (tagContent tag items) :=
  htag.isPassed.append (.flatMap fun i hi => (hitems i hi).isPassed)

/-! ### The name of a tag -/

/-- What stands behind the name of a tag is nothing or begins with a space. -/
theorem flatMap_spelling_cases (items : List Item) : items.flatMap Item.spelling = [] ∨
    ∃ rest, items.flatMap Item.spelling = ' ' :: rest := by
  cases items with
  | nil => exact Or.inl rfl
  | cons i items => exact Or.inr ⟨_, rfl⟩

section

variable {tag : List Char} (htag : IsName tag) (items : List Item)
include htag

private theorem notSpace_of_mem : ∀ c ∈ tag, (!isSpace c) = true := fun c hc => by
  rw [(isNameChar_spec (htag.isNameChar hc)).1]
  rfl

theorem tagName_tagContent : tagName (tagContent tag items) = tag := by
  rw [tagName, tagContent, List.takeWhile_append_of_pos (notSpace_of_mem htag)]
  rcases flatMap_spelling_cases items with h | ⟨rest, h⟩
  · rw [h, List.takeWhile_nil, List.append_nil]
  · rw [h, List.takeWhile_cons_of_neg (by decide), List.append_nil]

theorem dropName_tagContent :
    (tagContent tag items).dropWhile (fun c => !isSpace c) = items.flatMap Item.spelling := by
  rw [tagContent, List.dropWhile_append_of_pos (notSpace_of_mem htag)]
  rcases flatMap_spelling_cases items with h | ⟨rest, h⟩
  · rw [h, List.dropWhile_nil]
  · rw [h, List.dropWhile_cons_of_neg (by decide)]

end

/-! ### The attributes of a tag -/

theorem readValue_quoted {value : List Char} (h : '"' ∉ value) (pos : Nat) (rest : List Char) :
    readValue pos ('"' :: (value ++ '"' :: rest)) = .ok (value, rest) := by
  have hvalue := bne_of_notMem h
  have hopen : isQuote '"' = true := by decide
  rw [readValue, if_pos hopen]
  dsimp only
  rw [List.dropWhile_append_of_pos hvalue, List.takeWhile_append_of_pos hvalue,
    List.dropWhile_cons_of_neg (by decide), List.takeWhile_cons_of_neg (by decide), List.append_nil]

theorem Item.HasNames.exists_key {i : Item} (h : i.HasNames) :
    ∃ first rest, i.key = first :: rest ∧ isSpace first = false ∧
      ∀ c ∈ rest, isKeyChar c = true := by
  have hne : i.key ≠ [] := by
    cases i with
    | binding q space => simp [key]
    | entry q n value =>
      cases q with
      | none => exact h.2.1
      | some q => simp [key]
  have hchars : ∀ c ∈ i.key, isSpace c = false ∧ isKeyChar c = true := fun c hc => by
    rcases h.key_chars hc with rfl | hc
    · decide
    · obtain ⟨hspace, -, hkey, -⟩ := isNameChar_spec hc
      exact ⟨hspace, hkey⟩
  obtain ⟨first, rest, hkey⟩ := List.exists_cons_of_ne_nil hne
  rw [hkey] at hchars
  exact ⟨first, rest, hkey, (hchars first List.mem_cons_self).1,
    fun c hc => (hchars c (List.mem_cons_of_mem first hc)).2⟩

/-- A spelled item is read as it is written. -/
theorem readAttribute_spelling {i : Item} (h : i.HasNames)
    {seen : Option (List (List Char × Nat))} (hnew : seen.bind (·.lookup i.key) = none) (pos : Nat)
    (rest : List Char) : ∃ keyPos restPos,
      readAttribute seen pos (i.spelling ++ rest) = .found i.written keyPos restPos rest := by
  obtain ⟨first, tail, hkey, hfirst, htail⟩ := h.exists_key
  have hdrop : (i.spelling ++ rest).dropWhile isSpace =
      first :: (tail ++ '=' :: '"' :: (escape i.text ++ '"' :: rest)) := by
    rw [Item.spelling, hkey]
    simp [List.dropWhile_cons_of_neg, hfirst, show isSpace ' ' = true by decide]
  have hequals : isKeyChar '=' = false := by decide
  have hvalue : '"' ∉ escape i.text := notMem_escape (by decide) (by decide) i.text
  unfold readAttribute
  rw [hdrop]
  dsimp only
  rw [List.takeWhile_append_of_pos htail, List.dropWhile_append_of_pos htail,
    List.takeWhile_cons_of_neg (by simp [hequals]), List.dropWhile_cons_of_neg (by simp [hequals]),
    List.append_nil, List.dropWhile_cons_of_neg (by decide), ← hkey, hnew]
  split
  · rename_i afterEquals heq
    obtain rfl := (List.cons.inj heq).2
    dsimp only
    rw [List.dropWhile_cons_of_neg (by decide), readValue_quoted hvalue]
    exact ⟨_, _, rfl⟩
  · rename_i hne
    exact absurd rfl (hne _)

/-- The attributes behind one that is found. -/
theorem attributesFrom_found {seen : Option (List (List Char × Nat))}
    {pos keyPos restPos : Nat} {cs rest : List Char} {a : Attribute}
    (h : readAttribute seen pos cs = .found a keyPos restPos rest) :
    attributesFrom seen pos cs =
      (a :: (attributesFrom (seen.map ((a.key, keyPos) :: ·)) restPos rest).1,
        (attributesFrom (seen.map ((a.key, keyPos) :: ·)) restPos rest).2) := by
  rw [attributesFrom]
  split
  · rename_i hstep
    cases h.symm.trans hstep
  · rename_i f hstep
    cases h.symm.trans hstep
  · rename_i a' keyPos' restPos' rest' hstep
    cases h.symm.trans hstep
    rfl

/-- **Spelled items are read as they are written.**  If repeated keys are a fault, the keys have to
be different. -/
theorem attributesFrom_spelling {items : List Item} (h : ∀ i ∈ items, i.HasNames)
    {seen : Option (List (List Char × Nat))} (hkeys : (items.map Item.key).Nodup)
    (hnew : ∀ i ∈ items, seen.bind (·.lookup i.key) = none) (pos : Nat) :
    attributesFrom seen pos (items.flatMap Item.spelling) = (items.map Item.written, none) := by
  induction items generalizing seen pos with
  | nil =>
    rw [List.flatMap_nil, attributesFrom]
    rfl
  | cons i items ih =>
    obtain ⟨hkey, hkeys⟩ := List.nodup_cons.1 hkeys
    obtain ⟨keyPos, restPos, hfound⟩ := readAttribute_spelling (h i List.mem_cons_self)
      (hnew i List.mem_cons_self) pos (items.flatMap Item.spelling)
    have hrest : ∀ j ∈ items,
        (seen.map ((i.key, keyPos) :: ·)).bind (·.lookup j.key) = none := by
      intro j hj
      have hne : (j.key == i.key) = false := by
        simpa using fun hji : j.key = i.key => hkey (hji ▸ List.mem_map_of_mem hj)
      have hj := hnew j (List.mem_cons_of_mem i hj)
      cases seen with
      | none => rfl
      | some seen => simpa [List.lookup_cons, hne] using hj
    obtain ⟨hitems, hfault⟩ := Prod.ext_iff.1
      (ih (fun j hj => h j (List.mem_cons_of_mem i hj)) hkeys hrest restPos)
    rw [List.flatMap_cons, attributesFrom_found hfound]
    exact Prod.ext (congrArg (i.written :: ·) hitems) hfault

/-- **The attributes of a spelled tag** are its items, whether repeated keys are looked for or
not. -/
theorem tagAttributes_tagContent {tag : List Char} {items : List Item} (htag : IsName tag)
    (h : ∀ i ∈ items, i.HasNames) (hkeys : (items.map Item.key).Nodup) (distinct : Bool) :
    tagAttributes distinct (tagContent tag items) = (items.map Item.written, none) := by
  rw [tagAttributes, dropName_tagContent htag, readAttributes]
  refine attributesFrom_spelling h hkeys (fun i _ => ?_) _
  cases distinct <;> rfl

end ViewHolder.Markup
