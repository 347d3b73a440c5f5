import ViewHolder.Proofs.MergedViews
import ViewHolder.Proofs.TreeViews

/-!
# Reading by elements

A text is read as a layout unless something is wrong with its markup, and what is wrong does not
depend on how the layout is to be read.  The views are those of the elements that stand in the
text, and what an element says decides with the reading options whether it is one.  This holds of
every text, not only of those that are spelled in a certain way.

## Main definitions

* `Markup.Element.said` : what the attributes of an element say.
* `Markup.Element.view?` : the view that an element is, if it is one.
* `Markup.Document.layoutFault?` : what is wrong with a document.

## Main results

* `viewOf_eq` : the view of an element that is not faulty.
* `Layout.read_eq` : a text without a fault has the views of its elements, the first of each id.
* `Markup.Content.layoutFault?_spelling` : there is nothing wrong with a spelled element tree.
-/

namespace ViewHolder

namespace Markup

/-! ### What an element says -/

/-- The expanded name of an attribute.  A name whose qualifier is not bound is in no namespace. -/
def ResolvedAttribute.expandedName (a : ResolvedAttribute) : ExpandedName :=
  match a.space with
  | some space => .qualified space a.name
  | none => .plain a.name

/-- What an attribute says: its expanded name and its value without references. -/
def ResolvedAttribute.said (a : ResolvedAttribute) : ExpandedName × List Char :=
  (a.expandedName, (expand a.value).toOption.getD [])

namespace Element

/-- What the attributes of an element say, the last one first: of attributes with one name the last
one counts. -/
def said (e : Element) : List (ExpandedName × List Char) :=
  e.attributes.reverse.map ResolvedAttribute.said

/-- The name of an element without its qualifier. -/
def localTag (e : Element) : List Char := (splitName e.name).2

/-- The view that an element is, if it is one. -/
def view? (e : Element) (opts : ReadingOptions) : Option View :=
  elementView? opts e.localTag e.said

/-- What is wrong with an element, if anything: a value that cannot be read comes before a fault
between the attributes. -/
def layoutFault? (e : Element) : Option LayoutFault :=
  match Marks.ofAttributes {} e.attributes with
  | .error f => some (.markup e.stop (.badReference f))
  | .ok _ => e.defect.map (.attributes e.stop)

end Element

/-- What is wrong with a document, if anything: its first faulty element, or else the fault that
ends it. -/
def Document.layoutFault? (d : Document) : Option LayoutFault :=
  (d.elements.findSome? Element.layoutFault?).or (d.fault.map fun f => .markup f.2 f.1)

end Markup

open Markup

/-! ### Marks -/

/-- The kind of an attribute is decided by its expanded name. -/
theorem Mark.ofAttribute?_eq_some_iff {a : ResolvedAttribute} {k : Mark} :
    Mark.ofAttribute? a = some k ↔ k.expandedName = a.expandedName := by
  obtain ⟨space, name, value⟩ := a
  cases space with
  | some space => exact Mark.ofAttribute?_eq_some
  | none =>
    obtain ⟨own, local', hk, -⟩ := k.exists_expandedName
    simp [Mark.ofAttribute?, ResolvedAttribute.expandedName, hk]

theorem markedValue?_concat (attributes : List (ExpandedName × List Char)) (name : ExpandedName)
    (value : List Char) (k : Mark) :
    markedValue? (attributes ++ [(name, value)]) k =
      (markedValue? attributes k).or
        (if k.expandedName = name then some (String.ofList value) else none) := by
  rw [markedValue?, List.lookup_append, Option.map_or, ← markedValue?]
  by_cases hk : k.expandedName = name
  · simp [hk]
  · rw [if_neg hk, List.lookup_cons, beq_eq_false_iff_ne.2 hk]
    rfl

namespace Marks

variable (m : Marks) (attributes : List (ExpandedName × List Char)) {name : ExpandedName}
  (value : List Char)

/-- An attribute that is taken note of counts unless a later one has its name. -/
theorem after_concat_note {k : Mark} (hk : k.expandedName = name) :
    m.after (attributes ++ [(name, value)]) = (m.note k (String.ofList value)).after attributes := by
  subst hk
  simp only [after, markedValue?_concat, Mark.expandedName_injective.eq_iff]
  cases k with
  | id => simp [note]
  | ignore => cases markedValue? attributes .ignore <;> simp [note]
  | inclusion => cases markedValue? attributes .inclusion <;> simp [note]
  | accessor => simp [note]

theorem after_concat_skip (hk : ∀ k, Mark.expandedName k ≠ name) :
    m.after (attributes ++ [(name, value)]) = m.after attributes := by
  simp only [after, markedValue?_concat, hk, if_false, Option.or_none]

end Marks

/-- **What the attributes of an element say**, if their values can be read, is what its last
attribute of each kind says. -/
theorem Marks.ofAttributes_eq {m m' : Marks} {attributes : List ResolvedAttribute}
    (h : m.ofAttributes attributes = .ok m') :
    m' = m.after (attributes.reverse.map ResolvedAttribute.said) := by
  induction attributes generalizing m with
  | nil => exact (Except.ok.inj h).symm
  | cons a rest ih =>
    rw [List.reverse_cons, List.map_append, List.map_singleton, ResolvedAttribute.said]
    rw [ofAttributes] at h
    cases hkind : Mark.ofAttribute? a with
    | none =>
      rw [hkind] at h
      have hskip : ∀ k, Mark.expandedName k ≠ a.expandedName := fun k hk => by
        rw [Mark.ofAttribute?_eq_some_iff.2 hk] at hkind
        cases hkind
      rw [after_concat_skip _ _ _ hskip]
      exact ih h
    | some k =>
      rw [hkind] at h
      cases hvalue : expand a.value with
      | error f =>
        rw [hvalue] at h
        cases h
      | ok value =>
        rw [hvalue] at h
        rw [after_concat_note _ _ _ (Mark.ofAttribute?_eq_some_iff.1 hkind)]
        exact ih h

/-! ### Views of elements -/

theorem elementType_eq (opts : ReadingOptions) (name : List Char) :
    elementType opts name = tagType opts (splitName name).2 := by
  rw [elementType, tagType]
  simp

/-- **The view of an element** that is not faulty is what the element says. -/
theorem viewOf_eq (opts : ReadingOptions) (e : Element) :
    viewOf opts e = e.layoutFault?.elim (.ok (e.view? opts)) .error := by
  rw [viewOf, Element.layoutFault?]
  cases hmarks : Marks.ofAttributes {} e.attributes with
  | error f => rfl
  | ok m =>
    dsimp only
    cases e.defect with
    | some f => rfl
    | none =>
      have hview : m.view? opts (elementType opts e.name) = e.view? opts := by
        rw [elementType_eq, Marks.ofAttributes_eq hmarks]
        exact view?_after opts e.localTag e.said
      rw [hview]
      rfl

/-! ### Layouts -/

namespace Layout

theorem pushElements_eq (opts : ReadingOptions) (l : Layout) (es : List Element) :
    l.pushElements opts es = (es.findSome? Element.layoutFault?).elim
      (.ok ((es.filterMap (·.view? opts)).foldl push l)) .error := by
  induction es generalizing l with
  | nil => rfl
  | cons e es ih =>
    have hview := viewOf_eq opts e
    cases hfaulty : e.layoutFault? with
    | some f =>
      rw [hfaulty] at hview
      rw [pushElements, hview, List.findSome?_cons, hfaulty]
      rfl
    | none =>
      rw [hfaulty] at hview
      rw [pushElements_cons hview, ih, List.findSome?_cons, hfaulty, List.filterMap_cons]
      cases e.view? opts <;> rfl

/-- **Reading a text.**  A faulty text is refused with its first fault, whatever the options; any
other text has the views of its elements in document order, of those with one id the first. -/
theorem read_eq (opts : ReadingOptions) (name source : String) :
    Layout.read opts name source = (readDocument source).layoutFault?.elim
      (.ok ⟨name, firstOfEachId ((readDocument source).elements.filterMap (·.view? opts))⟩)
      .error := by
  rw [Layout.read, Document.layoutFault?, pushElements_eq]
  cases (readDocument source).elements.findSome? Element.layoutFault? with
  | some f => rfl
  | none =>
    rw [foldl_push]
    cases (readDocument source).fault with
    | some f => rfl
    | none => simp

theorem read_eq_ok {opts : ReadingOptions} {name source : String}
    (h : (readDocument source).layoutFault? = none) : Layout.read opts name source =
      .ok ⟨name, firstOfEachId ((readDocument source).elements.filterMap (·.view? opts))⟩ := by
  rw [read_eq, h]
  rfl

end Layout

/-! ### Spelled element trees -/

/-- **There is nothing wrong with a spelled element tree.** -/
theorem Markup.Content.layoutFault?_spelling {c : Content} (hspelled : c.IsSpelled)
    (hbound : c.IsBound .outer) : (readDocument (String.ofList c.spelling)).layoutFault? = none := by
  obtain ⟨tokens, htokens, hdocument⟩ := readDocument_spelling hspelled
  obtain ⟨rest, hrest, hfault, hviews⟩ := Content.readsTo {} Scope.spells_outer hspelled hbound
    [] none tokens [] (htokens.trans (List.append_nil _).symm)
  obtain rfl : rest = [] := List.map_eq_nil_iff.1 hrest
  rw [hdocument, Document.layoutFault?, hfault]
  have hok := hviews ⟨"", []⟩
  rw [Layout.pushElements_eq] at hok
  cases hfaulty : (documentFrom [] [] none tokens).elements.findSome? Element.layoutFault? with
  | some f =>
    rw [hfaulty] at hok
    cases hok
  | none => rfl

end ViewHolder
