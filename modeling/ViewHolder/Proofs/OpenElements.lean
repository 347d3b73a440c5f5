import ViewHolder.Layout.Reader
import ViewHolder.Proofs.TreeViews

/-!
# Elements left open

The reader matches every end tag with the element that was opened last, and it does not ask which
elements are open where the text ends.  So the tags of a text that is read as a layout are balanced
up to end tags that are missing at its end, and the text is read as if they stood there.  In
particular a document that is cut off between two tags is read as a layout without the views behind
the cut.

## Main definitions

* `Markup.Balanced` : tags in which every element that is opened is closed.
* `Markup.openAfter` : the elements that are open after some tags.
* `Markup.sourceTags` : the tags of a text.

## Main results

* `Markup.balanced_iff` : tags are balanced exactly if they leave no element open.
* `Layout.read_tags` : the tags of a text that is read as a layout.
* `Layout.read_cutLayout` : a text that is read as a layout although its tags are not balanced.
-/

namespace ViewHolder

namespace Markup

/-! ### Balanced tags -/

/-- Tags in which every element that is opened is closed by an end tag of its name, and closed
before the elements around it. -/
inductive Balanced : List Token → Prop
  /-- No tags. -/
  | nil : Balanced []
  /-- An element of one tag, and what follows it. -/
  | emptyElement (content : List Char) {rest : List Token} (hrest : Balanced rest) :
      Balanced (.startTag content true :: rest)
  /-- An element of two tags, and what follows it. -/
  | element (content : List Char) {inner rest : List Token} (hinner : Balanced inner)
      (hrest : Balanced rest) :
      Balanced (.startTag content false :: (inner ++ .endTag (tagName content) :: rest))

/-- The names of the elements that are open after some tags, the innermost first, when `opened` are
open before them; nothing if an end tag does not match. -/
def openAfter (opened : List (List Char)) : List Token → Option (List (List Char))
  | [] => some opened
  | .startTag content closed :: rest =>
    openAfter (if closed then opened else tagName content :: opened) rest
  | .endTag name :: rest =>
    match opened with
    | [] => none
    | expected :: others => if name = expected then openAfter others rest else none

theorem openAfter_append (opened : List (List Char)) (ts us : List Token) :
    openAfter opened (ts ++ us) = (openAfter opened ts).bind (openAfter · us) := by
  induction ts generalizing opened with
  | nil => rfl
  | cons t ts ih =>
    cases t with
    | startTag content closed => exact ih _
    | endTag name =>
      cases opened with
      | nil => rfl
      | cons expected others =>
        simp only [List.cons_append, openAfter]
        split
        · exact ih others
        · rfl

/-- End tags close the elements that are open. -/
theorem openAfter_endTags (names opened : List (List Char)) :
    openAfter (names ++ opened) (names.map .endTag) = some opened := by
  induction names with
  | nil => rfl
  | cons name names ih =>
    rw [List.map_cons, List.cons_append, openAfter, if_pos rfl]
    exact ih

/-- Balanced tags leave the elements open that were open before. -/
theorem Balanced.openAfter_eq {ts : List Token} (h : Balanced ts) (opened : List (List Char)) :
    openAfter opened ts = some opened := by
  induction h generalizing opened with
  | nil => rfl
  | emptyElement content _ ih => exact ih opened
  | element content _ _ ihinner ihrest =>
    rw [openAfter, if_neg Bool.false_ne_true, openAfter_append, ihinner, Option.bind_some,
      openAfter, if_pos rfl]
    exact ihrest opened

/-- Tags that close the given elements, the innermost first, with balanced tags between their end
tags. -/
inductive Closing : List (List Char) → List Token → Prop
  /-- Nothing is to be closed. -/
  | done {ts : List Token} (h : Balanced ts) : Closing [] ts
  /-- The end tag of the innermost element, and what closes the others. -/
  | close (name : List Char) {others : List (List Char)} {inner rest : List Token}
      (hinner : Balanced inner) (hrest : Closing others rest) :
      Closing (name :: others) (inner ++ .endTag name :: rest)

theorem Closing.emptyElement {opened : List (List Char)} {ts : List Token} (h : Closing opened ts)
    (content : List Char) : Closing opened (.startTag content true :: ts) := by
  cases h with
  | done h => exact .done (.emptyElement content h)
  | close name hinner hrest => exact .close name (.emptyElement content hinner) hrest

theorem Closing.element {content : List Char} {opened : List (List Char)} {ts : List Token}
    (h : Closing (tagName content :: opened) ts) :
    Closing opened (.startTag content false :: ts) := by
  cases h with
  | close _ hinner hrest =>
    cases hrest with
    | done hrest => exact .done (.element content hinner hrest)
    | close name hinner' hrest =>
      have hboth := Closing.close name (.element content hinner hinner') hrest
      rwa [List.cons_append, List.append_assoc, List.cons_append] at hboth

/-- Tags that leave nothing open close all that was open before them. -/
theorem closing_of_openAfter {opened : List (List Char)} {ts : List Token}
    (h : openAfter opened ts = some []) : Closing opened ts := by
  induction ts generalizing opened with
  | nil =>
    obtain rfl : opened = [] := Option.some.inj h
    exact .done .nil
  | cons t ts ih =>
    cases t with
    | startTag content closed =>
      cases closed with
      | true => exact (ih h).emptyElement content
      | false => exact (ih h).element
    | endTag name =>
      cases opened with
      | nil => cases h
      | cons expected others =>
        rw [openAfter] at h
        split at h
        · rename_i hname
          rw [hname]
          exact .close expected .nil (ih h)
        · cases h

/-- **Tags are balanced exactly if they leave no element open.** -/
theorem balanced_iff {ts : List Token} : Balanced ts ↔ openAfter [] ts = some [] :=
  ⟨fun h => h.openAfter_eq [], fun h => by
    cases closing_of_openAfter h with
    | done h => exact h⟩

instance (ts : List Token) : Decidable (Balanced ts) := decidable_of_iff _ balanced_iff.symm

/-- The tags of a content are balanced. -/
theorem Content.balanced_tags {c : Content} (h : c.IsSpelled) : Balanced c.tags := by
  induction c with
  | nil => exact .nil
  | text cs rest ih => exact ih h
  | comment cs rest ih => exact ih h.2
  | characterData cs rest ih => exact ih h.2
  | element tag items children rest ihchildren ihrest =>
    obtain ⟨htag, -, hchildren, hrest⟩ := h
    have hname : tagName (tagContent tag items) = tag := tagName_tagContent htag items
    have hbalanced := Balanced.element (tagContent tag items) (ihchildren hchildren) (ihrest hrest)
    rwa [hname] at hbalanced
  | emptyElement tag items rest ih => exact .emptyElement _ (ih h.2.2)

/-! ### Documents -/

/-- The scan of a text; a byte order mark at its start is no part of it. -/
def sourceScan (source : String) : Scan :=
  scan (match source.toList with
    | '\uFEFF' :: rest => rest
    | cs => cs)

/-- The tags of a text up to the first fault. -/
def sourceTags (source : String) : List Token := (sourceScan source).tokens.map Prod.fst

theorem readDocument_eq (source : String) : readDocument source =
    documentFrom [] [] (sourceScan source).fault (sourceScan source).tokens := rfl

/-- The end tags of some elements at one offset. -/
def endTags (names : List (List Char)) (stop : Nat) : List (Token × Nat) :=
  names.map fun name => (.endTag name, stop)

theorem documentFrom_endTags (scope : Scope) (opened : List (List Char × Scope)) (stop : Nat) :
    documentFrom scope opened none (endTags (opened.map Prod.fst) stop) = ⟨[], none⟩ := by
  induction opened generalizing scope with
  | nil => rfl
  | cons o opened ih =>
    rw [List.map_cons, endTags, List.map_cons, documentFrom, if_pos rfl]
    exact ih o.2

/-- A document without faults matches its end tags with the elements opened last, and it is what it
would be if the elements that it leaves open were closed. -/
theorem documentFrom_openAfter {scope : Scope} {opened : List (List Char × Scope)}
    {fault : Option (Fault × Nat)} {ts : List (Token × Nat)}
    (h : (documentFrom scope opened fault ts).fault = none) :
    fault = none ∧ ∃ left, openAfter (opened.map Prod.fst) (ts.map Prod.fst) = some left ∧
      ∀ stop, documentFrom scope opened none (ts ++ endTags left stop) =
        documentFrom scope opened fault ts := by
  induction ts generalizing scope opened with
  | nil =>
    obtain rfl : fault = none := h
    exact ⟨rfl, _, rfl, documentFrom_endTags scope opened⟩
  | cons t ts ih =>
    obtain ⟨t, offset⟩ := t
    cases t with
    | startTag content closed =>
      rw [documentFrom] at h
      cases hscope : scope.declare (tagAttributes false content).1 with
      | error f => rw [hscope] at h; cases h
      | ok inner =>
        simp only [hscope, Document.cons] at h
        cases closed with
        | _ =>
          obtain ⟨hfault, left, hleft, hsame⟩ := ih h
          refine ⟨hfault, left, hleft, fun stop => ?_⟩
          rw [List.cons_append, documentFrom, documentFrom, hscope]
          exact congrArg (Document.cons _) (hsame stop)
    | endTag name =>
      cases opened with
      | nil => cases h
      | cons o opened =>
        obtain ⟨expected, outer⟩ := o
        rw [documentFrom] at h
        split at h
        · rename_i hname
          obtain ⟨hfault, left, hleft, hsame⟩ := ih h
          refine ⟨hfault, left, ?_, fun stop => ?_⟩
          · rw [List.map_cons, List.map_cons, openAfter, if_pos hname]
            exact hleft
          · rw [List.cons_append, documentFrom, documentFrom, if_pos hname, if_pos hname]
            exact hsame stop
        · cases h

end Markup

/-! ### Layouts -/

/-- **The tags of a text that is read as a layout.**  The text is without faults between its tags,
every end tag matches the element that was opened last, and the text is read as if the elements
that are still open at its end were closed there.  So the tags are balanced exactly if no element
is left open, which the reader does not ask for. -/
theorem Layout.read_tags {opts : ReadingOptions} {name source : String} {l : Layout}
    (h : Layout.read opts name source = .ok l) :
    (Markup.sourceScan source).fault = none ∧ ∃ opened : List (List Char),
      Markup.Balanced (Markup.sourceTags source ++ opened.map .endTag) ∧
      (Markup.Balanced (Markup.sourceTags source) ↔ opened = []) ∧
      ∀ stop, Layout.pushElements opts ⟨name, []⟩ (Markup.documentFrom [] [] none
        ((Markup.sourceScan source).tokens ++ Markup.endTags opened stop)).elements = .ok l := by
  obtain ⟨hpush, hdocument⟩ : Layout.pushElements opts ⟨name, []⟩
      (Markup.readDocument source).elements = .ok l ∧
        (Markup.readDocument source).fault = none := by
    unfold Layout.read at h
    dsimp only at h
    split at h
    · cases h
    · rename_i l' hl'
      split at h
      · cases h
      · rename_i hnone
        exact ⟨hl'.trans h, hnone⟩
  rw [Markup.readDocument_eq] at hpush hdocument
  obtain ⟨hfault, opened, hopened, hsame⟩ := Markup.documentFrom_openAfter hdocument
  have hopened : Markup.openAfter [] (Markup.sourceTags source) = some opened := hopened
  refine ⟨hfault, opened, ?_, ?_, fun stop => ?_⟩
  · have hclose := Markup.openAfter_endTags opened []
    rw [List.append_nil] at hclose
    rw [Markup.balanced_iff, Markup.openAfter_append, hopened]
    exact hclose
  · rw [Markup.balanced_iff, hopened, Option.some.injEq]
  · rw [hsame stop]
    exact hpush

/-- A layout with one view that is cut off inside its root. -/
def cutLayout : String :=
  "<a xmlns:n=\"http://schemas.android.com/apk/res/android\"><b n:id=\"@+id/x\"/>"

/-- The layout that is cut off, with a second view behind the cut. -/
def wholeLayout : String := cutLayout ++ "<b n:id=\"@+id/y\"/></a>"

/-- A view of the layout that is cut off. -/
def cutView (id : String) : View := ⟨"android.widget.b", id, false, none⟩

theorem Layout.read_tags_cutLayout :
    Layout.read {} "main" cutLayout = .ok ⟨"main", [cutView "x"]⟩ ∧
      ∃ opened : List (List Char), opened ≠ [] ∧
        Markup.Balanced (Markup.sourceTags cutLayout ++ opened.map .endTag) := by
  have hread : Layout.read {} "main" cutLayout = .ok ⟨"main", [cutView "x"]⟩ := by
    decide +kernel
  have hcut : ¬ Markup.Balanced (Markup.sourceTags cutLayout) := by decide +kernel
  obtain ⟨-, opened, hbalanced, hiff, -⟩ := Layout.read_tags hread
  exact ⟨hread, opened, fun hnil => hcut (hiff.2 hnil), hbalanced⟩

/-- A document that is cut off inside its root is read as a layout, and the view behind the cut is
silently missing. -/
theorem Layout.read_cutLayout :
    Layout.read {} "main" cutLayout = .ok ⟨"main", [cutView "x"]⟩ ∧
      ¬ Markup.Balanced (Markup.sourceTags cutLayout) ∧
      Layout.read {} "main" wholeLayout = .ok ⟨"main", [cutView "x", cutView "y"]⟩ ∧
      Markup.Balanced (Markup.sourceTags wholeLayout) := by
  decide +kernel

end ViewHolder
