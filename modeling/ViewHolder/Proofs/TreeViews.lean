import ViewHolder.Proofs.ElementTree
import ViewHolder.Proofs.ElementViews
import ViewHolder.Proofs.MergedViews

/-!
# The views of an element tree

The elements of a spelled document are visited in document order, and the attributes of each are
resolved with the bindings that its own tag and the tags around it declare.  Reading the document
as a layout gives the views that these elements are; of several views with one id the first is
kept.

## Main definitions

* `Markup.Content.IsBound` : every tag of a content declares and uses qualifiers as it may.
* `Markup.Content.views` : the views of a content in document order.
* `Markup.ReadsTo` : tags of which a document gives some views before it goes on.

## Main results

* `Markup.Content.readsTo` : a document visits the elements of a spelled content.
* `Layout.read_spelling` : reading a spelled element tree gives its views.
-/

namespace ViewHolder

open Markup

/-! ### The views of a content -/

namespace Markup

namespace Content

/-- Every tag of a content declares and uses qualifiers as it may, under the bindings around the
content. -/
def IsBound : Bindings → Content → Prop
  | _, nil => True
  | env, text _ rest => rest.IsBound env
  | env, comment _ rest => rest.IsBound env
  | env, characterData _ rest => rest.IsBound env
  | env, element _ items children rest =>
    Markup.IsBound env items ∧ children.IsBound (env.extend items) ∧ rest.IsBound env
  | env, emptyElement _ items rest => Markup.IsBound env items ∧ rest.IsBound env

instance decidableIsBound : (env : Bindings) → (c : Content) → Decidable (c.IsBound env)
  | _, nil => .isTrue trivial
  | env, text _ rest => rest.decidableIsBound env
  | env, comment _ rest => rest.decidableIsBound env
  | env, characterData _ rest => rest.decidableIsBound env
  | env, element _ items children rest =>
    have := children.decidableIsBound (env.extend items)
    have := rest.decidableIsBound env
    inferInstanceAs (Decidable (_ ∧ _ ∧ _))
  | env, emptyElement _ _ rest =>
    have := rest.decidableIsBound env
    inferInstanceAs (Decidable (_ ∧ _))

/-- The views of a content in document order, under the bindings around the content. -/
def views (opts : ReadingOptions) : Bindings → Content → List View
  | _, nil => []
  | env, text _ rest => rest.views opts env
  | env, comment _ rest => rest.views opts env
  | env, characterData _ rest => rest.views opts env
  | env, element tag items children rest =>
    (elementView? opts tag (expandedAttributes (env.extend items) items)).toList ++
      (children.views opts (env.extend items) ++ rest.views opts env)
  | env, emptyElement tag items rest =>
    (elementView? opts tag (expandedAttributes (env.extend items) items)).toList ++
      rest.views opts env

end Content

end Markup

/-- The view that an element is, if it is one, is added. -/
theorem Layout.pushElements_cons {opts : ReadingOptions} {e : Element} {view : Option View}
    (h : viewOf opts e = .ok view) (l : Layout) (es : List Element) :
    l.pushElements opts (e :: es) = (view.toList.foldl push l).pushElements opts es := by
  rw [pushElements, h]
  cases view <;> rfl

namespace Markup

/-! ### Reading the tags of a document -/

/-- Tags of which a document gives some views before it goes on with what comes behind. -/
def ReadsTo (opts : ReadingOptions) (s : Scope) (tags : List Token) (vs : List View) : Prop :=
  ∀ opened fault tokens later, tokens.map Prod.fst = tags ++ later →
    ∃ rest, rest.map Prod.fst = later ∧
      (documentFrom s opened fault tokens).fault = (documentFrom s opened fault rest).fault ∧
      ∀ l : Layout, l.pushElements opts (documentFrom s opened fault tokens).elements =
        (vs.foldl Layout.push l).pushElements opts (documentFrom s opened fault rest).elements

namespace ReadsTo

variable {opts : ReadingOptions} {s inner : Scope} {ts us : List Token} {vs ws : List View}

theorem nil : ReadsTo opts s [] [] := fun _ _ tokens _ h => ⟨tokens, h, rfl, fun _ => rfl⟩

theorem append (h : ReadsTo opts s ts vs) (h' : ReadsTo opts s us ws) :
    ReadsTo opts s (ts ++ us) (vs ++ ws) := by
  intro opened fault tokens later htokens
  rw [List.append_assoc] at htokens
  obtain ⟨mid, hmid, hfault, hviews⟩ := h opened fault tokens (us ++ later) htokens
  obtain ⟨rest, hrest, hfault', hviews'⟩ := h' opened fault mid later hmid
  refine ⟨rest, hrest, hfault.trans hfault', fun l => ?_⟩
  rw [hviews, hviews', List.foldl_append]

section

variable {content : List Char} {view : Option View}
  (hinner : s.declare (tagAttributes false content).1 = .ok inner)
  (hview : ∀ stop, viewOf opts (elementOf inner content stop) = .ok view)
include hinner hview

/-- An element with one tag. -/
theorem emptyElement : ReadsTo opts s [.startTag content true] view.toList := by
  intro opened fault tokens later htokens
  obtain ⟨⟨token, stop⟩, rest, rfl, rfl, rfl⟩ := List.map_eq_cons_iff.1 htokens
  have hdocument : documentFrom s opened fault ((Token.startTag content true, stop) :: rest) =
      (documentFrom s opened fault rest).cons (elementOf inner content stop) := by
    rw [documentFrom, hinner]
    rfl
  refine ⟨rest, rfl, ?_, fun l => ?_⟩
  · rw [hdocument]
    rfl
  · rw [hdocument]
    exact Layout.pushElements_cons (hview stop) l _

/-- An element with two tags: its children are read in the inner scope. -/
theorem element (hchildren : ReadsTo opts inner ts vs) :
    ReadsTo opts s (.startTag content false :: (ts ++ [.endTag (tagName content)]))
      (view.toList ++ vs) := by
  intro opened fault tokens later htokens
  rw [List.cons_append, List.append_assoc, List.singleton_append] at htokens
  obtain ⟨⟨token, stop⟩, tail, rfl, rfl, htail⟩ := List.map_eq_cons_iff.1 htokens
  obtain ⟨behind, hbehind, hfault, hviews⟩ :=
    hchildren ((tagName content, s) :: opened) fault tail _ htail
  obtain ⟨⟨token, stop'⟩, rest, rfl, rfl, rfl⟩ := List.map_eq_cons_iff.1 hbehind
  have hopen : documentFrom s opened fault ((Token.startTag content false, stop) :: tail) =
      (documentFrom inner ((tagName content, s) :: opened) fault tail).cons
        (elementOf inner content stop) := by
    rw [documentFrom, hinner]
    rfl
  have hclose : documentFrom inner ((tagName content, s) :: opened) fault
      ((Token.endTag (tagName content), stop') :: rest) = documentFrom s opened fault rest := by
    rw [documentFrom]
    exact if_pos rfl
  rw [hclose] at hfault hviews
  refine ⟨rest, rfl, ?_, fun l => ?_⟩
  · rw [hopen, ← hfault]
    rfl
  · rw [hopen, List.foldl_append, ← hviews]
    exact Layout.pushElements_cons (hview stop) l _

end

end ReadsTo

/-- **A document visits the elements of a spelled content** in document order, each with the
bindings in its place. -/
theorem Content.readsTo (opts : ReadingOptions) {c : Content} {s : Scope} {env : Bindings}
    (hs : s.Spells env) (hspelled : c.IsSpelled) (hbound : c.IsBound env) :
    ReadsTo opts s c.tags (c.views opts env) := by
  induction c generalizing s env with
  | nil => exact .nil
  | text cs rest ih => exact ih hs hspelled hbound
  | comment cs rest ih => exact ih hs hspelled.2 hbound
  | characterData cs rest ih => exact ih hs hspelled.2 hbound
  | element tag items children rest ihc ihr =>
    obtain ⟨htag, hnames, hchildren, hrest⟩ := hspelled
    obtain ⟨hitems, hboundChildren, hboundRest⟩ := hbound
    obtain ⟨inner, hdeclare, hinner⟩ := hs.declare hnames hitems.free
    have hattributes := tagAttributes_tagContent htag hnames (hitems.nodup_keys hnames) false
    have helement := ReadsTo.element (by rw [hattributes, hdeclare])
      (viewOf_elementOf opts htag hnames hitems hinner) (ihc hinner hchildren hboundChildren)
    rw [tagName_tagContent htag] at helement
    have hall := helement.append (ihr hs hrest hboundRest)
    simpa [tags, views] using hall
  | emptyElement tag items rest ih =>
    obtain ⟨htag, hnames, hrest⟩ := hspelled
    obtain ⟨hitems, hboundRest⟩ := hbound
    obtain ⟨inner, hdeclare, hinner⟩ := hs.declare hnames hitems.free
    have hattributes := tagAttributes_tagContent htag hnames (hitems.nodup_keys hnames) false
    have helement := ReadsTo.emptyElement (by rw [hattributes, hdeclare])
      (viewOf_elementOf opts htag hnames hitems hinner)
    exact helement.append (ih hs hrest hboundRest)

/-! ### The start of a document -/

/-- A content that begins with a byte order mark has the same tags without it. -/
theorem Content.scansTo_behindMark {c : Content} (h : c.IsSpelled) {cs : List Char}
    (hmark : c.spelling = '\uFEFF' :: cs) : ScansTo cs c.tags := by
  induction c with
  | nil => cases hmark
  | text ds rest ih =>
    cases ds with
    | nil => exact ih h hmark
    | cons d ds =>
      rw [spelling, escape, List.flatMap_cons, ← escape] at hmark
      rcases escapeChar_cases d with ⟨-, hself⟩ | ⟨name, -, href⟩
      · rw [hself] at hmark
        obtain rfl : escape ds ++ rest.spelling = cs := (List.cons.inj hmark).2
        have hrest : ScansTo rest.spelling rest.tags := Content.scansTo h
        exact (ScansTo.text (notMem_escape (by decide) (by decide) ds)).append hrest
      · rw [href] at hmark
        exact absurd (List.cons.inj hmark).1 (by decide)
  | comment ds rest => exact absurd (List.cons.inj hmark).1 (by decide)
  | characterData ds rest => exact absurd (List.cons.inj hmark).1 (by decide)
  | element tag items children rest => exact absurd (List.cons.inj hmark).1 (by decide)
  | emptyElement tag items rest => exact absurd (List.cons.inj hmark).1 (by decide)

theorem ScansTo.scan_eq {cs : List Char} {tags : List Token} (h : ScansTo cs tags) :
    (scan cs).tokens.map Prod.fst = tags ∧ (scan cs).fault = none := by
  obtain ⟨next, htags, hfault⟩ := h 0 []
  have hend : scanFrom next [] = ⟨[], none⟩ := by
    rw [scanFrom_eq]
    rfl
  rw [List.append_nil, hend] at htags hfault
  exact ⟨htags.trans (List.append_nil tags), hfault⟩

/-- A spelled content is read as its tags. -/
theorem readDocument_spelling {c : Content} (h : c.IsSpelled) : ∃ tokens,
    tokens.map Prod.fst = c.tags ∧
      readDocument (String.ofList c.spelling) = documentFrom [] [] none tokens := by
  have hstart {cs : List Char} (hcs : ScansTo cs c.tags) : ∃ tokens,
      tokens.map Prod.fst = c.tags ∧
        documentFrom [] [] (scan cs).fault (scan cs).tokens = documentFrom [] [] none tokens :=
    ⟨(scan cs).tokens, hcs.scan_eq.1, by rw [hcs.scan_eq.2]⟩
  rw [readDocument, String.toList_ofList]
  split
  · rename_i cs hmark
    exact hstart (Content.scansTo_behindMark h hmark)
  · exact hstart (Content.scansTo h)

end Markup

/-- **Reading a spelled element tree gives its views.**  Every content whose tags declare and use
qualifiers as they may is read, and its layout has the views of its elements in document order; of
several views with one id it has the first. -/
theorem Layout.read_spelling (opts : ReadingOptions) (name : String) {c : Content}
    (hspelled : c.IsSpelled) (hbound : c.IsBound .outer) :
    Layout.read opts name (String.ofList c.spelling) =
      .ok ⟨name, firstOfEachId (c.views opts .outer)⟩ := by
  obtain ⟨tokens, htokens, hdocument⟩ := readDocument_spelling hspelled
  have hread := Content.readsTo opts Scope.spells_outer hspelled hbound
  obtain ⟨rest, hrest, hfault, hviews⟩ :=
    hread [] none tokens [] (htokens.trans (List.append_nil _).symm)
  obtain rfl : rest = [] := List.map_eq_nil_iff.1 hrest
  have hlayout : (c.views opts .outer).foldl push ⟨name, []⟩ =
      ⟨name, firstOfEachId (c.views opts .outer)⟩ := by
    rw [Layout.foldl_push]
    simp
  rw [Layout.read, hdocument, hviews, hfault, hlayout]
  rfl

/-- A layout in which the qualifiers of the two namespaces change places below its root, and in
which one id is given twice. -/
def swappedQualifiers : Content :=
  let bind (q space : String) : Item := .binding q.toList space.toList
  let give (q n v : String) : Item := .entry (some q.toList) n.toList v.toList
  .element "LinearLayout".toList [bind "a" frameworkNamespace, bind "b" applicationNamespace]
    (.comment " <View a:id='@+id/comment'/> ".toList <|
      .emptyElement "TextView".toList
        [give "b" "holdr_field_name" "heading", give "a" "id" "@+id/title"] <|
      .element "com.example.Chart".toList
        [give "b" "id" "@android:id/list", bind "a" applicationNamespace,
          give "a" "holdr_ignore" "false", bind "b" frameworkNamespace]
        (.text " 1 < 2 ".toList <|
          .emptyElement "ImageView".toList [give "b" "id" "@+id/title"] <|
          .emptyElement "ImageView".toList
            [give "b" "id" "@+id/hidden", give "a" "holdr_ignore" "true"] .nil) <|
      .characterData "<View/>".toList <|
      .element "Button".toList [give "a" "id" "@+id/a&b"] .nil .nil)
    .nil

theorem Layout.read_spelling_swappedQualifiers :
    swappedQualifiers.IsSpelled ∧ swappedQualifiers.IsBound .outer ∧
      Layout.read {} "main" (String.ofList swappedQualifiers.spelling) =
        .ok ⟨"main", [⟨"android.widget.TextView", "title", false, some "heading"⟩,
          ⟨"com.example.Chart", "list", true, none⟩,
          ⟨"android.widget.Button", "a&b", false, none⟩]⟩ := by
  have hspelled : swappedQualifiers.IsSpelled := by decide +kernel
  have hbound : swappedQualifiers.IsBound .outer := by decide +kernel
  have hviews : firstOfEachId (swappedQualifiers.views {} .outer) =
      [⟨"android.widget.TextView", "title", false, some "heading"⟩,
        ⟨"com.example.Chart", "list", true, none⟩,
        ⟨"android.widget.Button", "a&b", false, none⟩] := by decide +kernel
  refine ⟨hspelled, hbound, ?_⟩
  rw [Layout.read_spelling {} "main" hspelled hbound, hviews]

end ViewHolder
