import Mathlib.Data.List.Basic
import ViewHolder.Layout.Reader
import ViewHolder.Proofs.Bindings

/-!
# The view of an element

Four expanded names decide whether an element is a view and which one: the id, the two marks to
leave an element out or to take it, and the name of its accessor.  The order of the attributes does
not matter, and neither do the qualifiers that stand for the two namespaces.

## Main definitions

* `Mark.expandedName`, `markedValue?` : the four names, and the value that is given to one of them.
* `elementView?` : the view that an element is, if it is one.

## Main results

* `Marks.ofAttributes_written` : what the attributes of a spelled tag say.
* `viewOf_elementOf` : the view of a spelled tag.
-/

namespace ViewHolder

open Markup

/-! ### The view of a tag -/

/-- The expanded name of the attributes of a kind. -/
def Mark.expandedName : Mark → ExpandedName
  | id => .qualified frameworkNamespace.toList "id".toList
  | ignore => .qualified applicationNamespace.toList "holdr_ignore".toList
  | inclusion => .qualified applicationNamespace.toList "holdr_include".toList
  | accessor => .qualified applicationNamespace.toList "holdr_field_name".toList

/-- The value that some attributes give to a kind. -/
def markedValue? (attributes : List (ExpandedName × List Char)) (k : Mark) : Option String :=
  (attributes.lookup k.expandedName).map String.ofList

/-- The part of an id behind its first slash, or all of it if there is no slash. -/
def localId (rawId : String) : String :=
  if '/' ∈ rawId.toList then String.ofList (rawId.toList.drop (rawId.toList.idxOf '/' + 1))
  else rawId

/-- The type of the elements with a tag: a tag with a dot stands for itself, any other tag is in
the package of the widgets. -/
def tagType (opts : ReadingOptions) (tag : List Char) : String :=
  if '.' ∈ tag then String.ofList tag else opts.widgetPackage ++ "." ++ String.ofList tag

/-- An element with an id is a view unless it asks to be left out; where elements are not taken by
default it also has to ask for being taken or for the name of its accessor. -/
def IsTaken (opts : ReadingOptions) (attributes : List (ExpandedName × List Char)) : Prop :=
  markedValue? attributes .ignore ≠ some "true" ∧
    (opts.defaultInclude = true ∨ markedValue? attributes .inclusion = some "true" ∨
      markedValue? attributes .accessor ≠ none)

instance (opts : ReadingOptions) (attributes : List (ExpandedName × List Char)) :
    Decidable (IsTaken opts attributes) := inferInstanceAs (Decidable (_ ∧ _))

/-- The view that an element is, if it is one. -/
def elementView? (opts : ReadingOptions) (tag : List Char)
    (attributes : List (ExpandedName × List Char)) : Option View :=
  (markedValue? attributes .id).bind fun rawId =>
    if IsTaken opts attributes then
      some ⟨tagType opts tag, localId rawId, "@android".toList.isPrefixOf rawId.toList,
        markedValue? attributes .accessor⟩
    else none

/-! ### Kinds of attributes -/

theorem Mark.expandedName_injective : Function.Injective Mark.expandedName := by
  intro k k' h
  cases k <;> cases k' <;> simp_all [expandedName]

theorem ofList_eq_iff {cs : List Char} {s : String} : String.ofList cs = s ↔ s.toList = cs := by
  constructor
  · rintro rfl
    exact String.toList_ofList
  · rintro rfl
    exact String.ofList_toList

/-- The kind of an attribute in a namespace. -/
theorem Mark.ofAttribute?_eq_some {space name value : List Char} {k : Mark} :
    Mark.ofAttribute? ⟨some space, name, value⟩ = some k ↔
      k.expandedName = .qualified space name := by
  constructor
  · intro h
    simp only [ofAttribute?, Option.map_some, ofList_eq_iff] at h
    split_ifs at h <;> cases h <;> simp_all [expandedName]
  · intro h
    cases k <;> cases h <;> rfl

theorem toList_ne_xmlNamespace {space : String}
    (h : space ≠ "http://www.w3.org/XML/1998/namespace") : space.toList ≠ xmlNamespace :=
  fun heq => h (String.toList_injective heq)

/-- The names of the kinds are in namespaces that are not reserved and that are written without
references. -/
theorem Mark.exists_expandedName (k : Mark) : ∃ space name,
    k.expandedName = .qualified space name ∧ space ≠ xmlNamespace ∧ IsPlain space := by
  have hframework : frameworkNamespace.toList ≠ xmlNamespace ∧
      IsPlain frameworkNamespace.toList :=
    ⟨toList_ne_xmlNamespace (by decide), by decide +kernel⟩
  have happlication : applicationNamespace.toList ≠ xmlNamespace ∧
      IsPlain applicationNamespace.toList :=
    ⟨toList_ne_xmlNamespace (by decide), by decide +kernel⟩
  cases k with
  | id => exact ⟨_, _, rfl, hframework⟩
  | ignore => exact ⟨_, _, rfl, happlication⟩
  | inclusion => exact ⟨_, _, rfl, happlication⟩
  | accessor => exact ⟨_, _, rfl, happlication⟩

/-- **A name is of a kind** if its expanded name is that of the kind. -/
theorem Mark.ofAttribute?_resolve {s : Scope} {env : Bindings} (hs : s.Spells env)
    (q : Option (List Char)) (n value : List Char) (k : Mark) :
    Mark.ofAttribute? ⟨q.bind s.resolve?, n, value⟩ = some k ↔
      k.expandedName = env.expandedName q n := by
  obtain ⟨own, name, hk, hreserved, hplain⟩ := k.exists_expandedName
  cases q with
  | none => simp [ofAttribute?, Bindings.expandedName, hk]
  | some q =>
    rw [Option.bind_some]
    by_cases hq : q = "xml".toList
    · have hnone : s.resolve? q = none := hq ▸ hs.resolve_xml
      have hxml : env q = some xmlNamespace := hq ▸ hs.xml
      simp [ofAttribute?, Bindings.expandedName, hk, hnone, hxml, hreserved]
    · rw [hs.resolve q hq]
      cases hspace : env q with
      | none => simp [ofAttribute?, Bindings.expandedName, hk, hspace]
      | some space =>
        have hescape : own = escape space ↔ own = space :=
          eq_comm.trans ((escape_eq_iff hplain).trans eq_comm)
        rw [Option.map_some, Mark.ofAttribute?_eq_some, hk]
        simp [Bindings.expandedName, hspace, hescape]

theorem resolve_written (s : Scope) {i : Item} (hi : i.HasNames) :
    i.written.resolve s = ⟨i.splitKey.1.bind s.resolve?, i.splitKey.2, escape i.text⟩ := by
  have hsplit : splitName i.written.key = i.splitKey := splitName_key hi
  rw [Attribute.resolve, hsplit]
  rcases i.splitKey with ⟨_ | q, n⟩ <;> rfl

/-! ### What an element says about itself -/

section

variable {attributes : List (ExpandedName × List Char)} {name : ExpandedName}

theorem markedValue?_cons (value : List Char) (k : Mark) :
    markedValue? ((name, value) :: attributes) k =
      if k.expandedName = name then some (String.ofList value) else markedValue? attributes k := by
  rw [markedValue?, List.lookup_cons]
  by_cases hk : k.expandedName = name
  · simp [hk]
  · rw [if_neg hk, beq_eq_false_iff_ne.2 hk, markedValue?]

theorem markedValue?_eq_none {k : Mark} (h : k.expandedName ∉ attributes.map Prod.fst) :
    markedValue? attributes k = none := by
  rw [markedValue?, Option.map_eq_none_iff, List.lookup_eq_none_iff]
  exact fun a ha => bne_iff_ne.2 fun hname => h (List.mem_map.2 ⟨a, ha, hname.symm⟩)

/-- What is known about an element after some attributes, given what was known before. -/
def Marks.after (m : Marks) (attributes : List (ExpandedName × List Char)) : Marks where
  rawId := (markedValue? attributes .id).or m.rawId
  ignored := (markedValue? attributes .ignore).elim m.ignored (· == "true")
  included := (markedValue? attributes .inclusion).elim m.included (· == "true")
  accessor := (markedValue? attributes .accessor).or m.accessor

/-- An attribute of a kind is taken note of. -/
theorem Marks.after_cons_note (m : Marks) (value : List Char) {k : Mark}
    (hk : k.expandedName = name) (hnew : name ∉ attributes.map Prod.fst) :
    m.after ((name, value) :: attributes) = (m.note k (String.ofList value)).after attributes := by
  have hnone : markedValue? attributes k = none := markedValue?_eq_none (hk ▸ hnew)
  subst hk
  simp only [Marks.after, markedValue?_cons, Mark.expandedName_injective.eq_iff]
  cases k <;> simp [Marks.note, hnone]

/-- An attribute of no kind says nothing. -/
theorem Marks.after_cons_skip (m : Marks) (value : List Char)
    (hk : ∀ k, Mark.expandedName k ≠ name) :
    m.after ((name, value) :: attributes) = m.after attributes := by
  simp only [Marks.after, markedValue?_cons, hk, if_false]

end

/-- **What the attributes of a spelled tag say** is what their expanded names say. -/
theorem Marks.ofAttributes_written {s : Scope} {env : Bindings} (hs : s.Spells env)
    {items : List Item} (hnames : ∀ i ∈ items, i.HasNames)
    (hdistinct : ((expandedAttributes env items).map Prod.fst).Nodup) (m : Marks) :
    m.ofAttributes (items.map fun i => i.written.resolve s) =
      .ok (m.after (expandedAttributes env items)) := by
  induction items generalizing m with
  | nil => rfl
  | cons i items ih =>
    have hrest : ∀ j ∈ items, j.HasNames := fun j hj => hnames j (List.mem_cons_of_mem i hj)
    rw [List.map_cons, Marks.ofAttributes, resolve_written s (hnames i List.mem_cons_self)]
    cases i with
    | binding q space =>
      have hnone : Mark.ofAttribute? ⟨(some xmlnsName).bind s.resolve?, q, escape space⟩ =
          none :=
        Option.eq_none_iff_forall_ne_some.2 fun k hk => by
          obtain ⟨own, name, hown, -⟩ := k.exists_expandedName
          have hkind := (Mark.ofAttribute?_resolve hs _ _ _ k).1 hk
          rw [hown, Bindings.expandedName, hs.xmlns] at hkind
          cases hkind
      dsimp only [Item.splitKey, Item.text]
      rw [hnone]
      exact ih hrest hdistinct m
    | entry q n v =>
      obtain ⟨hnew, hdistinct⟩ := List.nodup_cons.1 hdistinct
      dsimp only [Item.splitKey, Item.text]
      cases hkind : Mark.ofAttribute? ⟨q.bind s.resolve?, n, escape v⟩ with
      | none =>
        have hskip : ∀ k, Mark.expandedName k ≠ env.expandedName q n := fun k hk => by
          rw [(Mark.ofAttribute?_resolve hs q n (escape v) k).2 hk] at hkind
          cases hkind
        exact (ih hrest hdistinct m).trans (congrArg _ (m.after_cons_skip v hskip).symm)
      | some k =>
        have hk := (Mark.ofAttribute?_resolve hs q n (escape v) k).1 hkind
        dsimp only
        rw [expand_escape]
        exact (ih hrest hdistinct _).trans (congrArg _ (m.after_cons_note v hk hnew).symm)

/-! ### The view of a spelled tag -/

theorem stripId_eq_localId (rawId : String) : stripId rawId = localId rawId := by
  unfold stripId localId
  split_ifs with hslash
  · obtain ⟨front, back, hraw, hfront⟩ := List.eq_append_cons_of_mem hslash
    rw [hraw, List.dropWhile_append_of_pos (bne_of_notMem hfront),
      List.dropWhile_cons_of_neg (by decide), List.idxOf_append_of_notMem hfront,
      List.idxOf_cons_self]
    simp
  · have hdrop : rawId.toList.dropWhile (· != '/') = [] :=
      List.dropWhile_eq_nil_iff.2 (bne_of_notMem hslash)
    rw [hdrop]

theorem elementType_eq_tagType (opts : ReadingOptions) {tag : List Char} (h : IsName tag) :
    elementType opts tag = tagType opts tag := by
  rw [elementType, splitName_of_notMem h.colon_notMem, tagType]
  simp

/-- The view that the attributes of an element make of it. -/
theorem view?_after (opts : ReadingOptions) (tag : List Char)
    (attributes : List (ExpandedName × List Char)) :
    (Marks.after {} attributes).view? opts (tagType opts tag) =
      elementView? opts tag attributes := by
  have hignored : (Marks.after {} attributes).ignored = true ↔
      markedValue? attributes .ignore = some "true" := by
    rw [Marks.after]
    cases markedValue? attributes .ignore <;> simp
  have hincluded : (Marks.after {} attributes).included = true ↔
      markedValue? attributes .inclusion = some "true" := by
    rw [Marks.after]
    cases markedValue? attributes .inclusion <;> simp
  have hid : (Marks.after {} attributes).rawId = markedValue? attributes .id := Option.or_none
  have haccessor : (Marks.after {} attributes).accessor = markedValue? attributes .accessor :=
    Option.or_none
  rw [Marks.view?, hid, haccessor, elementView?]
  cases markedValue? attributes .id with
  | none => rfl
  | some rawId =>
    have htaken : IsTaken opts attributes ↔ ¬ (Marks.after {} attributes).ignored = true ∧
        ¬ (!opts.defaultInclude && !(Marks.after {} attributes).included &&
          (markedValue? attributes .accessor).isNone) = true := by
      rw [IsTaken, Ne, ← hignored, ← hincluded]
      cases markedValue? attributes .accessor <;> simp [or_iff_not_imp_left]
    dsimp only
    rw [Option.bind_some, stripId_eq_localId]
    by_cases h : IsTaken opts attributes
    · obtain ⟨hignore, htake⟩ := htaken.1 h
      rw [if_pos h, if_neg hignore, if_neg htake, Text.startsWith]
    · rw [if_neg h]
      split_ifs with hignore htake
      · rfl
      · rfl
      · exact absurd (htaken.2 ⟨hignore, htake⟩) h

/-- **The view of a spelled tag.** -/
theorem viewOf_elementOf (opts : ReadingOptions) {inner : Scope} {env : Bindings}
    {tag : List Char} {items : List Item} (htag : IsName tag) (hnames : ∀ i ∈ items, i.HasNames)
    (hbound : IsBound env items) (hinner : inner.Spells (env.extend items)) (stop : Nat) :
    viewOf opts (elementOf inner (tagContent tag items) stop) =
      .ok (elementView? opts tag (expandedAttributes (env.extend items) items)) := by
  have hitems := tagAttributes_tagContent htag hnames (hbound.nodup_keys hnames) true
  have hmarks := Marks.ofAttributes_written hinner hnames hbound.distinct {}
  rw [elementOf, hitems, tagName_tagContent htag, viewOf]
  dsimp only
  rw [List.map_map, Function.comp_def, hmarks]
  dsimp only
  rw [elementType_eq_tagType opts htag, view?_after]

end ViewHolder
