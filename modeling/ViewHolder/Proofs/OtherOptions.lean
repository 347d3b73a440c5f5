import ViewHolder.Proofs.AccessorNames
import ViewHolder.Proofs.ReadElements

/-!
# Reading with other options

The options of a reading choose among the elements of a text and complete the names of their types;
they decide neither whether the text is a layout nor what its elements say.  So two readings of one
text fail together and with one fault, another package of the widgets changes types only, and
asking elements to opt in leaves some of them out.

## Main definitions

* `Markup.Element.id?` : the id of an element.
* `Markup.Element.IsOffered`, `Markup.Element.OptsIn` : elements that have an id and do not opt
  out, and elements that ask to be taken.
* `Layout.Retyped`, `Layout.Narrowed` : what another package and what opting in make of a layout.

## Main results

* `Markup.Element.view?_of_some` : the view of an element under options that take more.
* `Layout.read_options` : two readings of one text.
-/

namespace ViewHolder

open Markup

/-! ### Elements under other options -/

namespace Markup.Element

/-- The id of an element, if it has one. -/
def id? (e : Element) : Option String := (markedValue? e.said .id).map localId

/-- The element has an id and does not opt out. -/
def IsOffered (e : Element) : Prop :=
  markedValue? e.said .id ≠ none ∧ markedValue? e.said .ignore ≠ some "true"

/-- The element asks to be taken or for the name of its accessor. -/
def OptsIn (e : Element) : Prop :=
  markedValue? e.said .inclusion = some "true" ∨ markedValue? e.said .accessor ≠ none

instance (e : Element) : Decidable e.IsOffered := inferInstanceAs (Decidable (_ ∧ _))

instance (e : Element) : Decidable e.OptsIn := inferInstanceAs (Decidable (_ ∨ _))

variable {o o' : ReadingOptions} {e : Element} {v : View}

theorem view?_eq_some : e.view? o = some v ↔ e.IsOffered ∧ (o.defaultInclude = true ∨ e.OptsIn) ∧
    ∃ rawId, markedValue? e.said .id = some rawId ∧
      v = ⟨tagType o e.localTag, localId rawId, "@android".toList.isPrefixOf rawId.toList,
        markedValue? e.said .accessor⟩ := by
  rw [view?, elementView?]
  constructor
  · intro h
    obtain ⟨rawId, hid, h⟩ := Option.bind_eq_some_iff.1 h
    obtain ⟨⟨hignore, htaken⟩, hview⟩ := Option.ite_none_right_eq_some.1 h
    exact ⟨⟨Option.ne_none_iff_exists'.2 ⟨rawId, hid⟩, hignore⟩, htaken, rawId, hid,
      (Option.some.inj hview).symm⟩
  · rintro ⟨⟨-, hignore⟩, htaken, rawId, hid, rfl⟩
    rw [hid, Option.bind_some, if_pos ⟨hignore, htaken⟩]

/-- A view has the id of its element. -/
theorem id?_of_view? (h : e.view? o = some v) : e.id? = some v.id := by
  obtain ⟨-, -, rawId, hid, rfl⟩ := view?_eq_some.1 h
  rw [id?, hid]
  rfl

/-- **The view of an element under options that take more** differs in its type at most. -/
theorem view?_of_some (hmore : o.defaultInclude = true → o'.defaultInclude = true)
    (h : e.view? o = some v) :
    e.view? o' = some { v with type := tagType o' e.localTag } := by
  obtain ⟨hoffered, htaken, rawId, hid, rfl⟩ := view?_eq_some.1 h
  exact view?_eq_some.2 ⟨hoffered, htaken.imp_left hmore, rawId, hid, rfl⟩

theorem view?_retyped (h : o.defaultInclude = o'.defaultInclude) (e : Element) :
    e.view? o' = (e.view? o).map fun v => { v with type := tagType o' e.localTag } := by
  cases hview : e.view? o with
  | some v => exact view?_of_some (fun ho => h ▸ ho) hview
  | none =>
    cases hview' : e.view? o' with
    | none => rfl
    | some v =>
      rw [view?_of_some (fun ho => h.symm ▸ ho) hview'] at hview
      cases hview

/-- An element whose name has a dot is the same view whatever the package of the widgets. -/
theorem view?_of_dot (h : o.defaultInclude = o'.defaultInclude) (hdot : '.' ∈ e.localTag) :
    e.view? o' = e.view? o := by
  have htype : tagType o' e.localTag = tagType o e.localTag := by
    rw [tagType, tagType, if_pos hdot, if_pos hdot]
  rw [view?_retyped h e]
  cases hview : e.view? o with
  | none => rfl
  | some v =>
    obtain ⟨-, -, rawId, -, rfl⟩ := view?_eq_some.1 hview
    rw [Option.map_some, htype]

theorem view?_of_defaultInclude (ho : o.defaultInclude = true) :
    (e.view? o).isSome = true ↔ e.IsOffered := by
  rw [Option.isSome_iff_exists]
  constructor
  · rintro ⟨v, hv⟩
    exact (view?_eq_some.1 hv).1
  · intro h
    obtain ⟨rawId, hid⟩ := Option.ne_none_iff_exists'.1 h.1
    exact ⟨_, view?_eq_some.2 ⟨h, .inl ho, rawId, hid, rfl⟩⟩

theorem view?_of_not_defaultInclude (ho : o.defaultInclude = false) :
    (e.view? o).isSome = true ↔ e.IsOffered ∧ e.OptsIn := by
  rw [Option.isSome_iff_exists]
  constructor
  · rintro ⟨v, hv⟩
    obtain ⟨hoffered, htaken, -⟩ := view?_eq_some.1 hv
    exact ⟨hoffered, htaken.resolve_left (by simp [ho])⟩
  · rintro ⟨h, hasks⟩
    obtain ⟨rawId, hid⟩ := Option.ne_none_iff_exists'.1 h.1
    exact ⟨_, view?_eq_some.2 ⟨h, .inr hasks, rawId, hid, rfl⟩⟩

/-- Options that take more and name the same package keep the view of an element. -/
theorem view?_of_samePackage (hpackage : o.widgetPackage = o'.widgetPackage)
    (hmore : o.defaultInclude = true → o'.defaultInclude = true) (h : e.view? o = some v) :
    e.view? o' = some v := by
  have htype : tagType o' e.localTag = tagType o e.localTag := by
    rw [tagType, tagType, hpackage]
  rw [view?_of_some hmore h, htype]
  obtain ⟨-, -, rawId, -, rfl⟩ := view?_eq_some.1 h
  rfl

end Markup.Element

/-! ### Layouts under other options -/

namespace Layout

variable {o o' : ReadingOptions} {es kept : List Element} {vs vs' : List View}

/-- What becomes of a layout with some elements when another package is named for the widgets. -/
structure Retyped (es : List Element) (o o' : ReadingOptions) (l l' : Layout) : Prop where
  /-- The views have the same ids in the same order. -/
  ids : l'.ids = l.ids
  /-- The same ids are declared by the framework. -/
  isFramework : l'.views.map (·.isFramework) = l.views.map (·.isFramework)
  /-- The views ask for the same accessor names. -/
  accessor : l'.views.map (·.accessor) = l.views.map (·.accessor)
  /-- The fields of the holder have the same names. -/
  accessorNames : Holder.accessorNames l'.views = Holder.accessorNames l.views
  /-- The views come from the same elements, and those of elements whose names have a dot are the
  same. -/
  elements : ∃ kept : List Element, kept.Sublist es ∧ kept.map (·.view? o) = l.views.map some ∧
    kept.map (·.view? o') = l'.views.map some ∧
    ∀ e ∈ kept, '.' ∈ e.localTag → e.view? o' = e.view? o

/-- What becomes of a layout with some elements, the second one, when elements have to opt in. -/
structure Narrowed (es : List Element) (o o' : ReadingOptions) (l l' : Layout) : Prop where
  /-- No id is new. -/
  ids_subset : l.ids ⊆ l'.ids
  /-- An empty layout stays empty. -/
  isEmpty : l'.isEmpty = true → l.isEmpty = true
  /-- If the offered elements have different ids, all of them were views, and now those of them
  are that opt in; they are the same views unless another package is named. -/
  chosen : ((es.filter (·.IsOffered)).map Element.id?).Nodup →
    (es.filter (·.IsOffered)).map (·.view? o') = l'.views.map some ∧
    ((es.filter (·.IsOffered)).filter (·.OptsIn)).map (·.view? o) = l.views.map some ∧
    (o.widgetPackage = o'.widgetPackage →
      ((es.filter (·.IsOffered)).filter (·.OptsIn)).map (·.view? o') = l.views.map some)

/-! #### Elements and their views -/

section

variable {opts : ReadingOptions} (h : kept.map (·.view? opts) = vs.map some)
include h

/-- What is said of views can be said of their elements. -/
theorem map_map_view? {α : Type} (f : View → α) :
    kept.map (fun e => (e.view? opts).map f) = (vs.map f).map some := by
  have hviews : (kept.map (·.view? opts)).map (Option.map f) = (vs.map some).map (Option.map f) :=
    congrArg _ h
  rw [List.map_map, List.map_map] at hviews
  rw [List.map_map]
  exact hviews

/-- The views without those of an id are those of the elements without this id. -/
theorem map_view?_filter_ids (id : String) :
    (kept.filter fun e => (e.view? opts).map (·.id) ≠ some id).map (·.view? opts) =
      (vs.filter (·.id ≠ id)).map some := by
  have hpush := List.filter_map (p := fun w => decide (w.map View.id ≠ some id))
    (f := fun e : Element => e.view? opts) (l := kept)
  rw [h, List.filter_map] at hpush
  refine hpush.symm.trans (congrArg (List.map some) (List.filter_congr fun w _ => ?_))
  simp

/-- Views have the ids of their elements. -/
theorem map_id?_of_views : kept.map Element.id? = (vs.map (·.id)).map some := by
  rw [← map_map_view? h]
  refine List.map_congr_left fun e he => ?_
  have hview : e.view? opts ∈ vs.map some := h ▸ List.mem_map_of_mem he
  obtain ⟨v, -, hv⟩ := List.mem_map.1 hview
  rw [Element.id?_of_view? hv.symm, ← hv]
  rfl

end

/-! #### Another package -/

/-- The elements whose views are the first of their ids are the same for every package. -/
theorem exists_kept (h : o.defaultInclude = o'.defaultInclude) (es : List Element) :
    ∃ kept : List Element, kept.Sublist es ∧
      kept.map (·.view? o) = (firstOfEachId (es.filterMap (·.view? o))).map some ∧
      kept.map (·.view? o') = (firstOfEachId (es.filterMap (·.view? o'))).map some := by
  have hids (e : Element) : (e.view? o').map (·.id) = (e.view? o).map (·.id) := by
    rw [Element.view?_retyped h e, Option.map_map]
    rfl
  induction es with
  | nil => exact ⟨[], .slnil, rfl, rfl⟩
  | cons e es ih =>
    obtain ⟨kept, hsub, hviews, hviews'⟩ := ih
    have hview' := Element.view?_retyped h e
    cases hview : e.view? o with
    | none =>
      rw [hview] at hview'
      refine ⟨kept, hsub.cons e, ?_, ?_⟩
      · rw [List.filterMap_cons_none (f := fun e : Element => e.view? o) hview, hviews]
      · rw [List.filterMap_cons_none (f := fun e : Element => e.view? o') hview', hviews']
    | some v =>
      rw [hview, Option.map_some] at hview'
      -- The element takes the place of the kept ones of its id, which are the same for both.
      refine ⟨e :: kept.filter fun e' => (e'.view? o).map (·.id) ≠ some v.id,
        (List.filter_sublist.trans hsub).cons_cons e, ?_, ?_⟩
      · rw [List.filterMap_cons_some (f := fun e : Element => e.view? o) hview, firstOfEachId,
          List.map_cons, hview, map_view?_filter_ids hviews, List.map_cons]
      · simp only [← hids]
        rw [List.filterMap_cons_some (f := fun e : Element => e.view? o') hview', firstOfEachId,
          List.map_cons, hview', map_view?_filter_ids hviews', List.map_cons]

/-- What views with other types have in common with the views of the same elements. -/
theorem map_eq_of_kept {α : Type} {f : View → α}
    (hf : ∀ (v : View) (type : String), f { v with type := type } = f v)
    (h : o.defaultInclude = o'.defaultInclude) (hviews : kept.map (·.view? o) = vs.map some)
    (hviews' : kept.map (·.view? o') = vs'.map some) : vs'.map f = vs.map f := by
  have hsame (e : Element) : (e.view? o').map f = (e.view? o).map f := by
    rw [Element.view?_retyped h e, Option.map_map]
    exact congrArg (fun g => (e.view? o).map g) (funext fun v => hf v _)
  apply List.map_injective_iff.2 (Option.some_injective α)
  rw [← map_map_view? hviews, ← map_map_view? hviews']
  exact List.map_congr_left fun e _ => hsame e

/-- **Another package for the widgets** changes the types of widgets only. -/
theorem retyped (h : o.defaultInclude = o'.defaultInclude) (name : String) (es : List Element) :
    Retyped es o o' ⟨name, firstOfEachId (es.filterMap (·.view? o))⟩
      ⟨name, firstOfEachId (es.filterMap (·.view? o'))⟩ := by
  obtain ⟨kept, hsub, hviews, hviews'⟩ := exists_kept h es
  exact {
    ids := map_eq_of_kept (fun _ _ => rfl) h hviews hviews'
    isFramework := map_eq_of_kept (fun _ _ => rfl) h hviews hviews'
    accessor := map_eq_of_kept (fun _ _ => rfl) h hviews hviews'
    accessorNames := Holder.accessorNames_congr
      (map_eq_of_kept (fun _ _ => rfl) h hviews hviews')
    elements := ⟨kept, hsub, hviews, hviews', fun e _ hdot => Element.view?_of_dot h hdot⟩ }

/-! #### Opting in -/

/-- The elements that a test lets through have the views of all elements if it finds those that
are views. -/
theorem map_view?_filter {opts : ReadingOptions} {p : Element → Bool}
    (hp : ∀ e : Element, (e.view? opts).isSome = p e) (es : List Element) :
    (es.filter p).map (·.view? opts) = (es.filterMap (·.view? opts)).map some := by
  rw [List.map_filterMap_some_eq_filter_map_isSome, List.filter_map]
  exact congrArg (fun q => (es.filter q).map (·.view? opts)) (funext hp).symm

/-- If elements with different ids are the views of a text, all of them are kept. -/
theorem map_some_firstOfEachId {opts : ReadingOptions}
    (h : kept.map (·.view? opts) = (es.filterMap (·.view? opts)).map some)
    (hnodup : (kept.map Element.id?).Nodup) :
    kept.map (·.view? opts) = (firstOfEachId (es.filterMap (·.view? opts))).map some := by
  rw [map_id?_of_views h] at hnodup
  rw [firstOfEachId_of_nodup hnodup.of_map, h]

/-- **Asking elements to opt in** leaves out those that do not. -/
theorem narrowed (ho : o.defaultInclude = false) (ho' : o'.defaultInclude = true) (name : String)
    (es : List Element) :
    Narrowed es o o' ⟨name, firstOfEachId (es.filterMap (·.view? o))⟩
      ⟨name, firstOfEachId (es.filterMap (·.view? o'))⟩ := by
  have hmore : o.defaultInclude = true → o'.defaultInclude = true := fun _ => ho'
  have hsubset : (firstOfEachId (es.filterMap (·.view? o))).map (·.id) ⊆
      (firstOfEachId (es.filterMap (·.view? o'))).map (·.id) := fun id hid => by
    rw [mem_ids_firstOfEachId] at hid ⊢
    obtain ⟨v, hv, rfl⟩ := List.mem_map.1 hid
    obtain ⟨e, he, hview⟩ := List.mem_filterMap.1 hv
    exact List.mem_map.2
      ⟨_, List.mem_filterMap.2 ⟨e, he, Element.view?_of_some hmore hview⟩, rfl⟩
  refine ⟨hsubset, fun hempty => ?_, fun hnodup => ?_⟩
  · have hnone : firstOfEachId (es.filterMap (·.view? o')) = [] := List.isEmpty_iff.1 hempty
    rw [hnone] at hsubset
    exact List.isEmpty_iff.2 (List.map_eq_nil_iff.1 (List.subset_nil.1 hsubset))
  · have hoffered := map_view?_filter (p := fun e => decide e.IsOffered)
      (fun e => Bool.eq_iff_iff.2 ((Element.view?_of_defaultInclude ho').trans
        decide_eq_true_iff.symm)) es
    have hasking := map_view?_filter (p := fun e => decide e.OptsIn && decide e.IsOffered)
      (fun e => Bool.eq_iff_iff.2 ((Element.view?_of_not_defaultInclude ho).trans
        (by simp [and_comm]))) es
    rw [← List.filter_filter] at hasking
    have hviews := map_some_firstOfEachId hasking (hnodup.sublist (List.filter_sublist.map _))
    refine ⟨map_some_firstOfEachId hoffered hnodup, hviews, fun hpackage => ?_⟩
    rw [← hviews]
    refine List.map_congr_left fun e he => ?_
    have hview : e.view? o ∈ (firstOfEachId (es.filterMap (·.view? o))).map some :=
      hviews ▸ List.mem_map_of_mem he
    obtain ⟨v, -, hv⟩ := List.mem_map.1 hview
    rw [Element.view?_of_samePackage hpackage hmore hv.symm, hv]

/-! #### Two readings -/

/-- **Two readings of one text**, whatever their options, fail with the fault of the text or, if
there is none, succeed both.  Then another package alone changes the types of widgets only, and
asking elements to opt in leaves out those that do not. -/
theorem read_options (name source : String) (o o' : ReadingOptions) :
    (∃ fault, (readDocument source).layoutFault? = some fault ∧
      Layout.read o name source = .error fault ∧ Layout.read o' name source = .error fault) ∨
    (readDocument source).layoutFault? = none ∧
    ∃ l l', Layout.read o name source = .ok l ∧ Layout.read o' name source = .ok l' ∧
      (o.defaultInclude = o'.defaultInclude →
        Retyped (readDocument source).elements o o' l l') ∧
      (o.defaultInclude = false → o'.defaultInclude = true →
        Narrowed (readDocument source).elements o o' l l') := by
  rw [read_eq o, read_eq o']
  cases (readDocument source).layoutFault? with
  | some fault => exact .inl ⟨fault, rfl, rfl, rfl⟩
  | none =>
    exact .inr ⟨rfl, _, _, rfl, rfl, fun h => retyped h name _,
      fun ho ho' => narrowed ho ho' name _⟩

/-- Elements of which two have one id and the second of them opts in. -/
def repeatedTitle : List Element :=
  let element (name id mark value : String) : Element := ⟨name.toList,
    [⟨some frameworkNamespace.toList, "id".toList, id.toList⟩,
      ⟨some applicationNamespace.toList, mark.toList, value.toList⟩], none, 0⟩
  [element "TextView" "@+id/title" "holdr_ignore" "false",
    element "x.Chart" "@+id/chart" "holdr_include" "true",
    element "ImageView" "@+id/title" "holdr_field_name" "icon"]

-- With a repeated id another element may become its view, and the ids change places.
example : firstOfEachId (repeatedTitle.filterMap (·.view? {})) =
      [⟨"android.widget.TextView", "title", false, none⟩, ⟨"x.Chart", "chart", false, none⟩] ∧
    firstOfEachId (repeatedTitle.filterMap (·.view? ⟨false, defaultWidgetPackage⟩)) =
      [⟨"x.Chart", "chart", false, none⟩,
        ⟨"android.widget.ImageView", "title", false, some "icon"⟩] := by
  decide +kernel

end Layout

end ViewHolder
