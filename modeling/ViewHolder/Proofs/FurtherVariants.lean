import ViewHolder.Proofs.HolderClauses
import ViewHolder.Proofs.MergedViews

/-!
# Further variants of a layout

A variant that is merged into a layout puts its new views behind those that are there, and names
are given from the front.  So the holder of the merged layout has the accessors of the earlier one
with their names, types and ids, in the same order and before all others, whatever the further
variants ask for.

## Main definitions

* `Holder.declaredFields`, `Holder.assignedFields` : what some lines declare and assign.
* `Layout.IsExtendedBy` : a layout whose holder has the accessors of another one first.

## Main results

* `Layout.isExtendedBy_of_views` : it is enough that the views of the other layout come first.
* `Layout.foldl_merge` : the views of merged variants.
* `Layout.isExtendedBy_foldl_merge` : merging further variants keeps the accessors.
* `Catalog.isExtendedBy_of_append` : so do the further layouts of a run.
-/

namespace ViewHolder

namespace Holder

/-! ### Fields that some lines declare and assign -/

/-- The type and the name of a field that a clause declares. -/
def Clause.field? : Clause → Option (String × String)
  | field type name => some (type, name)
  | _ => none

/-- The name of a field that a clause assigns, with the type of the cast and the id that is looked
up. -/
def Clause.assignment? : Clause → Option (String × String × String)
  | assignment name type reference => some (name, type, reference)
  | _ => none

/-- The types and names of the fields that some lines declare. -/
def declaredFields (lines : List String) : List (String × String) :=
  (lines.filterMap fun line => clause? line.toList).filterMap Clause.field?

/-- The fields that some lines assign. -/
def assignedFields (lines : List String) : List (String × String × String) :=
  (lines.filterMap fun line => clause? line.toList).filterMap Clause.assignment?

/-- A line that is read as an assignment declares no field. -/
theorem field?_assignmentLine (line : List Char) :
    (assignmentLine? line).bind Clause.field? = none :=
  bind_assignmentLine? (fun _ _ _ => rfl) line

/-- A holder declares a field for each view. -/
theorem declaredFields_sourceLines (base : String) (l : Layout) :
    declaredFields (sourceLines base l) = (fields l).map fun field => (field.2.type, field.1) := by
  have hfields : ((fields l).map fun field => Clause.field field.2.type field.1).filterMap
      Clause.field? = (fields l).map fun field => (field.2.type, field.1) := by
    rw [List.filterMap_map, ← List.filterMap_eq_map]
    rfl
  have hassignments : ((fields l).filterMap fun field =>
      assignmentLine? (assignmentLine base field).toList).filterMap Clause.field? = [] := by
    simp only [List.filterMap_filterMap, field?_assignmentLine, List.filterMap_none]
  simp only [declaredFields, clauses_sourceLines, List.filterMap_cons, Clause.field?,
    List.filterMap_append]
  rw [hfields, hassignments, List.append_nil]

/-- What a holder assigns is what the lines of its fields say. -/
theorem assignedFields_sourceLines (base : String) (l : Layout) :
    assignedFields (sourceLines base l) = (fields l).filterMap fun field =>
      (assignmentLine? (assignmentLine base field).toList).bind Clause.assignment? := by
  have hfields : ((fields l).map fun field => Clause.field field.2.type field.1).filterMap
      Clause.assignment? = [] := by
    rw [List.filterMap_map]
    exact List.filterMap_eq_nil_iff.2 fun _ _ => rfl
  simp only [assignedFields, clauses_sourceLines, List.filterMap_cons, Clause.assignment?,
    List.filterMap_append]
  rw [hfields, List.nil_append, List.filterMap_filterMap]

/-! ### Views that come first -/

section

variable {l l' : Layout} (h : l.views <+: l'.views)
include h

/-- Views that come first keep the names of their fields. -/
theorem prefix_accessorNames : accessorNames l.views <+: accessorNames l'.views := by
  obtain ⟨rest, hviews⟩ := h
  rw [← hviews, accessorNames_append]
  exact List.prefix_append _ _

theorem prefix_fields : fields l <+: fields l' := by
  obtain ⟨rest, hviews⟩ := h
  rw [fields, fields, ← hviews, accessorNames_append,
    List.zip_append (length_accessorNames l.views)]
  exact List.prefix_append _ _

/-- The lines of a holder stay when further views get theirs. -/
theorem sourceLines_sublist (hname : l'.name = l.name) (base : String) :
    (sourceLines base l).Sublist (sourceLines base l') := by
  have hgap : (if l.views.isEmpty then [] else [""]).Sublist
      (if l'.views.isEmpty then [] else [""]) := by
    cases hviews : l.views with
    | nil => exact List.nil_sublist _
    | cons v vs =>
      have hne : l'.views.isEmpty = false := by
        obtain ⟨rest, hrest⟩ := h
        rw [← hrest, hviews]
        rfl
      rw [hne]
      exact .refl _
  have hfields := (prefix_fields h).sublist
  rw [sourceLines, sourceLines, hname]
  exact (((((List.Sublist.refl _).append (hfields.map _)).append hgap).append (.refl _)).append
    (hfields.map _)).append (.refl _)

end

end Holder

namespace Layout

/-- The second layout has the views of the first one first, and its holder has the accessors of the
first one before all others. -/
structure IsExtendedBy (l l' : Layout) : Prop where
  /-- The layouts have one name. -/
  name : l'.name = l.name
  /-- The views are there, in the same order. -/
  views : l.views <+: l'.views
  /-- The names of the fields are kept. -/
  accessorNames : Holder.accessorNames l.views <+: Holder.accessorNames l'.views
  /-- No field gets the name of another one. -/
  nodup : (Holder.accessorNames l'.views).Nodup
  /-- The fields are there with their names and views. -/
  fields : Holder.fields l <+: Holder.fields l'
  /-- The lines of the holder are kept, in the same order. -/
  sourceLines (base : String) : (Holder.sourceLines base l).Sublist (Holder.sourceLines base l')
  /-- The fields are declared with the same types and names, before all others. -/
  declaredFields (base : String) : Holder.declaredFields (Holder.sourceLines base l) <+:
    Holder.declaredFields (Holder.sourceLines base l')
  /-- The fields are assigned from the same ids, before all others. -/
  assignedFields (base : String) : Holder.assignedFields (Holder.sourceLines base l) <+:
    Holder.assignedFields (Holder.sourceLines base l')

/-- **A layout whose views come first** keeps its accessors. -/
theorem isExtendedBy_of_views {l l' : Layout} (hname : l'.name = l.name)
    (h : l.views <+: l'.views) : l.IsExtendedBy l' where
  name := hname
  views := h
  accessorNames := Holder.prefix_accessorNames h
  nodup := Holder.accessorNames_nodup _
  fields := Holder.prefix_fields h
  sourceLines := Holder.sourceLines_sublist h hname
  declaredFields base := by
    rw [Holder.declaredFields_sourceLines, Holder.declaredFields_sourceLines]
    exact (Holder.prefix_fields h).map _
  assignedFields base := by
    rw [Holder.assignedFields_sourceLines, Holder.assignedFields_sourceLines]
    exact (Holder.prefix_fields h).filterMap _

/-! ### Merging -/

/-- **Merging further variants in order** puts the first view of each new id behind the views that
are there. -/
theorem foldl_merge (l : Layout) (others : List Layout) :
    others.foldl merge l = { l with views := l.views ++
      (firstOfEachId (others.flatMap (·.views))).filter (·.id ∉ l.views.map (·.id)) } := by
  have hviews : others.foldl merge l = (others.flatMap (·.views)).foldl push l := by
    rw [List.foldl_flatMap]
    rfl
  rw [hviews, foldl_push]

theorem isExtendedBy_foldl (l : Layout) (others : List Layout) :
    l.IsExtendedBy (others.foldl merge l) := by
  rw [foldl_merge]
  exact isExtendedBy_of_views rfl (List.prefix_append _ _)

/-- **Further variants keep the accessors of a layout**, whatever their views are and whatever
names these ask for; the first views of their new ids follow. -/
theorem isExtendedBy_foldl_merge (l : Layout) (others : List Layout) :
    l.IsExtendedBy (others.foldl merge l) ∧
      (others.foldl merge l).views = l.views ++
        (firstOfEachId (others.flatMap (·.views))).filter (·.id ∉ l.ids) :=
  ⟨isExtendedBy_foldl l others, by rw [foldl_merge]; rfl⟩

end Layout

/-- A layout with a view, and a variant of it whose view asks for the name that is taken. -/
def contestedTitle : Layout × Layout :=
  (⟨"main", [⟨"android.widget.TextView", "title", false, none⟩]⟩,
    ⟨"main", [⟨"android.widget.Button", "heading", false, some "title"⟩]⟩)

-- The view that was there first keeps the name.
example : Holder.declaredFields (Holder.sourceLines "com.example"
    ([contestedTitle.2].foldl Layout.merge contestedTitle.1)) =
      [("android.widget.TextView", "title"), ("android.widget.Button", "title2")] := by
  rw [Holder.declaredFields_sourceLines]
  decide +kernel

/-- **Further layouts of a run** keep the accessors of the layouts of a catalog. -/
theorem Catalog.isExtendedBy_of_append {ls : List Layout} {n : String} {l : Layout}
    (h : (ofList ls).find? n = some l) (others : List Layout) :
    ∃ l', (ofList (ls ++ others)).find? n = some l' ∧ l.IsExtendedBy l' := by
  rw [find?_ofList] at h ⊢
  rw [List.filter_append]
  cases hvariants : ls.filter (·.name == n) with
  | nil =>
    rw [hvariants] at h
    cases h
  | cons first rest =>
    rw [hvariants] at h
    obtain rfl := Option.some.inj h
    rw [List.cons_append]
    refine ⟨_, rfl, ?_⟩
    rw [List.foldl_append]
    exact Layout.isExtendedBy_foldl _ _

end ViewHolder
