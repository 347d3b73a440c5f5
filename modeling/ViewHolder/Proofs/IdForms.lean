import ViewHolder.Proofs.HolderClauses
import ViewHolder.Proofs.ReadElements

/-!
# The forms of an id

An id is written `@[+][android:]id/name`: the `+` declares the id, and `android:` refers to the
framework.  Every such id is read, whatever its name is, and its view has that name.  It is taken
for an id of the framework if `android:` stands right behind the `@`: an id that is declared is one
of the application.

## Main definitions

* `IdForm`, `IdForm.spelling` : the forms of an id and how they are written.
* `IdForm.isFramework` : whether an id of some form is one of the framework.

## Main results

* `localId_spelling`, `isPrefixOf_spelling` : what is read off a written id.
* `Layout.read_idForm` : an element with an id of some form, and its line in the holder.
-/

namespace ViewHolder

open Markup

/-- A form of an id. -/
structure IdForm where
  /-- Whether the id is declared, by a `+`. -/
  declares : Bool
  /-- Whether `android:` is written. -/
  framework : Bool
  /-- The name. -/
  name : String
  deriving DecidableEq, Repr

namespace IdForm

variable (f : IdForm)

/-- What is written in front of the slash. -/
def lead : String :=
  "@" ++ (if f.declares then "+" else "") ++ (if f.framework then "android:" else "") ++ "id"

/-- The id as it is written. -/
def spelling : String := f.lead ++ "/" ++ f.name

/-- Whether an id of this form is one of the framework: it refers to it and is not declared. -/
def isFramework : Bool := f.framework && !f.declares

theorem toList_spelling : f.spelling.toList = f.lead.toList ++ '/' :: f.name.toList := by
  rw [spelling, String.toList_append, String.toList_append, List.append_assoc]
  simp

/-- There is no slash in front of the slash, so that the whole name is read, even one with
slashes. -/
theorem slash_notMem_lead : '/' ∉ f.lead.toList := by
  obtain ⟨declares, framework, name⟩ := f
  cases declares <;> cases framework <;> simp [lead]

/-- The name of an id is read off it. -/
theorem localId_spelling : localId f.spelling = f.name := by
  have hslash : '/' ∈ f.spelling.toList := by
    rw [toList_spelling]
    exact List.mem_append_right _ List.mem_cons_self
  rw [localId, if_pos hslash, toList_spelling, List.idxOf_append_of_notMem f.slash_notMem_lead,
    List.idxOf_cons_self, Nat.add_zero, List.drop_length_add_append, List.drop_one, List.tail_cons,
    String.ofList_toList]

/-- An id begins like one of the framework if it refers to it and is not declared. -/
theorem isPrefixOf_spelling :
    "@android".toList.isPrefixOf f.spelling.toList = f.isFramework := by
  rw [toList_spelling]
  obtain ⟨declares, framework, name⟩ := f
  cases declares <;> cases framework <;> simp [lead, isFramework, List.isPrefixOf]

end IdForm

theorem Markup.Document.layoutFault?_of_mem {d : Document} (h : d.layoutFault? = none)
    {e : Element} (he : e ∈ d.elements) : e.layoutFault? = none :=
  List.findSome?_eq_none_iff.1 (Option.or_eq_none_iff.1 h).1 e he

namespace Holder

/-- The field of a view and the line that assigns it. -/
theorem exists_field {l : Layout} {v : View} (hv : v ∈ l.views) (base : String) :
    ∃ field ∈ fields l, field.2 = v ∧ assignmentLine base field ∈ sourceLines base l := by
  rw [← map_snd_fields l] at hv
  obtain ⟨field, hfield, rfl⟩ := List.mem_map.1 hv
  refine ⟨field, hfield, rfl, ?_⟩
  rw [sourceLines]
  exact List.mem_append_left _ (List.mem_append_right _ (List.mem_map_of_mem hfield))

/-- A view refers to an id of the framework if it is read as such, unless the application has the
package of the framework. -/
theorem idReference_eq_android_iff {base : String} (hbase : base ≠ "android") (v : View) :
    idReference base v = "android.R.id." ++ v.id ↔ v.isFramework = true := by
  have hpart (owner : String) :
      owner ++ ".R.id." ++ v.id = "android.R.id." ++ v.id ↔ owner = "android" := by
    have hsplit : "android.R.id." = "android" ++ ".R.id." := by simp
    rw [hsplit, String.append_left_inj, String.append_left_inj]
  rw [idReference, hpart]
  cases v.isFramework <;> simp [hbase]

end Holder

namespace Layout

variable {opts : ReadingOptions} (name : String) {source : String} {before after : List Element}
  {e : Element} {f : IdForm}

/-- The view of an element is found by its id unless an earlier element has a view with that id. -/
theorem find?_of_first {v : View} (hv : e.view? opts = some v)
    (hfirst : ∀ e' ∈ before, ∀ w, e'.view? opts = some w → w.id ≠ v.id) (after : List Element) :
    find? ⟨name, firstOfEachId ((before ++ e :: after).filterMap (·.view? opts))⟩ v.id = some v := by
  have hbefore : (before.filterMap (·.view? opts)).find? (·.id == v.id) = none :=
    List.find?_eq_none.2 fun w hw hid => by
      obtain ⟨e', he', hview⟩ := List.mem_filterMap.1 hw
      exact hfirst e' he' w hview (beq_iff_eq.1 hid)
  rw [find?, find?_firstOfEachId, List.filterMap_append, List.find?_append, hbefore,
    Option.none_or, List.filterMap_cons_some (f := fun e : Element => e.view? opts) hv]
  exact List.find?_cons_of_pos (beq_self_eq_true v.id)

/-- **Reading an id.**  Where nothing is wrong with a text, every element that is taken and has an
id of some form is a view with the name in it, and the first of that name is the view of its
accessor.  It is one of the framework exactly if it refers to the framework without being declared,
and the line that assigns its field looks up that id. -/
theorem read_idForm (hsound : (readDocument source).layoutFault? = none)
    (helements : (readDocument source).elements = before ++ e :: after)
    (htaken : IsTaken opts e.said) (hid : markedValue? e.said .id = some f.spelling) :
    ∃ l v, Layout.read opts name source = .ok l ∧ viewOf opts e = .ok (some v) ∧ v.id = f.name ∧
      (v.isFramework = true ↔ f.framework = true ∧ f.declares = false) ∧ f.name ∈ l.ids ∧
      (∀ base, Holder.idReference base v =
        (if f.framework && !f.declares then "android" else base) ++ ".R.id." ++ f.name) ∧
      (∀ base, base ≠ "android" → (Holder.idReference base v = "android.R.id." ++ f.name ↔
        f.framework = true ∧ f.declares = false)) ∧
      ((∀ e' ∈ before, ∀ w, viewOf opts e' = .ok (some w) → w.id ≠ f.name) →
        l.find? f.name = some v ∧ ∀ base, ∃ field ∈ Holder.fields l, field.2 = v ∧
          Holder.assignmentLine base field ∈ Holder.sourceLines base l) := by
  have hview : e.view? opts = some
      ⟨tagType opts e.localTag, f.name, f.isFramework, markedValue? e.said .accessor⟩ := by
    rw [Element.view?, elementView?, hid, Option.bind_some, if_pos htaken, f.localId_spelling,
      f.isPrefixOf_spelling]
  have hviewOf {e' : Element} (he' : e' ∈ before ++ e :: after) :
      viewOf opts e' = .ok (e'.view? opts) := by
    rw [viewOf_eq, Document.layoutFault?_of_mem hsound (helements ▸ he')]
    rfl
  have hframework : f.isFramework = true ↔ f.framework = true ∧ f.declares = false := by
    simp [IdForm.isFramework]
  refine ⟨_, _, read_eq_ok hsound, (hviewOf (by simp)).trans (congrArg _ hview), rfl, hframework,
    ?_, fun _ => rfl, fun base hbase => (Holder.idReference_eq_android_iff hbase _).trans hframework,
    fun hfirst => ?_⟩
  · rw [helements]
    exact mem_ids_firstOfEachId.2 (List.mem_map.2
      ⟨_, List.mem_filterMap.2 ⟨e, by simp, hview⟩, rfl⟩)
  · have hfound := find?_of_first name hview (fun e' he' w hw =>
      hfirst e' he' w ((hviewOf (List.mem_append_left _ he')).trans (congrArg _ hw))) after
    rw [← helements] at hfound
    exact ⟨hfound, Holder.exists_field (List.mem_of_find?_eq_some hfound)⟩

/-- A layout with one element that has an id. -/
def listText (id : String) : String :=
  "<ListView xmlns:a='http://schemas.android.com/apk/res/android' a:id='" ++ id ++ "'/>"

/-- The element of that layout, and where it ends. -/
def listElement (id : String) (stop : Nat) : Element :=
  ⟨"ListView".toList, [⟨none, "a".toList, frameworkNamespace.toList⟩,
    ⟨some frameworkNamespace.toList, "id".toList, id.toList⟩], none, stop⟩

theorem read_idForm_frameworkList :
    (IdForm.mk false true "list").spelling = "@android:id/list" ∧
      ∃ l v, Layout.read {} "main" (listText "@android:id/list") = .ok l ∧
        l.find? "list" = some v ∧ v.isFramework = true ∧
        Holder.idReference "com.example" v = "android.R.id.list" := by
  have hsound : (readDocument (listText "@android:id/list")).layoutFault? = none := by
    decide +kernel
  have helements : (readDocument (listText "@android:id/list")).elements =
      [] ++ listElement "@android:id/list" 88 :: [] := by decide +kernel
  have htaken : IsTaken {} (listElement "@android:id/list" 88).said := by decide +kernel
  have hid : markedValue? (listElement "@android:id/list" 88).said .id =
      some (IdForm.mk false true "list").spelling := by decide +kernel
  obtain ⟨l, v, hread, -, -, hframework, -, -, hreference, hfirst⟩ :=
    read_idForm "main" hsound helements htaken hid
  exact ⟨by decide +kernel, l, v, hread, (hfirst nofun).1, hframework.2 ⟨rfl, rfl⟩,
    (hreference "com.example" (by decide)).2 ⟨rfl, rfl⟩⟩

/-- An id of the framework that is declared is read as one of the application, and an application
with the package of the framework refers to its own ids as if they were those. -/
theorem read_declared_framework_id :
    (IdForm.mk true true "list").spelling = "@+android:id/list" ∧
      (readDocument (listText "@+android:id/list")).layoutFault? = none ∧
      Layout.read {} "main" (listText "@+android:id/list") =
        .ok ⟨"main", [⟨"android.widget.ListView", "list", false, none⟩]⟩ ∧
      Holder.idReference "com.example" ⟨"android.widget.ListView", "list", false, none⟩ ≠
        "android.R.id.list" ∧
      Holder.idReference "android" ⟨"android.widget.ListView", "list", false, none⟩ =
        "android.R.id.list" :=
  ⟨by decide +kernel, by decide +kernel, by decide +kernel, by decide +kernel, by decide +kernel⟩

end Layout

end ViewHolder
