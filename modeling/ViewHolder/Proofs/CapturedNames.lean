import ViewHolder.Proofs.SourceText

/-!
# Names that capture qualified names

A holder names the resources of its application by their qualified names.  These stand in the
scope of the constant, the fields and the parameter of the holder, and one of them that is called
like the first part of a qualified name captures it: the name no longer leads to the resource.
Which names are captured depends on the first part of the package alone and on the names that the
views ask for.

## Main definitions

* `Holder.headName` : the name with which a qualified name begins.
* `Holder.usedNames`, `Holder.scopeNames` : the qualified names that some lines use, and the names
  in whose scope they stand.
* `Holder.resourceNames` : the qualified names of the resources of a layout.

## Main results

* `Holder.usedNames_sourceLines`, `Holder.scopeNames_sourceLines` : what the lines of a holder use
  and declare.
* `Holder.notCaptured_iff` : when no name of a holder captures one of its resources.
-/

namespace ViewHolder.Holder

/-! ### Qualified names -/

/-- The name with which a qualified name begins. -/
def headName (name : String) : String := String.ofList (name.toList.takeWhile (· != '.'))

theorem headName_append_dot {tail : String} (h : tail.toList.head? = some '.') (name : String) :
    headName (name ++ tail) = headName name := by
  obtain ⟨rest, hrest⟩ : ∃ rest, tail.toList = '.' :: rest := List.head?_eq_some_iff.1 h
  have hcut (cs : List Char) :
      (cs ++ '.' :: rest).takeWhile (· != '.') = cs.takeWhile (· != '.') := by
    induction cs with
    | nil => rfl
    | cons c cs ih => rw [List.cons_append, List.takeWhile_cons, List.takeWhile_cons, ih]
  rw [headName, headName, String.toList_append, hrest, hcut]

/-- The qualified names of the resources that the holder of a layout names: the layout, and the
ids of its views. -/
def resourceNames (base : String) (l : Layout) : List String :=
  (base ++ ".R.layout." ++ l.name) :: l.views.map (idReference base)

theorem headName_layoutName (base name : String) :
    headName (base ++ ".R.layout." ++ name) = headName base := by
  rw [String.append_assoc]
  exact headName_append_dot (by simp) base

theorem headName_idReference (base : String) (v : View) :
    headName (idReference base v) = if v.isFramework then "android" else headName base := by
  rw [idReference, String.append_assoc, headName_append_dot (by simp)]
  split
  · decide +kernel
  · rfl

/-! ### The names that lines use and declare -/

/-- The qualified name that a clause uses. -/
def Clause.used? : Clause → Option String
  | constant _ value => some value
  | assignment _ _ reference => some reference
  | _ => none

/-- The qualified names that some lines use. -/
def usedNames (lines : List String) : List String :=
  (lines.filterMap fun line => clause? line.toList).filterMap Clause.used?

/-- Read the parameter off the line at which the constructor begins.  Its name is the last
word. -/
def parameter? (line : List Char) : Option String :=
  (between? "    public " ") \x7b" line).bind fun text =>
  (text.reverse.dropInfix? " ".toList).map fun cut => String.ofList cut.1.reverse

/-- The names in whose scope the qualified names of some lines stand: their constants and fields,
and the parameter of the constructor. -/
def scopeNames (lines : List String) : List String :=
  declaredNames lines ++ lines.filterMap fun line => parameter? line.toList

theorem parameter?_constructorLine (name : String) :
    parameter? ("    public " ++ name ++ "(android.view.View view) \x7b").toList =
      some "view" := by
  have hline : ("    public " ++ name ++ "(android.view.View view) \x7b").toList =
      "    public ".toList ++ (((name ++ "(android.view.View").toList ++
        (" ".toList ++ "view".toList)) ++ ") \x7b".toList) := by
    simp
  have hword : ' ' ∉ "view".toList := by simp
  simp only [parameter?, between?_eq_some.2 hline, dropInfix?_reverse hword, Option.bind_some,
    Option.map_some, List.reverse_reverse, String.ofList_toList]

/-- A line that ends unlike the beginning of the constructor has no parameter. -/
theorem parameter?_of_back {line bs rest : List Char} (hline : line = rest ++ bs)
    (h : ¬ (") \x7b".toList <:+ bs ∨ bs <:+ ") \x7b".toList)) : parameter? line = none := by
  rw [parameter?, between?_of_back hline h, Option.bind_none]

theorem parameter?_declarationLine (field : String × View) :
    parameter? (declarationLine field).toList = none := by
  unfold declarationLine
  exact parameter?_of_back String.toList_append (by decide)

theorem parameter?_assignmentLine (base : String) (field : String × View) :
    parameter? (assignmentLine base field).toList = none := by
  unfold assignmentLine
  exact parameter?_of_back String.toList_append (by decide)

/-- Only the line at which the constructor begins has a parameter, whatever the texts of the
layout are. -/
theorem parameters_sourceLines (base : String) (l : Layout) :
    (sourceLines base l).filterMap (fun line => parameter? line.toList) = ["view"] := by
  have hstatement (text : String) : parameter? (text ++ ";").toList = none :=
    parameter?_of_back String.toList_append (by decide)
  have hcomment : parameter? ("// Generated by holdr from layout \"" ++ l.name ++
      "\". Do not edit.").toList = none :=
    parameter?_of_back String.toList_append (by decide)
  have hclass :
      parameter? ("public final class " ++ className l.name ++ " \x7b").toList = none := by
    have hfront : between? "    public " ") \x7b"
        ("public final class " ++ className l.name ++ " \x7b").toList = none :=
      between?_of_front (by rw [String.append_assoc, String.toList_append]) (by decide)
    rw [parameter?, hfront, Option.bind_none]
  have hdeclarations : ((fields l).map declarationLine).filterMap
      (fun line => parameter? line.toList) = [] :=
    List.filterMap_eq_nil_iff.2 <| List.forall_mem_map.2 fun field _ =>
      parameter?_declarationLine field
  have hassignments : ((fields l).map (assignmentLine base)).filterMap
      (fun line => parameter? line.toList) = [] :=
    List.filterMap_eq_nil_iff.2 <| List.forall_mem_map.2 fun field _ =>
      parameter?_assignmentLine base field
  have hgap : (if l.views.isEmpty then [] else [""]).filterMap
      (fun line => parameter? line.toList) = [] := by
    split <;> decide +kernel
  have hblank : parameter? "".toList = none := by decide +kernel
  have hclose : parameter? "    \x7d".toList = none := by decide +kernel
  have hclose' : parameter? "\x7d".toList = none := by decide +kernel
  unfold sourceLines
  simp only [List.filterMap_append, hdeclarations, hassignments, hgap, List.filterMap_cons,
    List.filterMap_nil, hblank, hclose, hclose', hcomment, hclass, hstatement,
    parameter?_constructorLine, List.append_nil, List.nil_append]

/-- The names in whose scope a holder names its resources: its constant, its fields and `view`. -/
theorem scopeNames_sourceLines (base : String) (l : Layout) :
    scopeNames (sourceLines base l) = "LAYOUT" :: accessorNames l.views ++ ["view"] := by
  rw [scopeNames, declaredNames_sourceLines, parameters_sourceLines]

/-- The qualified names that the lines of a holder use are those of its resources, unless the type
of a view has a parenthesis and so cannot be told from the rest of its line. -/
theorem usedNames_sourceLines (base : String) {l : Layout}
    (h : ∀ v ∈ l.views, ')' ∉ v.type.toList) :
    usedNames (sourceLines base l) = resourceNames base l := by
  have hfields : ((fields l).map fun field => Clause.field field.2.type field.1).filterMap
      Clause.used? = [] := by
    rw [List.filterMap_map, List.filterMap_eq_nil_iff]
    exact fun _ _ => rfl
  have hassignments : ((fields l).filterMap fun field =>
      assignmentLine? (assignmentLine base field).toList).filterMap Clause.used? =
        l.views.map (idReference base) := by
    rw [List.filterMap_filterMap, ← map_snd_fields l, List.map_map, ← List.filterMap_eq_map]
    refine List.filterMap_congr fun field hfield => ?_
    rw [assignmentLine?_assignmentLine base ((isIdentifier_field hfield).notMem (by decide))
      (h _ (List.of_mem_zip hfield).2)]
    rfl
  simp only [usedNames, clauses_sourceLines, List.filterMap_cons, Clause.used?,
    List.filterMap_append, hfields, hassignments, List.nil_append]
  rfl

/-! ### Captured names -/

/-- **When no name of a holder captures one of its resources.**  The resources stand in the scope
of the constant, the fields and the parameter of the constructor.  None of these is called like the
first part of a name of a resource exactly if the package begins otherwise, and no view asks for
`android` where an id of the framework is named. -/
theorem notCaptured_iff (base : String) (l : Layout) :
    scopeNames (sourceLines base l) = "LAYOUT" :: accessorNames l.views ++ ["view"] ∧
      ((∀ v ∈ l.views, ')' ∉ v.type.toList) →
        usedNames (sourceLines base l) = resourceNames base l) ∧
      ((∀ name ∈ resourceNames base l, headName name ∉ scopeNames (sourceLines base l)) ↔
        headName base ∉ "LAYOUT" :: accessorNames l.views ++ ["view"] ∧
          ∀ v ∈ l.views, v.isFramework = true →
            ∀ w ∈ l.views, accessorName w ≠ "android") := by
  have hscope := scopeNames_sourceLines base l
  have handroid : "android" ∈ "LAYOUT" :: accessorNames l.views ++ ["view"] ↔
      ∃ w ∈ l.views, accessorName w = "android" := by
    rw [← mem_accessorNames_iff (numbered_ne (by simp))]
    simp
  refine ⟨hscope, usedNames_sourceLines base, ?_⟩
  rw [hscope, resourceNames, List.forall_mem_cons, List.forall_mem_map, headName_layoutName]
  refine and_congr_right fun hbase => forall₂_congr fun v _ => ?_
  rw [headName_idReference]
  cases v.isFramework with
  | false => simpa using hbase
  | true =>
    rw [if_pos rfl, handroid, not_exists]
    exact ⟨fun h _ w hw hname => h w ⟨hw, hname⟩, fun h w hw => h rfl w hw.1 hw.2⟩

/-- The views of a chart capture nothing: the ids of the application and the one of the framework
lead to their resources. -/
theorem notCaptured_chartLayout :
    (∀ v ∈ (chartLayout none).views, ')' ∉ v.type.toList) ∧
      usedNames (sourceLines "com.example.app" (chartLayout none)) =
        ["com.example.app.R.layout.activity_main", "com.example.app.R.id.title",
          "android.R.id.list", "com.example.app.R.id.sales_chart"] ∧
      ∀ name ∈ resourceNames "com.example.app" (chartLayout none),
        headName name ∉ scopeNames (sourceLines "com.example.app" (chartLayout none)) := by
  have htypes : ∀ v ∈ (chartLayout none).views, ')' ∉ v.type.toList := by decide +kernel
  obtain ⟨-, hused, hcaptured⟩ := notCaptured_iff "com.example.app" (chartLayout none)
  exact ⟨htypes, (hused htypes).trans (by decide +kernel),
    hcaptured.2 ⟨by decide +kernel, by decide +kernel⟩⟩

/-- A layout with a view whose id is the first part of the package. -/
def packageNamed : Layout := ⟨"main", [⟨"android.widget.Button", "com", false, none⟩]⟩

/-- The holder of a layout that can be read has a field that captures its resources. -/
theorem source_captures :
    Layout.read {} "main" ("<Button xmlns:a=\"http://schemas.android.com/apk/res/android\" " ++
        "a:id=\"@+id/com\"/>") = .ok packageNamed ∧
      usedNames (sourceLines "com.example" packageNamed) =
        ["com.example.R.layout.main", "com.example.R.id.com"] ∧
      ¬ ∀ name ∈ usedNames (sourceLines "com.example" packageNamed),
        headName name ∉ scopeNames (sourceLines "com.example" packageNamed) := by
  have hused : usedNames (sourceLines "com.example" packageNamed) =
      ["com.example.R.layout.main", "com.example.R.id.com"] :=
    (usedNames_sourceLines _ (by decide +kernel)).trans (by decide +kernel)
  refine ⟨by decide +kernel, hused, ?_⟩
  rw [hused, scopeNames_sourceLines]
  decide +kernel

end ViewHolder.Holder
