import Mathlib.Data.List.Infix
import ViewHolder.Holder.Source
import ViewHolder.Layout.Reader
import ViewHolder.Proofs.AccessorNames

/-!
# What the lines of a holder state

A line of a holder begins and ends with fixed texts, and what stands between them says which class,
constant or field it declares or which field it assigns.  The names that a holder declares are the
name of its constant and the accessor names of its views, whatever else the lines hold.

## Main definitions

* `Holder.Clause`, `Holder.clause?` : what a line of a holder states.
* `Holder.declaredNames` : the names of the constants and fields that some lines declare.

## Main results

* `Holder.clause?_declarationLine`, `Holder.clause?_assignmentLine` : reading the lines of a field.
* `Holder.clauses_sourceLines` : what the lines of a holder state, in order.
* `Holder.declaredNames_nodup_iff` : when the names that a holder declares are different.
-/

namespace ViewHolder.Holder

/-! ### Reading a line -/

/-- What a line of a holder states. -/
inductive Clause where
  /-- The class of the holder begins. -/
  | holderClass (name : String)
  /-- The class has a constant. -/
  | constant (name value : String)
  /-- The class has a field. -/
  | field (type name : String)
  /-- The constructor looks a view up, casts it and assigns it to a field. -/
  | assignment (name type reference : String)
  deriving DecidableEq, Repr

/-- The name of the constant or field that a clause declares. -/
def Clause.declared? : Clause → Option String
  | constant name _ => some name
  | field _ name => some name
  | _ => none

/-- What stands between the texts that a line begins and ends with. -/
def between? (front back : String) (line : List Char) : Option (List Char) :=
  (line.dropPrefix? front.toList).bind (·.dropSuffix? back.toList)

/-- Read the line at which the class of a holder begins. -/
def classLine? (line : List Char) : Option Clause :=
  (between? "public final class " " \x7b" line).map fun name => .holderClass (String.ofList name)

/-- Read the line of a constant. -/
def constantLine? (line : List Char) : Option Clause :=
  (between? "    public static final int " ";" line).bind fun text =>
  (text.dropInfix? " = ".toList).map fun cut =>
    .constant (String.ofList cut.1) (String.ofList cut.2)

/-- Read the line of a field.  Its name is the last word. -/
def fieldLine? (line : List Char) : Option Clause :=
  (between? "    public final " ";" line).bind fun text =>
  (text.reverse.dropInfix? " ".toList).map fun cut =>
    .field (String.ofList cut.2.reverse) (String.ofList cut.1.reverse)

/-- Read the line that assigns a field. -/
def assignmentLine? (line : List Char) : Option Clause :=
  (between? "        this." ");" line).bind fun text =>
  (text.dropInfix? " = (".toList).bind fun cut =>
  (cut.2.dropInfix? ") view.findViewById(".toList).map fun cut' =>
    .assignment (String.ofList cut.1) (String.ofList cut'.1) (String.ofList cut'.2)

/-- What a line of a holder states, if anything. -/
def clause? (line : List Char) : Option Clause :=
  (classLine? line).or <| (constantLine? line).or <| (fieldLine? line).or (assignmentLine? line)

/-- The names of the constants and fields that some lines declare. -/
def declaredNames (lines : List String) : List String :=
  (lines.filterMap fun line => clause? line.toList).filterMap Clause.declared?

/-! ### Texts between others -/

section

variable {front back : String}

theorem between?_eq_some {line inner : List Char} :
    between? front back line = some inner ↔ line = front.toList ++ (inner ++ back.toList) := by
  simp only [between?, Option.bind_eq_some_iff, List.dropPrefix?_eq_some_iff,
    List.dropSuffix?_eq_some_iff, beq_iff_eq]
  constructor
  · rintro ⟨rest, ⟨_, rfl, rfl⟩, _, rfl, rfl⟩
    rfl
  · rintro rfl
    exact ⟨_, ⟨_, rfl, rfl⟩, _, rfl, rfl⟩

/-- A line that begins otherwise is not read. -/
theorem between?_of_front {line as rest : List Char} (hline : line = as ++ rest)
    (h : ¬ (front.toList <+: as ∨ as <+: front.toList)) : between? front back line = none := by
  refine Option.eq_none_iff_forall_ne_some.2 fun inner hinner => h ?_
  exact List.prefix_or_prefix_of_prefix
    (between?_eq_some.1 hinner ▸ List.prefix_append _ _) (hline ▸ List.prefix_append as rest)

/-- A line that ends otherwise is not read. -/
theorem between?_of_back {line bs rest : List Char} (hline : line = rest ++ bs)
    (h : ¬ (back.toList <:+ bs ∨ bs <:+ back.toList)) : between? front back line = none := by
  refine Option.eq_none_iff_forall_ne_some.2 fun inner hinner => h ?_
  have hinner := between?_eq_some.1 hinner
  rw [← List.append_assoc] at hinner
  exact List.suffix_or_suffix_of_suffix
    (hinner ▸ List.suffix_append _ _) (hline ▸ List.suffix_append rest bs)

end

/-- A text is cut at the first place of a separator if it begins with a character that does not
occur before. -/
theorem dropInfix?_append {c : Char} {sep as : List Char} (h : c ∉ as) (bs : List Char) :
    (as ++ (c :: sep ++ bs)).dropInfix? (c :: sep) = some (as, bs) := by
  refine List.dropInfix?_eq_some_iff.2 ⟨⟨c :: sep, by simp, beq_self_eq_true _⟩, ?_⟩
  intro front place back hcut hplace
  rw [beq_iff_eq] at hplace
  subst hplace
  by_contra hshort
  rw [List.append_assoc] at hcut
  rcases List.append_eq_append_iff.1 hcut with ⟨rest, rfl, -⟩ | ⟨rest, rfl, hrest⟩
  · simp at hshort
  · cases rest with
    | nil => simp at hshort
    | cons d rest =>
      obtain ⟨rfl, -⟩ := List.cons.inj hrest
      exact h (by simp)

/-- The last word of a text is cut off by reading the text backwards. -/
theorem dropInfix?_reverse {word : List Char} (h : ' ' ∉ word) (front : List Char) :
    (front ++ (" ".toList ++ word)).reverse.dropInfix? " ".toList =
      some (word.reverse, front.reverse) := by
  have hback : (front ++ (" ".toList ++ word)).reverse =
      word.reverse ++ (" ".toList ++ front.reverse) := by simp
  rw [hback]
  exact dropInfix?_append (mt List.mem_reverse.1 h) _

/-! ### The kinds of lines -/

theorem classLine?_eq {line : List Char} (name : String)
    (h : line = "public final class ".toList ++ (name.toList ++ " \x7b".toList)) :
    classLine? line = some (.holderClass name) := by
  simp only [classLine?, between?_eq_some.2 h, Option.map_some, String.ofList_toList]

theorem constantLine?_eq {line : List Char} {name : String} (hname : ' ' ∉ name.toList)
    (value : String) (h : line = "    public static final int ".toList ++
      (name.toList ++ (" = ".toList ++ value.toList) ++ ";".toList)) :
    constantLine? line = some (.constant name value) := by
  have hcut : (name.toList ++ (" = ".toList ++ value.toList)).dropInfix? " = ".toList =
      some (name.toList, value.toList) := dropInfix?_append hname value.toList
  simp only [constantLine?, between?_eq_some.2 h, hcut, Option.bind_some, Option.map_some,
    String.ofList_toList]

theorem fieldLine?_eq {line : List Char} {name : String} (hname : ' ' ∉ name.toList)
    (type : String) (h : line = "    public final ".toList ++
      (type.toList ++ (" ".toList ++ name.toList) ++ ";".toList)) :
    fieldLine? line = some (.field type name) := by
  simp only [fieldLine?, between?_eq_some.2 h, dropInfix?_reverse hname, Option.bind_some,
    Option.map_some, List.reverse_reverse, String.ofList_toList]

theorem assignmentLine?_eq {line : List Char} {name type : String} (hname : ' ' ∉ name.toList)
    (htype : ')' ∉ type.toList) (reference : String) (h : line = "        this.".toList ++
      (name.toList ++ (" = (".toList ++
        (type.toList ++ (") view.findViewById(".toList ++ reference.toList))) ++ ");".toList)) :
    assignmentLine? line = some (.assignment name type reference) := by
  have hcut (rest : List Char) : (name.toList ++ (" = (".toList ++ rest)).dropInfix?
      " = (".toList = some (name.toList, rest) := dropInfix?_append hname rest
  have hcut' : (type.toList ++ (") view.findViewById(".toList ++ reference.toList)).dropInfix?
      ") view.findViewById(".toList = some (type.toList, reference.toList) :=
    dropInfix?_append htype reference.toList
  simp only [assignmentLine?, between?_eq_some.2 h, hcut, hcut', Option.bind_some,
    Option.map_some, String.ofList_toList]

/-- A line that is read as an assignment has none of the other kinds of clauses. -/
theorem bind_assignmentLine? {α : Type} {g : Clause → Option α}
    (hg : ∀ name type reference, g (.assignment name type reference) = none) (line : List Char) :
    (assignmentLine? line).bind g = none := by
  refine Option.bind_eq_none_iff.2 fun clause hclause => ?_
  simp only [assignmentLine?, Option.bind_eq_some_iff, Option.map_eq_some_iff] at hclause
  obtain ⟨_, -, _, -, _, -, rfl⟩ := hclause
  exact hg _ _ _

/-- A line that is read as an assignment declares nothing. -/
theorem declared?_assignmentLine (line : List Char) :
    (assignmentLine? line).bind Clause.declared? = none :=
  bind_assignmentLine? (fun _ _ _ => rfl) line

/-! ### The lines of a holder -/

theorem clause?_classLine (name : String) :
    clause? ("public final class " ++ name ++ " \x7b").toList = some (.holderClass name) := by
  have hline : ("public final class " ++ name ++ " \x7b").toList =
      "public final class ".toList ++ (name.toList ++ " \x7b".toList) := by
    simp only [String.toList_append, List.append_assoc]
  rw [clause?, classLine?_eq name hline, Option.some_or]

theorem clause?_constantLine (base name : String) :
    clause? ("    public static final int LAYOUT = " ++ base ++ ".R.layout." ++ name ++ ";").toList =
      some (.constant "LAYOUT" (base ++ ".R.layout." ++ name)) := by
  generalize htext : ("    public static final int LAYOUT = " ++ base ++ ".R.layout." ++ name ++
    ";").toList = line
  have hstart : "    public static final int LAYOUT = ".toList =
      "    public static final int ".toList ++ ("LAYOUT".toList ++ " = ".toList) := by
    simp
  have hline : line = "    public static final int ".toList ++ ("LAYOUT".toList ++
      (" = ".toList ++ (base ++ ".R.layout." ++ name).toList) ++ ";".toList) := by
    simp only [← htext, String.toList_append, List.append_assoc, hstart]
  have hclass : between? "public final class " " \x7b" line = none :=
    between?_of_front hline (by simp)
  rw [clause?, classLine?, hclass, constantLine?_eq (by simp) _ hline, Option.map_none,
    Option.none_or, Option.some_or]

/-- The line that declares a field is read as the type and the name of the field, whatever the type
is. -/
theorem clause?_declarationLine {field : String × View} (hname : ' ' ∉ field.1.toList) :
    clause? (declarationLine field).toList = some (.field field.2.type field.1) := by
  have hline : (declarationLine field).toList = "    public final ".toList ++
      (field.2.type.toList ++ (" ".toList ++ field.1.toList) ++ ";".toList) := by
    unfold declarationLine
    simp only [String.toList_append, List.append_assoc]
  have hclass : between? "public final class " " \x7b" (declarationLine field).toList = none :=
    between?_of_front hline (by simp)
  have hconstant :
      between? "    public static final int " ";" (declarationLine field).toList = none :=
    between?_of_front hline (by simp)
  rw [clause?, classLine?, hclass, constantLine?, hconstant, fieldLine?_eq hname _ hline,
    Option.map_none, Option.bind_none, Option.none_or, Option.none_or, Option.some_or]

/-- The line that assigns a field is read as an assignment or not at all. -/
theorem clause?_assignmentLine (base : String) (field : String × View) :
    clause? (assignmentLine base field).toList =
      assignmentLine? (assignmentLine base field).toList := by
  generalize htext : (assignmentLine base field).toList = line
  obtain ⟨rest, hline⟩ : ∃ rest, line = "        this.".toList ++ rest := by
    rw [← htext]
    unfold assignmentLine
    simp only [String.toList_append, List.append_assoc]
    exact ⟨_, rfl⟩
  have hclass : between? "public final class " " \x7b" line = none :=
    between?_of_front hline (by simp)
  have hconstant : between? "    public static final int " ";" line = none :=
    between?_of_front hline (by simp)
  have hfield : between? "    public final " ";" line = none :=
    between?_of_front hline (by simp)
  simp only [clause?, classLine?, hclass, constantLine?, hconstant, fieldLine?, hfield,
    Option.map_none, Option.bind_none, Option.none_or]

/-- A line that is no clause by how it begins or how it ends states nothing. -/
theorem clause?_eq_none {line : List Char}
    (hclass : between? "public final class " " \x7b" line = none)
    (hconstant : between? "    public static final int " ";" line = none)
    (hfield : between? "    public final " ";" line = none)
    (hassignment : between? "        this." ");" line = none) : clause? line = none := by
  simp only [clause?, classLine?, hclass, constantLine?, hconstant, fieldLine?, hfield,
    assignmentLine?, hassignment, Option.map_none, Option.bind_none, Option.none_or]

/-- A line that begins unlike every clause states nothing. -/
theorem clause?_of_front {line as rest : List Char} (hline : line = as ++ rest)
    (h : ∀ front ∈ ["public final class ", "    public static final int ", "    public final ",
      "        this."], ¬ (front.toList <+: as ∨ as <+: front.toList)) : clause? line = none := by
  simp only [List.forall_mem_cons] at h
  obtain ⟨hclass, hconstant, hfield, hassignment, -⟩ := h
  exact clause?_eq_none (between?_of_front hline hclass) (between?_of_front hline hconstant)
    (between?_of_front hline hfield) (between?_of_front hline hassignment)

theorem clause?_commentLine (name : String) :
    clause? ("// Generated by holdr from layout \"" ++ name ++ "\". Do not edit.").toList = none := by
  have hline : ("// Generated by holdr from layout \"" ++ name ++ "\". Do not edit.").toList =
      "// Generated by holdr from layout \"".toList ++
        (name.toList ++ "\". Do not edit.".toList) := by
    simp only [String.toList_append, List.append_assoc]
  exact clause?_of_front hline (by simp)

theorem clause?_packageLine (name : String) :
    clause? ("package " ++ name ++ ";").toList = none := by
  have hline : ("package " ++ name ++ ";").toList =
      "package ".toList ++ (name.toList ++ ";".toList) := by
    simp only [String.toList_append, List.append_assoc]
  exact clause?_of_front hline (by simp)

/-- The line at which the constructor begins ends unlike a declaration. -/
theorem clause?_constructorLine (name : String) :
    clause? ("    public " ++ name ++ "(android.view.View view) \x7b").toList = none := by
  have hback : ("    public " ++ name ++ "(android.view.View view) \x7b").toList =
      ("    public " ++ name).toList ++ "(android.view.View view) \x7b".toList :=
    String.toList_append
  have hfront : ("    public " ++ name ++ "(android.view.View view) \x7b").toList =
      "    public ".toList ++ (name.toList ++ "(android.view.View view) \x7b".toList) := by
    simp only [String.toList_append, List.append_assoc]
  exact clause?_eq_none (between?_of_front hfront (by simp))
    (between?_of_back hback (by decide)) (between?_of_back hback (by decide))
    (between?_of_back hback (by decide))

/-- The fields of a holder have the accessor names of its views. -/
theorem map_fst_fields (l : Layout) : (fields l).map Prod.fst = accessorNames l.views :=
  List.map_fst_zip (length_accessorNames l.views).le

theorem map_snd_fields (l : Layout) : (fields l).map Prod.snd = l.views :=
  List.map_snd_zip (length_accessorNames l.views).ge

theorem isIdentifier_field {l : Layout} {field : String × View} (h : field ∈ fields l) :
    IsIdentifier field.1 :=
  isIdentifier_of_mem (List.of_mem_zip h).1

/-- **What the lines of a holder state**, in order: its class, its constant, its fields and the
assignments. -/
theorem clauses_sourceLines (base : String) (l : Layout) :
    (sourceLines base l).filterMap (fun line => clause? line.toList) =
      .holderClass (className l.name) ::
        .constant "LAYOUT" (base ++ ".R.layout." ++ l.name) ::
          ((fields l).map (fun field => Clause.field field.2.type field.1) ++
            (fields l).filterMap fun field =>
              assignmentLine? (assignmentLine base field).toList) := by
  have hdeclarations :
      ((fields l).map declarationLine).filterMap (fun line => clause? line.toList) =
        (fields l).map fun field => Clause.field field.2.type field.1 := by
    rw [List.filterMap_map, ← List.filterMap_eq_map]
    refine List.filterMap_congr fun field hfield => ?_
    rw [Function.comp_apply, Function.comp_apply,
      clause?_declarationLine ((isIdentifier_field hfield).notMem (by decide))]
  have hassignments :
      ((fields l).map (assignmentLine base)).filterMap (fun line => clause? line.toList) =
        (fields l).filterMap fun field => assignmentLine? (assignmentLine base field).toList := by
    rw [List.filterMap_map]
    refine List.filterMap_congr fun field _ => ?_
    rw [Function.comp_apply, clause?_assignmentLine]
  have hblank : clause? "".toList = none := by decide +kernel
  have hclose : clause? "    \x7d".toList = none := by decide +kernel
  have hclose' : clause? "\x7d".toList = none := by decide +kernel
  have hgap : (if l.views.isEmpty then [] else [""]).filterMap
      (fun line => clause? line.toList) = [] := by
    split
    · rfl
    · simp only [List.filterMap_cons, hblank, List.filterMap_nil]
  unfold sourceLines
  simp only [List.filterMap_append, hdeclarations, hassignments, hgap, List.filterMap_cons,
    List.filterMap_nil, hblank, hclose, hclose', clause?_commentLine, clause?_packageLine,
    clause?_classLine, clause?_constantLine, clause?_constructorLine, List.append_nil,
    List.cons_append, List.nil_append]

/-! ### The names that a holder declares -/

/-- A holder declares its constant and a field for each view. -/
theorem declaredNames_sourceLines (base : String) (l : Layout) :
    declaredNames (sourceLines base l) = "LAYOUT" :: accessorNames l.views := by
  have hfields : ((fields l).map fun field => Clause.field field.2.type field.1).filterMap
      Clause.declared? = accessorNames l.views := by
    rw [List.filterMap_map, ← map_fst_fields, ← List.filterMap_eq_map]
    rfl
  have hassignments : ((fields l).filterMap fun field =>
      assignmentLine? (assignmentLine base field).toList).filterMap Clause.declared? = [] := by
    simp only [List.filterMap_filterMap, declared?_assignmentLine, List.filterMap_none]
  simp only [declaredNames, clauses_sourceLines, List.filterMap_cons, Clause.declared?,
    List.filterMap_append]
  rw [hfields, hassignments, List.append_nil]

/-- **When the names that a holder declares are different.**  The fields of a holder have different
names always, but a view that asks for the name of the constant gets it. -/
theorem declaredNames_nodup_iff (base : String) (l : Layout) :
    declaredNames (sourceLines base l) = "LAYOUT" :: accessorNames l.views ∧
      (accessorNames l.views).Nodup ∧
      ((declaredNames (sourceLines base l)).Nodup ↔
        ∀ v ∈ l.views, accessorName v ≠ "LAYOUT") := by
  have hnames := declaredNames_sourceLines base l
  have hnodup := accessorNames_nodup l.views
  refine ⟨hnames, hnodup, ?_⟩
  have hconstant : "LAYOUT" ∈ accessorNames l.views ↔
      ∃ v ∈ l.views, accessorName v = "LAYOUT" :=
    mem_accessorNames_iff (numbered_ne (by simp))
  rw [hnames, List.nodup_cons, hconstant]
  exact ⟨fun h v hv hname => h.1 ⟨v, hv, hname⟩, fun h => ⟨fun ⟨v, hv, hname⟩ => h v hv hname,
    hnodup⟩⟩

/-- A layout with a view whose id is the name of the constant. -/
def constantNamed : Layout := ⟨"main", [⟨"android.widget.Button", "LAYOUT", false, none⟩]⟩

/-- The holder of a layout that can be read declares its constant and a field of the same name. -/
theorem source_declares_twice :
    Layout.read {} "main" ("<Button xmlns:a=\"http://schemas.android.com/apk/res/android\" " ++
        "a:id=\"@+id/LAYOUT\"/>") = .ok constantNamed ∧
      declaredNames (sourceLines "com.example" constantNamed) = ["LAYOUT", "LAYOUT"] ∧
      ¬ (declaredNames (sourceLines "com.example" constantNamed)).Nodup := by
  have hnames :
      declaredNames (sourceLines "com.example" constantNamed) = ["LAYOUT", "LAYOUT"] := by
    rw [declaredNames_sourceLines]
    decide +kernel
  refine ⟨by decide +kernel, hnames, ?_⟩
  rw [hnames]
  decide +kernel

end ViewHolder.Holder
