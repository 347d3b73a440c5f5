import Mathlib.Data.List.Zip
import ViewHolder.Proofs.HolderClauses
import ViewHolder.Proofs.HolderFile

/-!
# Reading a holder back

The text of a holder says which accessors it has: reading it line by line gives back the class, the
layout, and the type, the field and the id reference of every view.  So a holder whose text did not
change has the accessors that it had.

## Main definitions

* `Text.IsOneLine` : the texts that are one line.
* `Holder.clauses`, `Holder.outline` : what the lines of a text state, in order and by kind.
* `Holder.IsPlainText`, `Holder.IsPlain` : texts without delimiters, and layouts made of them.

## Main results

* `Text.lines_join` : lines that were put together are the lines of the text.
* `Holder.clauses_source` : what the text of a holder states.
* `Holder.source_read_back` : the text of a holder determines its accessors.
-/

namespace ViewHolder

/-! ### Lines of a text -/

namespace Text

/-- A text without line ends and without carriage returns. -/
def IsOneLine (s : String) : Prop := '\n' ∉ s.toList ∧ '\r' ∉ s.toList

instance (s : String) : Decidable (IsOneLine s) :=
  inferInstanceAs (Decidable ('\n' ∉ s.toList ∧ '\r' ∉ s.toList))

theorem isOneLine_append {s t : String} : IsOneLine (s ++ t) ↔ IsOneLine s ∧ IsOneLine t := by
  simp only [IsOneLine, String.toList_append, List.mem_append, not_or]
  exact and_and_and_comm

theorem IsOneLine.dropReturn_eq {s : String} (h : IsOneLine s) : dropReturn s.toList = s.toList :=
  if_neg fun hlast => h.2 (List.mem_of_getLast? hlast)

theorem pieces_join {ls : List String} (h : ∀ line ∈ ls, IsOneLine line) :
    pieces isLineEnd (String.join (ls.map (· ++ "\n"))).toList = ls.map String.toList ++ [[]] := by
  rw [String.toList_join]
  induction ls with
  | nil => rfl
  | cons line ls ih =>
    obtain ⟨hline, hls⟩ := List.forall_mem_cons.1 h
    have hwhole : pieces isLineEnd line.toList = [line.toList] :=
      pieces_of_forall_not fun c hc => beq_eq_false_iff_ne.2 fun hc' => hline.1 (hc' ▸ hc)
    have hend : "\n".toList = ['\n'] := by simp
    rw [List.map_cons, List.flatMap_cons, String.toList_append, hend, List.append_assoc,
      List.singleton_append, pieces_append_sep rfl, hwhole, ih hls]
    rfl

/-- **Lines that were put together are the lines of the text.** -/
theorem lines_join {ls : List String} (h : ∀ line ∈ ls, IsOneLine line) :
    lines (String.join (ls.map (· ++ "\n"))).toList = ls.map String.toList := by
  rw [lines, pieces_join h]
  rw [if_pos (List.getLast?_concat ..), List.dropLast_concat, List.map_map]
  exact List.map_congr_left fun line hline => (h line hline).dropReturn_eq

end Text

namespace Holder

/-! ### Plain texts -/

/-- A text without white space and without the characters that delimit what a holder states. -/
def IsPlainText (s : String) : Prop :=
  ∀ c ∈ s.toList, Text.isBlank c = false ∧ c ∉ [';', '(', ')', '\x7b', '\x7d', '"']

instance (s : String) : Decidable (IsPlainText s) :=
  List.decidableBAll _ s.toList

theorem IsPlainText.isOneLine {s : String} (h : IsPlainText s) : Text.IsOneLine s :=
  ⟨fun hc => absurd (h _ hc).1 (by decide), fun hc => absurd (h _ hc).1 (by decide)⟩

/-- A package and a layout whose texts are plain, but for the accessor names that views ask for. -/
structure IsPlain (base : String) (l : Layout) : Prop where
  /-- The package is plain. -/
  base : IsPlainText base
  /-- The name of the layout is plain. -/
  name : IsPlainText l.name
  /-- The types and ids of the views are plain. -/
  views : ∀ v ∈ l.views, IsPlainText v.type ∧ IsPlainText v.id

/-- White space separates the words of a layout name and gets into no class name. -/
theorem isOneLine_className (n : String) : Text.IsOneLine (className n) :=
  ⟨notMem_className (by decide) (by decide) fun _ => by decide,
    notMem_className (by decide) (by decide) fun _ => by decide⟩

theorem IsIdentifier.isOneLine {name : String} (h : IsIdentifier name) : Text.IsOneLine name :=
  ⟨h.notMem (by decide), h.notMem (by decide)⟩

namespace IsPlain

variable {base : String} {l : Layout} (h : IsPlain base l)
include h

theorem isOneLine_idReference {v : View} (hv : v ∈ l.views) :
    Text.IsOneLine (idReference base v) := by
  have howner : Text.IsOneLine (if v.isFramework then "android" else base) := by
    split
    · decide
    · exact h.base.isOneLine
  simp only [idReference, Text.isOneLine_append, howner, (h.views v hv).2.isOneLine, true_and,
    and_true]
  decide

theorem isOneLine_declarationLine {field : String × View} (hfield : field ∈ fields l) :
    Text.IsOneLine (declarationLine field) := by
  have htype := (h.views _ (List.of_mem_zip hfield).2).1.isOneLine
  have hname := (isIdentifier_field hfield).isOneLine
  unfold declarationLine
  simp only [Text.isOneLine_append, htype, hname, and_true]
  decide

theorem isOneLine_assignmentLine {field : String × View} (hfield : field ∈ fields l) :
    Text.IsOneLine (assignmentLine base field) := by
  have hview := (List.of_mem_zip hfield).2
  have htype := (h.views _ hview).1.isOneLine
  have hname := (isIdentifier_field hfield).isOneLine
  have hreference := h.isOneLine_idReference hview
  unfold assignmentLine
  simp only [Text.isOneLine_append, htype, hname, hreference, and_true]
  decide

/-- The lines of a plain holder are lines of its text. -/
theorem isOneLine_sourceLines : ∀ line ∈ sourceLines base l, Text.IsOneLine line := by
  have hbase := h.base.isOneLine
  have hname := h.name.isOneLine
  have hclass := isOneLine_className l.name
  have hdeclarations : ∀ line ∈ (fields l).map declarationLine, Text.IsOneLine line :=
    List.forall_mem_map.2 fun _ hfield => h.isOneLine_declarationLine hfield
  have hassignments : ∀ line ∈ (fields l).map (assignmentLine base), Text.IsOneLine line :=
    List.forall_mem_map.2 fun _ hfield => h.isOneLine_assignmentLine hfield
  have hgap : ∀ line ∈ if l.views.isEmpty then [] else [""], Text.IsOneLine line := by
    split <;> decide
  unfold sourceLines
  simp only [List.forall_mem_append, List.forall_mem_cons, package, Text.isOneLine_append, hbase,
    hname, hclass, and_true, true_and]
  refine ⟨⟨⟨⟨⟨?_, hdeclarations⟩, hgap⟩, ?_⟩, hassignments⟩, ?_⟩
  all_goals decide

end IsPlain

/-! ### What the text of a holder states -/

/-- What the lines of a text state, in order. -/
def clauses (text : String) : List Clause := (Text.lines text.toList).filterMap clause?

/-- What a text says about a holder. -/
structure Outline where
  /-- The classes. -/
  classes : List String
  /-- The constants with their values. -/
  constants : List (String × String)
  /-- The types and names of the fields. -/
  fields : List (String × String)
  /-- The names of the assigned fields with the type of the cast and the id that is looked up. -/
  assignments : List (String × String × String)
  deriving DecidableEq, Repr

/-- The outline of some clauses, each put behind those of its kind. -/
def Outline.ofClauses : List Clause → Outline
  | [] => ⟨[], [], [], []⟩
  | clause :: rest =>
    let o := ofClauses rest
    match clause with
    | .holderClass name => { o with classes := name :: o.classes }
    | .constant name value => { o with constants := (name, value) :: o.constants }
    | .field type name => { o with fields := (type, name) :: o.fields }
    | .assignment name type reference =>
      { o with assignments := (name, type, reference) :: o.assignments }

/-- The outline of a text, read line by line. -/
def outline (text : String) : Outline := .ofClauses (clauses text)

/-- The line that assigns a field is read as what it assigns. -/
theorem assignmentLine?_assignmentLine (base : String) {field : String × View}
    (hname : ' ' ∉ field.1.toList) (htype : ')' ∉ field.2.type.toList) :
    assignmentLine? (assignmentLine base field).toList =
      some (.assignment field.1 field.2.type (idReference base field.2)) := by
  refine assignmentLine?_eq hname htype _ ?_
  unfold assignmentLine
  simp only [String.toList_append, List.append_assoc]

/-- **What the text of a plain holder states**, in order: its class, its constant, its fields and
an assignment of each field. -/
theorem clauses_source {base : String} {l : Layout} (h : IsPlain base l) :
    clauses (source base l) =
      .holderClass (className l.name) ::
        .constant "LAYOUT" (base ++ ".R.layout." ++ l.name) ::
          ((fields l).map (fun field => Clause.field field.2.type field.1) ++
            (fields l).map fun field =>
              Clause.assignment field.1 field.2.type (idReference base field.2)) := by
  have hassignments : ((fields l).filterMap fun field =>
      assignmentLine? (assignmentLine base field).toList) = (fields l).map fun field =>
        Clause.assignment field.1 field.2.type (idReference base field.2) := by
    rw [← List.filterMap_eq_map]
    refine List.filterMap_congr fun field hfield => assignmentLine?_assignmentLine base
      ((isIdentifier_field hfield).notMem (by decide)) fun hc => ?_
    exact absurd ((h.views _ (List.of_mem_zip hfield).2).1 _ hc).2 (by decide)
  rw [clauses, source, Text.lines_join h.isOneLine_sourceLines, List.filterMap_map,
    ← hassignments]
  exact clauses_sourceLines base l

theorem Outline.ofClauses_fields (fs : List (String × View)) (rest : List Clause) :
    ofClauses (fs.map (fun field => Clause.field field.2.type field.1) ++ rest) =
      { ofClauses rest with
        fields := fs.map (fun field => (field.2.type, field.1)) ++ (ofClauses rest).fields } := by
  induction fs with
  | nil => rfl
  | cons field fs ih => rw [List.map_cons, List.cons_append, ofClauses, ih]; rfl

theorem Outline.ofClauses_assignments (base : String) (fs : List (String × View)) :
    ofClauses (fs.map fun field => Clause.assignment field.1 field.2.type (idReference base field.2)) =
      ⟨[], [], [], fs.map fun field => (field.1, field.2.type, idReference base field.2)⟩ := by
  induction fs with
  | nil => rfl
  | cons field fs ih => rw [List.map_cons, ofClauses, ih]; rfl

section

variable {base : String} {l : Layout} (h : IsPlain base l)
include h

/-- The outline of a plain holder. -/
theorem outline_source :
    outline (source base l) =
      ⟨[className l.name], [("LAYOUT", base ++ ".R.layout." ++ l.name)],
        (l.views.map (·.type)).zip (accessorNames l.views),
        (accessorNames l.views).zip
          ((l.views.map (·.type)).zip (l.views.map (idReference base)))⟩ := by
  have hfields : (fields l).map (fun field => (field.2.type, field.1)) =
      (l.views.map (·.type)).zip (accessorNames l.views) := by
    rw [List.zip_map_left, ← List.zip_swap, List.map_map]
    rfl
  have hassignments : (fields l).map
      (fun field => (field.1, field.2.type, idReference base field.2)) =
        (accessorNames l.views).zip
          ((l.views.map (·.type)).zip (l.views.map (idReference base))) := by
    rw [List.zip_map', List.zip_map_right]
    rfl
  rw [outline, clauses_source h, Outline.ofClauses, Outline.ofClauses, Outline.ofClauses_fields,
    Outline.ofClauses_assignments, hfields, hassignments, List.append_nil]

theorem types_outline :
    (outline (source base l)).fields.map (·.1) = l.views.map (·.type) := by
  rw [outline_source h]
  exact List.map_fst_zip (by simp)

theorem names_outline : (outline (source base l)).fields.map (·.2) = accessorNames l.views := by
  rw [outline_source h]
  exact List.map_snd_zip (by simp)

theorem assigned_outline :
    (outline (source base l)).assignments.map (·.1) = accessorNames l.views := by
  rw [outline_source h]
  exact List.map_fst_zip (by simp)

theorem references_outline :
    ((outline (source base l)).assignments.map (·.2)).map (·.2) =
      l.views.map (idReference base) := by
  rw [outline_source h]
  exact (congrArg _ (List.map_snd_zip (by simp))).trans (List.map_snd_zip (by simp))

/-- Outlines of holders that are equal come from layouts of one name with the same types, fields
and id references. -/
theorem eq_of_outline_eq {l' : Layout} (h' : IsPlain base l')
    (hsame : outline (source base l') = outline (source base l)) :
    l'.name = l.name ∧ l'.views.map (·.type) = l.views.map (·.type) ∧
      accessorNames l'.views = accessorNames l.views ∧
      l'.views.map (idReference base) = l.views.map (idReference base) := by
  refine ⟨?name, ?types, ?names, ?references⟩
  case name =>
    rw [outline_source h, outline_source h', Outline.mk.injEq] at hsame
    have hvalue : base ++ ".R.layout." ++ l'.name = base ++ ".R.layout." ++ l.name :=
      (Prod.ext_iff.1 (List.cons.inj hsame.2.1).1).2
    have hchars := congrArg String.toList hvalue
    simp only [String.toList_append, List.append_right_inj] at hchars
    exact String.toList_injective hchars
  case types => rw [← types_outline h', hsame, types_outline h]
  case names => rw [← names_outline h', hsame, names_outline h]
  case references => rw [← references_outline h', hsame, references_outline h]

end

/-- **The text of a holder determines its accessors.**  Reading the text of a plain holder line by
line gives its class, the layout, and for every view in order the type and the name of its field;
the fields are different, and the constructor assigns each of them once, in the same order, with
the same type and the id of the view.  So plain layouts whose holders have one text have one name
and the same types, fields and ids. -/
theorem source_read_back {base : String} {l : Layout} (h : IsPlain base l) :
    outline (source base l) =
      ⟨[className l.name], [("LAYOUT", base ++ ".R.layout." ++ l.name)],
        (l.views.map (·.type)).zip (accessorNames l.views),
        (accessorNames l.views).zip
          ((l.views.map (·.type)).zip (l.views.map (idReference base)))⟩ ∧
      (accessorNames l.views).length = l.views.length ∧
      (outline (source base l)).assignments.map (·.1) =
        (outline (source base l)).fields.map (·.2) ∧
      ((outline (source base l)).fields.map (·.2)).Nodup ∧
      ∀ l', IsPlain base l' → source base l' = source base l →
        l'.name = l.name ∧ l'.views.map (·.type) = l.views.map (·.type) ∧
          accessorNames l'.views = accessorNames l.views ∧
          l'.views.map (idReference base) = l.views.map (idReference base) := by
  have hnames := names_outline h
  refine ⟨outline_source h, length_accessorNames _, (assigned_outline h).trans hnames.symm,
    hnames ▸ accessorNames_nodup _, ?_⟩
  exact fun l' h' htext => eq_of_outline_eq h h' (congrArg outline htext)

/-- A layout with views of the application and of the framework, of which one asks for a name. -/
def chartLayout (titleName : Option String) : Layout :=
  ⟨"activity_main", [⟨"android.widget.TextView", "title", false, titleName⟩,
    ⟨"android.widget.ListView", "list", true, none⟩,
    ⟨"com.example.app.widget.Chart", "sales_chart", false, some "chart"⟩]⟩

theorem source_read_back_chartLayout :
    outline (source "com.example.app" (chartLayout none)) =
        ⟨["ActivityMainHolder"], [("LAYOUT", "com.example.app.R.layout.activity_main")],
          [("android.widget.TextView", "title"), ("android.widget.ListView", "list"),
            ("com.example.app.widget.Chart", "chart")],
          [("title", "android.widget.TextView", "com.example.app.R.id.title"),
            ("list", "android.widget.ListView", "android.R.id.list"),
            ("chart", "com.example.app.widget.Chart", "com.example.app.R.id.sales_chart")]⟩ ∧
      source "com.example.app" (chartLayout (some "title")) =
        source "com.example.app" (chartLayout none) ∧
      accessorNames (chartLayout (some "title")).views = accessorNames (chartLayout none).views := by
  have hplain : IsPlain "com.example.app" (chartLayout none) :=
    ⟨by decide +kernel, by decide +kernel, by decide +kernel⟩
  have hplain' : IsPlain "com.example.app" (chartLayout (some "title")) :=
    ⟨by decide +kernel, by decide +kernel, by decide +kernel⟩
  have htext : source "com.example.app" (chartLayout (some "title")) =
      source "com.example.app" (chartLayout none) := by decide +kernel
  obtain ⟨hread, -, -, -, hsame⟩ := source_read_back hplain
  obtain ⟨-, -, hnames, -⟩ := hsame _ hplain' htext
  exact ⟨hread.trans (by decide +kernel), htext, hnames⟩

end Holder

end ViewHolder
