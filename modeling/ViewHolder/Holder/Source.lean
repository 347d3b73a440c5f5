import ViewHolder.Holder.Name
import ViewHolder.Path.Basic

/-!
# The source of a holder

The holder of a layout is a class with one final field for each view.  It lies in the package
`holdr` below the package of the application, and its text depends on nothing but that package
and the layout.

## Main definitions

* `Holder.package` : the package of the generated classes.
* `Holder.outputPath` : the file of the holder of a layout.
* `Holder.source` : the text of the holder of a layout.
-/

namespace ViewHolder.Holder

/-- The package of the generated classes. -/
def package (base : String) : String := base ++ ".holdr"

/-- The non-empty parts of a package name. -/
def packageParts (name : String) : List String :=
  (Text.splitBy (· == '.') name.toList).map String.ofList

/-- The directory of the generated classes. -/
def outputDir (base : String) (dir : Path) : Path :=
  (packageParts (package base)).foldl (fun p part => p.join ⟨part⟩) dir

/-- The file of the holder of a layout. -/
def outputPath (base : String) (dir : Path) (layoutName : String) : Path :=
  (outputDir base dir).join ⟨className layoutName ++ ".java"⟩

/-- The expression that names the id of a view. -/
def idReference (base : String) (v : View) : String :=
  (if v.isFramework then "android" else base) ++ ".R.id." ++ v.id

/-- The views of a layout with their accessor names. -/
def fields (l : Layout) : List (String × View) := (accessorNames l.views).zip l.views

/-- The line that declares a field. -/
def declarationLine (field : String × View) : String :=
  "    public final " ++ field.2.type ++ " " ++ field.1 ++ ";"

/-- The line that assigns a field. -/
def assignmentLine (base : String) (field : String × View) : String :=
  "        this." ++ field.1 ++ " = (" ++ field.2.type ++ ") view.findViewById("
    ++ idReference base field.2 ++ ");"

/-- The lines of the holder of a layout. -/
def sourceLines (base : String) (l : Layout) : List String :=
  ["// Generated by holdr from layout \"" ++ l.name ++ "\". Do not edit.",
    "",
    "package " ++ package base ++ ";",
    "",
    "public final class " ++ className l.name ++ " \x7b",
    "    public static final int LAYOUT = " ++ base ++ ".R.layout." ++ l.name ++ ";",
    ""]
  ++ (fields l).map declarationLine
  ++ (if l.views.isEmpty then [] else [""])
  ++ ["    public " ++ className l.name ++ "(android.view.View view) \x7b"]
  ++ (fields l).map (assignmentLine base)
  ++ ["    \x7d", "\x7d"]

/-- The text of the holder of a layout. -/
def source (base : String) (l : Layout) : String :=
  String.join ((sourceLines base l).map (· ++ "\n"))

end ViewHolder.Holder
