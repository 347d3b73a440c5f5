import ViewHolder.Layout.Reader
import ViewHolder.Store.Basic

/-!
# Errors of a compile run

## Main definitions

* `CompileError`, `CompileError.message`, `CompileError.causes` : why a run failed.
-/

namespace ViewHolder

/-- Why a compile run failed. -/
inductive CompileError where
  /-- A layout file is no layout. -/
  | parsing (file : Path) (cause : LayoutFault)
  /-- A layout file could not be read. -/
  | reading (file : Path) (cause : StoreError)
  /-- A directory could not be listed. -/
  | listing (dir : Path) (cause : StoreError)
  /-- A directory could not be created. -/
  | creating (dir : Path) (cause : StoreError)
  /-- A holder could not be written or deleted. -/
  | writing (file : Path) (cause : StoreError)
  deriving DecidableEq, Inhabited, Repr

namespace CompileError

/-- The text of an error. -/
def message : CompileError → String
  | parsing p cause => "failed to parse layout " ++ p.text ++ ": " ++ cause.message
  | reading p cause => "failed to read layout " ++ p.text ++ ": " ++ cause.message
  | listing p cause => "failed to list directory " ++ p.text ++ ": " ++ cause.message
  | creating p cause => "failed to create directory " ++ p.text ++ ": " ++ cause.message
  | writing p cause => "failed to write " ++ p.text ++ ": " ++ cause.message

/-- The texts of what lies behind an error. -/
def causes : CompileError → List String
  | parsing _ cause => cause.message :: cause.causes
  | reading _ cause => cause.message :: cause.causes
  | listing _ cause => cause.message :: cause.causes
  | creating _ cause => cause.message :: cause.causes
  | writing _ cause => cause.message :: cause.causes

end CompileError

end ViewHolder
