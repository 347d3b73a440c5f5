import ViewHolder.Proofs.AffectedSet
import ViewHolder.Proofs.Run
import ViewHolder.Proofs.Sources

/-!
# The frame of a compile

Whatever it is asked for and however it ends, a compile touches no file but the holders of the
layouts that it is about.  An incremental compile is about the layouts of the reported files only.
Holders lie in a directory `holdr`, which is no variant directory, so no file in a variant directory
is ever touched, wherever the project puts its holders.

## Main definitions

* `CompileRequest` : what a compile is asked for.
* `CompileRequest.names` : the layouts that a compile is about.

## Main results

* `ofPath?_holderPath` : no holder is a layout file.
* `CompileRequest.exists_reported_of_mem_names` : an incremental compile is about reported layouts.
* `CompileRequest.compile_frame` : the frame of a compile.
-/

namespace ViewHolder

/-! ### Holders and layout files -/

/-- The directory of a holder is called `holdr`. -/
theorem exists_parent?_holderPath (opts : CompileOptions) {n : String} (hn : '/' ∉ n.toList) :
    ∃ dir, (holderPath opts n).parent? = some dir ∧ dir.fileName? = some "holdr" := by
  obtain ⟨l, hl⟩ := exists_location_outputDir opts.package opts.outputDir
  obtain ⟨k, hk⟩ := Path.exists_steps_of_location hl
  have hholder : (holderPath opts n).steps = _ := steps_holderPath hn
  obtain ⟨dir, hdir, hsteps⟩ := Path.exists_parent? hholder
  exact ⟨dir, hdir, Path.fileName?_eq_some.2 ⟨k, hsteps.trans hk⟩⟩

/-- No holder is a layout file. -/
theorem ofPath?_holderPath (opts : CompileOptions) {n : String} (hn : '/' ∉ n.toList) :
    LayoutFile.ofPath? (holderPath opts n) = none := by
  obtain ⟨dir, hdir, hname⟩ := exists_parent?_holderPath opts hn
  have hv : isVariantName "holdr" = false := by decide +kernel
  simp [LayoutFile.ofPath?, hdir, hname, hv]

/-! ### Requests -/

/-- What a compile is asked for. -/
inductive CompileRequest where
  /-- All layout files of some resource roots. -/
  | full (roots : List Path)
  /-- The layout files that some changed and some removed files affect. -/
  | incremental (changed removed : List Path)
  deriving DecidableEq, Inhabited, Repr

namespace CompileRequest

/-- The mode of a compile. -/
def mode : CompileRequest → CompileMode
  | full _ => .full
  | incremental _ _ => .incremental

/-- The files that are reported as removed. -/
def removed : CompileRequest → List Path
  | full _ => []
  | incremental _ removed => removed

/-- The files to read. -/
def candidates (t : Tree) : CompileRequest → Except CompileError PathSet
  | full roots => allLayoutFiles t roots
  | incremental changed removed => affectedFiles t changed removed

/-- The compile that is asked for. -/
def compile (opts : CompileOptions) (t : Tree) : CompileRequest → Progress Tree Report
  | full roots => ViewHolder.compile opts roots t
  | incremental changed removed => compileIncremental opts changed removed t

/-- The names of the layouts that a compile is about: those of the files to read and of the removed
layout files.  It is about nothing if the files cannot be listed. -/
def names (t : Tree) (r : CompileRequest) : List String :=
  match r.candidates t with
  | .ok files => runNames files r.removed
  | .error _ => []

/-- A compile is a run over its files, unless they cannot be listed. -/
theorem compile_eq (opts : CompileOptions) (t : Tree) (r : CompileRequest) :
    r.compile opts t = match r.candidates t with
      | .ok files => run opts r.mode files r.removed t
      | .error e => ⟨t, [], .error e⟩ := by
  cases r with
  | full roots =>
    rw [compile, ViewHolder.compile, candidates]
    cases allLayoutFiles t roots <;> rfl
  | incremental changed removed =>
    rw [compile, compileIncremental, candidates]
    cases affectedFiles t changed removed <;> rfl

theorem slash_notMem_names {t : Tree} {r : CompileRequest} {n : String} (hn : n ∈ r.names t) :
    '/' ∉ n.toList := by
  unfold names at hn
  split at hn
  · exact slash_notMem_runNames hn
  · cases hn

/-- A compile changes the holders of its layouts only. -/
theorem compile_changedAt (opts : CompileOptions) (t : Tree) (r : CompileRequest) :
    Tree.ChangedAt (fun k => ∃ n ∈ r.names t, k = holderLocation opts n) t
      (r.compile opts t).store := by
  rw [compile_eq, names]
  split
  · exact run_changedAt opts t _ _ _
  · exact .refl _ t

/-- An incremental compile is about the layouts of the reported files only. -/
theorem exists_reported_of_mem_names {t : Tree} {changed removed : List Path} {n : String}
    (hn : n ∈ (incremental changed removed).names t) :
    ∃ p ∈ changed ++ removed, ∃ f, LayoutFile.ofPath? p = some f ∧ n = f.layoutName := by
  unfold names at hn
  split at hn
  · rename_i files hfiles
    rcases List.mem_append.1 hn with hn | hn
    · obtain ⟨k, hk, rfl⟩ := List.mem_map.1 hn
      obtain ⟨q, hq, rfl⟩ := List.mem_map.1 hk
      obtain ⟨p, hp, f, hf, v, -, hsteps⟩ :=
        exists_touched_of_affected hfiles (PathSet.contains_iff.2 ⟨q, hq, rfl⟩)
      refine ⟨p, hp, f, hf, ?_⟩
      rw [hsteps, LayoutFile.stemAt_variant hf, LayoutFile.layoutName_of_ofPath? hf]
    · obtain ⟨f, hf, rfl⟩ := List.mem_map.1 hn
      obtain ⟨p, hp, hf⟩ := List.mem_filterMap.1 hf
      exact ⟨p, List.mem_append_right _ hp, f, hf, rfl⟩
  · cases hn

/-- **The frame of a compile**, whether it succeeds or fails.  A file that is not the holder of a
layout that the compile is about is left exactly as it was.  An incremental compile is about layouts
of reported files only.  The directory of a holder is called `holdr`, so no holder is a layout file,
and no file in a variant directory is created, changed or deleted. -/
theorem compile_frame (opts : CompileOptions) (t : Tree) (r : CompileRequest) :
    (∀ l, (∀ n ∈ r.names t, l ≠ (holderPath opts n).location) →
      (r.compile opts t).store.textAt? l = t.textAt? l) ∧
    (∀ changed removed, r = incremental changed removed → ∀ n ∈ r.names t,
      ∃ p ∈ changed ++ removed, ∃ f, LayoutFile.ofPath? p = some f ∧ n = f.layoutName) ∧
    (∀ n ∈ r.names t, LayoutFile.ofPath? (holderPath opts n) = none ∧
      ∃ dir, (holderPath opts n).parent? = some dir ∧ dir.fileName? = some "holdr") ∧
    ∀ l v s, isVariantName v = true →
      (r.compile opts t).store.textAt? (l ++ [.name v, s]) = t.textAt? (l ++ [.name v, s]) := by
  have hchanged := compile_changedAt opts t r
  refine ⟨fun l hl => hchanged.textAt l ?_, ?_, fun n hn => ?_, fun l v s hv => ?_⟩
  · rintro ⟨n, hn, hloc⟩
    exact hl n hn hloc
  · rintro changed removed rfl n hn
    exact exists_reported_of_mem_names hn
  · have hslash := slash_notMem_names hn
    exact ⟨ofPath?_holderPath opts hslash, exists_parent?_holderPath opts hslash⟩
  · refine hchanged.textAt _ ?_
    rintro ⟨n, hn, hloc⟩
    exact location_holderPath_ne (slash_notMem_names hn) hv hloc.symm

/-- A project that puts its holders into a variant directory. -/
def nestedOptions : CompileOptions := { sampleOptions with outputDir := ⟨"res/layout"⟩ }

/-- A layout, and a file beside its holder. -/
def nestedProject : Tree :=
  .ofFiles [(sampleFile "layout" "main", sampleText "a"),
    (⟨"res/layout/com/example/holdr/notes.txt"⟩, "notes")]

theorem compile_frame_nestedProject :
    ((full [⟨"res"⟩]).compile nestedOptions nestedProject).store.hasFile
        (Path.location ⟨"res/layout/com/example/holdr/MainHolder.java"⟩) = true ∧
      ((full [⟨"res"⟩]).compile nestedOptions nestedProject).store.textAt?
        (Path.location ⟨"res/layout/com/example/holdr/notes.txt"⟩) = some "notes" ∧
      ((full [⟨"res"⟩]).compile nestedOptions nestedProject).store.textAt?
        (sampleFile "layout" "main").location = some (sampleText "a") := by
  obtain ⟨hframe, -, -, hvariants⟩ := compile_frame nestedOptions nestedProject (full [⟨"res"⟩])
  have hnames : (full [⟨"res"⟩]).names nestedProject = ["main"] := by decide +kernel
  have hloc : (sampleFile "layout" "main").location =
      [.name "res"] ++ [.name "layout", .name "main.xml"] := by decide +kernel
  refine ⟨by decide +kernel, (hframe _ ?_).trans (by decide +kernel), ?_⟩
  · rw [hnames]
    decide +kernel
  · rw [hloc]
    exact (hvariants _ _ _ (by decide +kernel)).trans (by decide +kernel)

end CompileRequest

end ViewHolder
