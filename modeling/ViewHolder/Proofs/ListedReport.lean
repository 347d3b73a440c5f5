import ViewHolder.Proofs.Incremental

/-!
# Reporting every listed file

The listing of resource roots is closed under variants: every other variant of a listed layout file
is listed as well.  So an incremental run that is told of all listed files reads the same files in
the same order as a full run, and it has the same course.

## Main definitions

* `Progress.startedIn` : a run that starts in another mode.

## Main results

* `affectedFiles_listed` : the files affected by all listed files are the listed layout files.
* `compileIncremental_listed` : an incremental run over all listed files is a full run.
-/

namespace ViewHolder

/-- The resource roots of a listing that succeeded can be listed. -/
theorem isListable_of_allLayoutFiles {t : Tree} {roots : List Path} {files : PathSet}
    (h : allLayoutFiles t roots = .ok files) {r : Path} (hr : r ∈ roots) :
    t.isListable r.location = true := by
  unfold allLayoutFiles at h
  split at h
  · rename_i ps hps
    obtain ⟨bs, hbs⟩ := exists_gather_iff.1 ⟨ps, hps⟩ r hr
    unfold filesOfRoot at hbs
    split at hbs
    · rename_i es hes
      exact exists_listMembers_iff.1 ⟨es, hes⟩
    · cases hbs
  · cases h

/-! ### Affected files -/

/-- A path below a variant directory is a layout file exactly if it ends in a name. -/
theorem LayoutFile.isSome_ofPath? {p : Path} {k : List Step} {v : String} {s : Step}
    (hsteps : p.steps = k ++ [.name v, s]) (hv : isVariantName v = true) :
    (LayoutFile.ofPath? p).isSome = p.fileName?.isSome := by
  cases hname : p.fileName? with
  | none => simp [ofPath?, hname]
  | some x =>
    obtain ⟨l, hl⟩ := Path.fileName?_eq_some.1 hname
    have hlast : p.steps = k ++ [.name v] ++ [s] := by simpa using hsteps
    obtain rfl : .name x = s := by simpa using (List.append_inj' (hl.symm.trans hlast) rfl).2
    obtain ⟨f, hf, -⟩ := exists_ofPath? hsteps hv
    rw [hf]
    rfl

section

variable {t : Tree} {roots : List Path} {files : PathSet} (ht : t.Spelled)
  (hfiles : allLayoutFiles t roots = .ok files)
include ht hfiles

/-- The listed files that end in a name are layout files. -/
theorem isSome_ofPath?_of_listed {p : Path} (hp : p ∈ files.toList) :
    (LayoutFile.ofPath? p).isSome = p.fileName?.isSome := by
  obtain ⟨r, -, v, s, hv, hsteps, -⟩ := (mem_places_allLayoutFiles ht hfiles).1
    (List.mem_map_of_mem hp)
  exact LayoutFile.isSome_ofPath? hsteps hv

omit ht hfiles in
/-- The layout files among some listed files. -/
theorem areListed_filter (files : PathSet) :
    AreListed files (files.toList.filter fun p => (LayoutFile.ofPath? p).isSome) := by
  intro p hp
  obtain ⟨hmem, hlayout⟩ := List.mem_filter.1 hp
  exact ⟨hlayout, PathSet.contains_iff.2 ⟨p, hmem, rfl⟩⟩

/-- Looking for the variants of a listed layout file does not fail. -/
theorem exists_siblingVariants {p : Path} (hp : p ∈ files.toList) {f : LayoutFile}
    (hf : LayoutFile.ofPath? p = some f) : ∃ ps, siblingVariants t f = .ok ps := by
  have hmem : p ∈ files.toList.filter fun p => (LayoutFile.ofPath? p).isSome :=
    List.mem_filter.2 ⟨hp, Option.isSome_iff_exists.2 ⟨f, hf⟩⟩
  obtain ⟨⟨r, hr, hroot⟩, -⟩ := (areListed_filter files).file ht hfiles hmem hf
  have hdir : t.isListable f.listingRoot.location = true := by
    rw [f.location_listingRoot, ← Path.location_eq_of_steps_eq hroot]
    exact isListable_of_allLayoutFiles hfiles hr
  obtain ⟨es, hes⟩ := exists_listMembers_iff.2 hdir
  rw [siblingVariants, hes]
  exact ⟨_, rfl⟩

/-- **The listing is closed under variants**: the other variants of listed layout files are listed
layout files. -/
theorem siblings_listed (hproper : t.Proper) {siblings : List Path}
    (h : gather (siblingVariants t) (files.toList.filterMap LayoutFile.ofPath?) = .ok siblings)
    {q : Path} (hq : q ∈ siblings) :
    ∃ p ∈ files.toList.filter fun p => (LayoutFile.ofPath? p).isSome, q.steps = p.steps := by
  rw [gather_eq_flatMap (fun f _ _ hf => siblingVariants_eq ht hf) h] at hq
  obtain ⟨f, hf, hq⟩ := List.mem_flatMap.1 hq
  obtain ⟨p, hp, hf⟩ := List.mem_filterMap.1 hf
  have hplace : q.steps ∈ t.variantPlaces f.root f.fileName := by
    have hmap := List.mem_map_of_mem (f := Path.steps) hq
    rw [places_siblingVariants ht hf] at hmap
    exact (List.mem_filter.1 hmap).1
  have hmem : p ∈ files.toList.filter fun p => (LayoutFile.ofPath? p).isSome :=
    List.mem_filter.2 ⟨hp, Option.isSome_iff_exists.2 ⟨f, hf⟩⟩
  obtain ⟨p', hp', hsteps⟩ := List.mem_map.1
    ((areListed_filter files).variant_mem ht hfiles hmem hf hplace hproper)
  obtain ⟨v, hv, hq, -⟩ := (Tree.mem_variantPlaces ht).1 hplace
  obtain ⟨f', hf', -⟩ := LayoutFile.exists_ofPath? (hsteps.trans hq) hv
  exact ⟨p', List.mem_filter.2 ⟨hp', Option.isSome_iff_exists.2 ⟨f', hf'⟩⟩, hsteps.symm⟩

/-- **The files affected by all listed files** are those of them that end in a name, in listing
order. -/
theorem exists_affectedFiles_listed (hproper : t.Proper) :
    ∃ affected, affectedFiles t files.toList [] = .ok affected ∧
      affected.toList = files.toList.filter fun p => p.fileName?.isSome := by
  obtain ⟨siblings, hsiblings⟩ : ∃ siblings,
      gather (siblingVariants t) (files.toList.filterMap LayoutFile.ofPath?) = .ok siblings := by
    refine exists_gather_iff.2 fun f hf => ?_
    obtain ⟨p, hp, hf⟩ := List.mem_filterMap.1 hf
    exact exists_siblingVariants ht hfiles hp hf
  have hdirect :
      (PathSet.ofList (files.toList.filter fun p => (LayoutFile.ofPath? p).isSome)).toList =
        files.toList.filter fun p => (LayoutFile.ofPath? p).isSome :=
    PathSet.toList_ofList (files.distinct.filter _)
  refine ⟨PathSet.ofList (files.toList.filter fun p => (LayoutFile.ofPath? p).isSome), ?_, ?_⟩
  · rw [affectedFiles, List.append_nil, hsiblings]
    dsimp only
    rw [List.foldl_nil, PathSet.ofList_append, PathSet.extend_of_contains fun q hq => ?_]
    obtain ⟨p, hp, hsteps⟩ := siblings_listed ht hfiles hproper hsiblings hq
    rw [PathSet.contains_iff, hdirect]
    exact ⟨p, hp, hsteps⟩
  · rw [hdirect]
    exact List.filter_congr fun p hp => isSome_ofPath?_of_listed ht hfiles hp

end

/-! ### Runs in two modes -/

/-- A course of events that starts in another mode. -/
def CompileEvent.startedIn (mode : CompileMode) : List CompileEvent → List CompileEvent
  | .started _ n :: rest => .started mode n :: rest
  | events => events

/-- A run that starts in another mode. -/
def Progress.startedIn {σ α : Type} (mode : CompileMode) (p : Progress σ α) : Progress σ α :=
  ⟨p.store, CompileEvent.startedIn mode p.events, p.result⟩

/-- The mode of a run shows in its first event only. -/
theorem run_startedIn {σ : Type} [Store σ] (opts : CompileOptions) (mode mode' : CompileMode)
    (files : PathSet) (removed : List Path) (s : σ) :
    run opts mode' files removed s = (run opts mode files removed s).startedIn mode' := by
  unfold run
  split
  · rfl
  · rfl

/-- **Reporting every listed file is a full run.**  Where no place is both file and directory, the
files affected by all files of a listing are those of them that end in a name, in the same order.
If all of them do, the incremental run has the result, the tree and the events of the full run, but
for the mode in which it starts. -/
theorem compileIncremental_listed (opts : CompileOptions) {t : Tree} {roots : List Path}
    {files : PathSet} (ht : t.Spelled) (hproper : t.Proper)
    (hfiles : allLayoutFiles t roots = .ok files) :
    (∃ affected, affectedFiles t files.toList [] = .ok affected ∧
      affected.toList = files.toList.filter fun p => p.fileName?.isSome) ∧
    ((∀ p ∈ files.toList, p.fileName?.isSome = true) →
      affectedFiles t files.toList [] = .ok files ∧
      compileIncremental opts files.toList [] t =
        (compile opts roots t).startedIn .incremental) := by
  obtain ⟨affected, haffected, hlist⟩ := exists_affectedFiles_listed ht hfiles hproper
  refine ⟨⟨affected, haffected, hlist⟩, fun hnames => ?_⟩
  obtain rfl : affected = files := by
    refine PathSet.ext_toList (hlist.trans ?_)
    exact List.filter_eq_self.2 hnames
  refine ⟨haffected, ?_⟩
  rw [compileIncremental, compile, haffected, hfiles]
  exact run_startedIn opts .full .incremental affected [] t

theorem compileIncremental_listed_twoVariants : ∃ files,
    allLayoutFiles twoVariants [⟨"res"⟩, ⟨"./res"⟩] = .ok files ∧ files.size = 4 ∧
      affectedFiles twoVariants files.toList [] = .ok files ∧
      (compileIncremental sampleOptions files.toList [] twoVariants).result =
        (compile sampleOptions [⟨"res"⟩, ⟨"./res"⟩] twoVariants).result ∧
      (compileIncremental sampleOptions files.toList [] twoVariants).store =
        (compile sampleOptions [⟨"res"⟩, ⟨"./res"⟩] twoVariants).store := by
  have heval : (allLayoutFiles twoVariants [⟨"res"⟩, ⟨"./res"⟩]).toOption.map (fun files =>
      (files.size, files.toList.all fun p => p.fileName?.isSome)) = some (4, true) := by
    decide +kernel
  obtain ⟨files, hfiles, hall⟩ := exists_ok_of_map heval
  obtain ⟨hsize, hnames⟩ := Prod.ext_iff.1 hall
  have hspelled : twoVariants.Spelled := Tree.spelled_ofFiles _
  obtain ⟨-, hsame⟩ := compileIncremental_listed sampleOptions hspelled (by decide +kernel) hfiles
  obtain ⟨haffected, hrun⟩ := hsame (List.all_eq_true.1 hnames)
  refine ⟨files, hfiles, hsize, haffected, ?_, ?_⟩
  · rw [hrun, Progress.startedIn]
  · rw [hrun, Progress.startedIn]

/-- A file in a variant directory whose path ends in a step to the directory above. -/
def unnamedFile : Tree := .ofFiles [(⟨"res/layout/.."⟩, sampleText "a")]

/-- A listed file whose path does not end in a name is no layout file, so reporting it as changed
affects nothing. -/
theorem affectedFiles_drops_unnamed :
    unnamedFile.Proper ∧
      (allLayoutFiles unnamedFile [⟨"res"⟩]).toOption.map PathSet.toList =
        some [⟨"res/layout/.."⟩] ∧
      (affectedFiles unnamedFile [⟨"res/layout/.."⟩] []).toOption.map PathSet.toList = some [] := by
  decide +kernel

end ViewHolder
