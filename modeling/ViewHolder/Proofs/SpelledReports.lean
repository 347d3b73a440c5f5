import ViewHolder.Proofs.ListedFiles
import ViewHolder.Proofs.LiveHolders

/-!
# Stale holders and the spelling of reports

Pruning keeps the holder of a layout without views if a file of the layout outside the run is
listed.  Whether a listed file is outside the run is decided by its steps, so that a file which was
reported in another spelling than that of the listing counts as outside, and keeps the holder that
it does not back.  Where roots and reports agree on starting with a step to the current directory,
there is only one spelling, and every stale holder is pruned.

## Main definitions

* `IsSeen` : the run reads the place of a path, or it is reported as removed.
* `Path.StartsHere` : a path starts with a step to the current directory.

## Main results

* `run_keeps_backed` : a run leaves the holder of a layout without views alone if it is backed.
* `compileIncremental_stale` : which stale holders an incremental run prunes.
* `compileIncremental_keeps_stale` : a stale holder that a report in another spelling keeps.
-/

namespace ViewHolder

/-! ### Spelling -/

/-- A path that starts with a step to the current directory. -/
def Path.StartsHere (p : Path) : Prop := p.steps.head? = some .here

instance (p : Path) : Decidable p.StartsHere :=
  inferInstanceAs (Decidable (p.steps.head? = some .here))

namespace Path

/-- A path has the steps of its location, with or without the step to the current directory at its
start. -/
theorem steps_eq_ite (p : Path) :
    p.steps = if p.StartsHere then .here :: p.location else p.location := by
  have hnone : p.location.head? ≠ some .here := fun h =>
    absurd (List.mem_of_head? h) (by simp [location])
  rcases p.steps_eq_or with hsteps | hsteps
  · rw [if_neg (by rwa [StartsHere, hsteps]), hsteps]
  · rw [if_pos (by rw [StartsHere, hsteps, List.head?_cons]), hsteps]

/-- Two paths to one location that agree on their start have the same steps. -/
theorem steps_eq_of_location {p q : Path} (hloc : p.location = q.location)
    (hstart : p.StartsHere ↔ q.StartsHere) : p.steps = q.steps := by
  rw [steps_eq_ite, steps_eq_ite, hloc]
  exact if_congr hstart rfl rfl

/-- A file starts as its resource root does. -/
theorem startsHere_of_steps {p r : Path} {v : String} {s : Step}
    (h : p.steps = r.steps ++ [.name v, s]) : p.StartsHere ↔ r.StartsHere := by
  rw [StartsHere, StartsHere, h, List.head?_append]
  cases r.steps.head? <;> simp

end Path

/-! ### Names of a run -/

/-- A touched layout is one of those that the run is about. -/
theorem layoutName_mem_runNames {t : Tree} {changed removed : List Path} {files : PathSet}
    (hfiles : affectedFiles t changed removed = .ok files) {f : LayoutFile}
    (hf : f ∈ touchedFiles changed removed) : f.layoutName ∈ runNames files removed := by
  obtain ⟨p, hp, hfp⟩ := List.mem_filterMap.1 hf
  rw [LayoutFile.layoutName_of_ofPath? hfp]
  by_cases hgone : p.steps ∈ removed.map Path.steps
  · obtain ⟨q, hq, hsame⟩ := List.mem_map.1 hgone
    obtain ⟨g, hg, -⟩ := LayoutFile.exists_ofPath?_of_steps hsame.symm hfp
    refine List.mem_append_right _ (List.mem_map.2 ⟨g, List.mem_filterMap.2 ⟨q, hq, hg⟩, ?_⟩)
    rw [LayoutFile.layoutName_of_ofPath? hg, Path.stem_eq_stemAt, hsame, ← Path.stem_eq_stemAt]
  · have hchanged : p ∈ changed := (List.mem_append.1 hp).resolve_right fun hp =>
      hgone (List.mem_map_of_mem hp)
    have hread : files.contains p = true := (contains_affectedFiles_iff hfiles p).2
      ⟨hgone, Or.inl ⟨List.mem_map_of_mem hchanged, Option.isSome_iff_exists.2 ⟨f, hfp⟩⟩⟩
    rw [Path.stem_eq_stemAt]
    exact List.mem_append_left _ (List.mem_map_of_mem (PathSet.contains_iff_mem_places.1 hread))

/-! ### What backs a holder -/

/-- The run reads the place of the path, or the path is reported as removed. -/
def IsSeen (files : PathSet) (removed : List Path) (p : Path) : Prop :=
  files.contains p = true ∨ p.steps ∈ removed.map Path.steps

/-- A listed file that the run does not see backs its layout. -/
theorem mem_backedNames_of_contains {files listed : PathSet} {removed : List Path} {p : Path}
    (hp : listed.contains p = true) (hseen : ¬ IsSeen files removed p) :
    p.stem ∈ backedNames listed files removed := by
  refine mem_backedNames_iff.2 ⟨p.steps, PathSet.contains_iff_mem_places.1 hp,
    p.stem_eq_stemAt.symm, fun hread => hseen (Or.inl ?_), fun hgone => hseen (Or.inr hgone)⟩
  exact PathSet.contains_iff_mem_places.2 hread

/-- The writing stage makes and changes no layout file. -/
theorem hasFile_writeStage (opts : CompileOptions) (t : Tree) (files : PathSet) {p : Path}
    {f : LayoutFile} (hf : LayoutFile.ofPath? p = some f) :
    (writeStage opts t files).store.hasFile p.location = t.hasFile p.location := by
  rw [LayoutFile.location_of_ofPath? hf, Tree.hasFile, Tree.hasFile,
    (writeStage_changedAt opts t files []).textAt?_variant (fun m hm => slash_notMem_runNames hm)
      (LayoutFile.steps_of_ofPath? hf).1]

section

variable {opts : CompileOptions} {t : Tree} (ht : t.Spelled) {files : PathSet} {removed : List Path}
  {listed : PathSet}
  (hlisted : allLayoutFiles (writeStage opts t files).store opts.resDirs = .ok listed)
include ht hlisted

/-- What is listed after the writing stage under a name was there before the run. -/
theorem holdsLayout_of_contains {p : Path} (hp : listed.contains p = true) (hname : p.stem ≠ "") :
    t.HoldsLayout opts.resDirs p := by
  have hspelled := (writeStage_changedAt opts t files []).spelled ht
  rcases holds_of_listed hspelled hlisted hp with hlayout | hunnamed
  · obtain ⟨f, hf, -⟩ := hlayout.root
    exact ⟨hasFile_writeStage opts t files hf ▸ hlayout.file, hlayout.candidate, hlayout.root⟩
  · obtain ⟨r, -, v, -, hsteps⟩ := hunnamed.place
    refine absurd ?_ hname
    rw [Path.stem_eq_stemAt, hsteps]
    simp [Path.stemAt]

/-- A layout file that was there before the run is listed after the writing stage, unless a
directory was created at its place. -/
theorem contains_of_holdsLayout_before {p : Path} (hp : t.HoldsLayout opts.resDirs p)
    (hdir : (writeStage opts t files).store.hasDir p.location = false) :
    listed.contains p = true := by
  have hspelled := (writeStage_changedAt opts t files []).spelled ht
  obtain ⟨f, hf, -⟩ := hp.root
  have hfile := (hasFile_writeStage opts t files hf).trans hp.file
  exact contains_of_holdsLayout hspelled hlisted ⟨hfile, hp.candidate, hp.root⟩ hdir

/-- A layout is backed only by a file of it that the run does not see. -/
theorem notMem_backedNames_of_seen {n : String} (hn : n ≠ "")
    (hseen : ∀ p, t.HoldsLayout opts.resDirs p → p.stem = n → IsSeen files removed p) :
    n ∉ backedNames listed files removed := by
  intro hback
  obtain ⟨k, hk, rfl, hread, hgone⟩ := mem_backedNames_iff.1 hback
  obtain ⟨p, hp, rfl⟩ := List.mem_map.1 hk
  rw [← Path.stem_eq_stemAt] at hn
  have hthere := holdsLayout_of_contains ht hlisted (PathSet.contains_iff_mem_places.2 hk) hn
  rcases hseen p hthere p.stem_eq_stemAt with hseen | hseen
  · exact hread (PathSet.contains_iff_mem_places.1 hseen)
  · exact hgone hseen

end

/-- **A run leaves the holder of a layout without views alone if a file outside the run backs it**,
unless another layout of the run has its class name. -/
theorem run_keeps_backed {opts : CompileOptions} {t : Tree} {mode : CompileMode} {files : PathSet}
    {removed : List Path} {report : Report}
    (h : (run opts mode files removed t).result = .ok report) {n : String}
    (hn : n ∈ runNames files removed)
    (hviews : ∀ l, t.merged? opts (files.places.filter (Path.stemAt · == n)) = some l →
      l.views = [])
    (hclass : ∀ m ∈ runNames files removed, Holder.className m = Holder.className n → m = n)
    {listed : PathSet}
    (hlisted : allLayoutFiles (writeStage opts t files).store opts.resDirs = .ok listed)
    (hback : n ∈ backedNames listed files removed) :
    (run opts mode files removed t).store.textAt? (holderLocation opts n) =
      t.textAt? (holderLocation opts n) := by
  obtain ⟨-, ⟨outputs, hwrite⟩, ⟨pruned, hok⟩, hstore⟩ := run_eq_ok h
  have hshare {m : String} (hm : m ∈ runNames files removed)
      (hloc : holderLocation opts m = holderLocation opts n) : m = n :=
    hclass m hm (location_holderPath_inj (slash_notMem_runNames hm) (slash_notMem_runNames hn) hloc)
  have hwritten : (writeStage opts t files).store.textAt? (holderLocation opts n) =
      t.textAt? (holderLocation opts n) := by
    rw [writeStage_placed hwrite, placeHolders_apply, List.filter_eq_nil_iff.2]
    · rfl
    · intro l hl hloc
      obtain ⟨hmem, hfilled⟩ := List.mem_filter.1 hl
      obtain rfl : l.name = n := hshare
        (List.mem_append_left _ (name_mem_of_mem_catalogAt hmem)) (by simpa using hloc)
      rw [catalogAt, Catalog.mem_layouts_iff, Tree.find?_catalog] at hmem
      simp [Layout.isEmpty, hviews l hmem] at hfilled
  rw [hstore, ← hwritten, pruneStage, prune_eq]
  rw [pruneStage, prune_eq] at hok
  cases hnames : unbackedNames opts (writeStage opts t files).store files
      (staleNames (catalogAt t opts files) (catalogAt t opts files).emptyNames removed) removed with
  | error e => rfl
  | ok names =>
    rw [hnames] at hok
    refine (congrFun (pruneAll_dropped hok) _).trans (dropHolders_of_notMem ?_ _)
    rintro ⟨m, hm, hloc⟩
    obtain ⟨-, hstale, hunbacked⟩ := (mem_unbackedNames_iff hnames).1 hm
    obtain rfl : m = n := hshare (staleNames_subset hstale) hloc.symm
    exact hunbacked listed hlisted hback

/-! ### Stale holders of incremental runs -/

section

variable {t : Tree} {changed removed : List Path} {files : PathSet}
  (hfiles : affectedFiles t changed removed = .ok files)
include hfiles

/-- Where the roots and the reports of a layout agree on their start, a run sees the files of the
layout that are at the locations of those it reads. -/
theorem isSeen_of_location {roots : List Path} {n : String}
    (hstart : ∀ r ∈ roots, ∀ e ∈ touchedFiles changed removed, e.layoutName = n →
      (r.StartsHere ↔ e.path.StartsHere))
    {p q : Path} (hp : t.HoldsLayout roots p) (hname : p.stem = n)
    (hq : files.contains q = true) (hloc : q.location = p.location) :
    IsSeen files removed p := by
  obtain ⟨f, hf, r, hr, hroot⟩ := hp.root
  obtain ⟨-, hsteps⟩ := LayoutFile.steps_of_ofPath? hf
  obtain ⟨e', he', e, he, v, -, hqsteps⟩ := exists_touched_of_affected hfiles hq
  obtain rfl : e.path = e' := LayoutFile.path_of_ofPath? he
  obtain ⟨-, hesteps⟩ := LayoutFile.steps_of_ofPath? he
  have hfileName : e.fileName = f.fileName := by
    have hlast := LayoutFile.location_of_ofPath? hf
    rw [← hloc, Path.location_eq_of_steps hqsteps (by simp)] at hlast
    simpa using (List.cons.inj (List.append_inj' hlast rfl).2).2
  have hename : e.layoutName = n := by
    rw [LayoutFile.layoutName_of_ofPath? he, ← hname, Path.stem_eq_stemAt, Path.stem_eq_stemAt,
      hesteps, hsteps, hfileName]
    simp [Path.stemAt]
  have hagree : p.StartsHere ↔ q.StartsHere := by
    rw [Path.startsHere_of_steps (hroot ▸ hsteps), Path.startsHere_of_steps hqsteps,
      ← Path.startsHere_of_steps hesteps]
    exact hstart r hr e (List.mem_filterMap.2 ⟨_, he', he⟩) hename
  have hsame : p.steps = q.steps := Path.steps_eq_of_location hloc.symm hagree
  rw [IsSeen, PathSet.contains_iff_mem_places, hsame]
  exact Or.inl (PathSet.contains_iff_mem_places.1 hq)

end

/-- **Which stale holders an incremental run prunes.**  Let an incremental run with pruning succeed
that merges no view for the layout `n` of a touched file.  If every listed file of the layout has
the steps of a file that the run reads, or of one that is reported as removed, there is no holder of
the layout afterwards.  So it is if every listed file of the layout is at the location of a file
that the run reads, and the roots and the reports of the layout agree on starting with a step to the
current directory.  But a listed file that the run does not see keeps the holder, unless another
layout of the run has its class name, or the run has created a directory at the place of the
file. -/
theorem compileIncremental_stale {opts : CompileOptions} (hprune : opts.pruneStale = true)
    {t : Tree} (ht : t.Spelled) (hproper : t.Proper) {changed removed : List Path}
    {files : PathSet} (hfiles : affectedFiles t changed removed = .ok files) {report : Report}
    (hok : (compileIncremental opts changed removed t).result = .ok report) {n : String}
    (hn : ∃ f ∈ touchedFiles changed removed, f.layoutName = n)
    (hviews : ∀ l, t.merged? opts (files.places.filter (Path.stemAt · == n)) = some l →
      l.views = []) :
    ((∀ p, t.HoldsLayout opts.resDirs p → p.stem = n → IsSeen files removed p) →
      (compileIncremental opts changed removed t).store.textAt? (holderLocation opts n) = none) ∧
    ((∀ p, t.HoldsLayout opts.resDirs p → p.stem = n →
        ∃ q, files.contains q = true ∧ q.location = p.location) →
      (∀ r ∈ opts.resDirs, ∀ e ∈ touchedFiles changed removed, e.layoutName = n →
        (r.StartsHere ↔ e.path.StartsHere)) →
      (compileIncremental opts changed removed t).store.textAt? (holderLocation opts n) = none) ∧
    ((∀ m ∈ runNames files removed, Holder.className m = Holder.className n → m = n) →
      ∀ p, t.HoldsLayout opts.resDirs p → p.stem = n → ¬ IsSeen files removed p →
        (compileIncremental opts changed removed t).store.hasDir p.location = false →
        (compileIncremental opts changed removed t).store.textAt? (holderLocation opts n) =
          t.textAt? (holderLocation opts n)) := by
  obtain ⟨f, hf, rfl⟩ := hn
  have hne : f.layoutName ≠ "" := by
    obtain ⟨p, -, hfp⟩ := List.mem_filterMap.1 hf
    rw [LayoutFile.layoutName_of_ofPath? hfp]
    exact LayoutFile.stem_ne_empty hfp
  have hname := layoutName_mem_runNames hfiles hf
  obtain ⟨files', hfiles', hrun, hstore⟩ := compileIncremental_eq_ok hok
  obtain rfl : files = files' := Except.ok.inj (hfiles.symm.trans hfiles')
  obtain ⟨listed, hlisted, hgone⟩ := run_pruned hrun hprune hname hviews
  have hpruned (hseen : ∀ p, t.HoldsLayout opts.resDirs p → p.stem = f.layoutName →
      IsSeen files removed p) := hgone (notMem_backedNames_of_seen ht hlisted hne hseen)
  rw [hstore]
  refine ⟨hpruned, fun hread hstart => hpruned fun p hp hpname => ?_,
    fun hclass p hp hpname hseen hdir => ?_⟩
  · obtain ⟨q, hq, hloc⟩ := hread p hp hpname
    exact isSeen_of_location hfiles hstart hp hpname hq hloc
  · obtain ⟨-, -, -, hstage⟩ := run_eq_ok hrun
    have hbefore : (writeStage opts t files).store.hasDir p.location = false :=
      Bool.eq_false_iff.2 fun h => by
        have hstill := hasDir_pruneStage opts files removed (hproper _ hp.file) h
        rw [← hstage, hdir] at hstill
        cases hstill
    have hback := mem_backedNames_of_contains
      (contains_of_holdsLayout_before ht hlisted hp hbefore) hseen
    exact run_keeps_backed hrun hname hviews hclass hlisted (hpname ▸ hback)

/-- A layout without views and a holder of it. -/
def staleLayout : Tree :=
  .ofFiles [(⟨"res/layout/main.xml"⟩, "<a/>"), (holderPath sampleOptions "main", "x")]

/-- The only layout file is at the location of its two spellings. -/
theorem location_of_holdsLayout_staleLayout {p : Path}
    (hp : staleLayout.HoldsLayout sampleOptions.resDirs p) :
    p.location = Path.location ⟨"res/layout/main.xml"⟩ := by
  have hfiles : ∀ e ∈ staleLayout.files, e.1 = Path.location ⟨"res/layout/main.xml"⟩ ∨
      e.1 = holderLocation sampleOptions "main" := by decide +kernel
  obtain ⟨e, he, hloc⟩ := Tree.hasFile_iff_mem.1 hp.file
  rw [← hloc]
  refine (hfiles e he).resolve_right fun hholder => ?_
  obtain ⟨f, hf, -⟩ := hp.root
  rw [hloc, LayoutFile.location_of_ofPath? hf] at hholder
  exact location_holderPath_ne (by simp) (LayoutFile.steps_of_ofPath? hf).1 hholder.symm

/-- Two spellings of the layout file: with the steps of the listing, and with other steps. -/
def mainSpellings : List Path := [⟨"res//layout/main.xml"⟩, ⟨"./res/layout/main.xml"⟩]

/-- What an incremental run does if the layout file is reported in one of its spellings. -/
theorem staleLayout_eval : ∀ p ∈ mainSpellings,
    (affectedFiles staleLayout [p] []).toOption.map (fun files => (files.toList, runNames files [],
        staleLayout.merged? sampleOptions (files.places.filter (Path.stemAt · == "main")))) =
      some ([p], ["main"], some ⟨"main", []⟩) ∧
    (compileIncremental sampleOptions [p] [] staleLayout).result.isOk = true ∧
    (∃ f ∈ touchedFiles [p] [], f.layoutName = "main") ∧
    p.location = Path.location ⟨"res/layout/main.xml"⟩ := by
  decide +kernel

/-- The run over the layout file, reported in one of its spellings, finds no view. -/
theorem exists_affectedFiles_staleLayout {p : Path} (hp : p ∈ mainSpellings) : ∃ files report,
    affectedFiles staleLayout [p] [] = .ok files ∧
    (compileIncremental sampleOptions [p] [] staleLayout).result = .ok report ∧
    files.toList = [p] ∧ runNames files [] = ["main"] ∧
    ∀ l, staleLayout.merged? sampleOptions (files.places.filter (Path.stemAt · == "main")) =
      some l → l.views = [] := by
  obtain ⟨hread, hrun, -⟩ := staleLayout_eval p hp
  obtain ⟨files, hfiles, hparts⟩ := exists_ok_of_map hread
  obtain ⟨report, hok⟩ := exists_eq_ok hrun
  simp only [Prod.mk.injEq] at hparts
  obtain ⟨hlist, hnames, hmerged⟩ := hparts
  refine ⟨files, report, hfiles, hok, hlist, hnames, fun l hl => ?_⟩
  rw [← Option.some.inj (hmerged.symm.trans hl)]

theorem compileIncremental_stale_staleLayout :
    (compileIncremental sampleOptions [⟨"res//layout/main.xml"⟩] [] staleLayout).store.textAt?
      (holderLocation sampleOptions "main") = none ∧
    (compileIncremental sampleOptions [⟨"./res/layout/main.xml"⟩] [] staleLayout).store.textAt?
      (holderLocation sampleOptions "main") = some "x" := by
  have hspelled : staleLayout.Spelled := Tree.spelled_ofFiles _
  have hproper : staleLayout.Proper := by decide +kernel
  constructor
  · have hmem : (⟨"res//layout/main.xml"⟩ : Path) ∈ mainSpellings := by simp [mainSpellings]
    obtain ⟨files, report, hfiles, hok, hlist, -, hviews⟩ := exists_affectedFiles_staleLayout hmem
    obtain ⟨-, -, hn, hloc⟩ := staleLayout_eval _ hmem
    obtain ⟨-, hpruned, -⟩ :=
      compileIncremental_stale rfl hspelled hproper hfiles hok hn hviews
    refine hpruned (fun p hp _ => ⟨_, PathSet.contains_iff.2 ⟨_, ?_, rfl⟩,
      hloc.trans (location_of_holdsLayout_staleLayout hp).symm⟩) ?_
    · rw [hlist]
      exact List.mem_cons_self
    · decide +kernel
  · have hmem : (⟨"./res/layout/main.xml"⟩ : Path) ∈ mainSpellings := by simp [mainSpellings]
    obtain ⟨files, report, hfiles, hok, hlist, hnames, hviews⟩ :=
      exists_affectedFiles_staleLayout hmem
    obtain ⟨-, -, hn, -⟩ := staleLayout_eval _ hmem
    obtain ⟨-, -, hkept⟩ := compileIncremental_stale rfl hspelled hproper hfiles hok hn hviews
    obtain ⟨f, hf⟩ := Option.isSome_iff_exists.1
      (by decide +kernel : (LayoutFile.ofPath? ⟨"res/layout/main.xml"⟩).isSome = true)
    have hroot : (LayoutFile.ofPath? ⟨"res/layout/main.xml"⟩).map (·.root.steps) =
        some (Path.steps ⟨"res"⟩) := by decide +kernel
    rw [hf] at hroot
    have hthere : staleLayout.HoldsLayout sampleOptions.resDirs ⟨"res/layout/main.xml"⟩ :=
      ⟨by decide +kernel, by decide +kernel, f, hf, ⟨"res"⟩, List.mem_singleton_self _,
        Option.some.inj hroot⟩
    have hunseen : ¬ IsSeen files [] ⟨"res/layout/main.xml"⟩ := by
      rw [IsSeen, PathSet.contains_iff_mem_places, PathSet.places, hlist]
      decide +kernel
    refine (hkept ?_ _ hthere (by decide +kernel) hunseen (by decide +kernel)).trans
      (by decide +kernel)
    rw [hnames]
    simp

/-- A stale holder stays if the only file of its layout, which the run reads, is reported in another
spelling than that of the listing. -/
theorem compileIncremental_keeps_stale :
    (staleLayout.Spelled ∧ sampleOptions.pruneStale = true) ∧
    (affectedFiles staleLayout [⟨"./res/layout/main.xml"⟩] []).toOption.map PathSet.toList =
      some [⟨"./res/layout/main.xml"⟩] ∧
    (compileIncremental sampleOptions [⟨"./res/layout/main.xml"⟩] [] staleLayout).result.toOption =
      some ⟨1, [], [], ["main"], []⟩ ∧
    (∀ p, staleLayout.HoldsLayout sampleOptions.resDirs p →
      p.location = Path.location ⟨"./res/layout/main.xml"⟩) ∧
    (compileIncremental sampleOptions [⟨"./res/layout/main.xml"⟩] [] staleLayout).store.hasFile
      (holderPath sampleOptions "main").location = true := by
  refine ⟨⟨Tree.spelled_ofFiles _, rfl⟩, by decide +kernel, by decide +kernel, fun p hp => ?_,
    by decide +kernel⟩
  exact (location_of_holdsLayout_staleLayout hp).trans (by decide +kernel)

end ViewHolder
