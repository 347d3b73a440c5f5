import ViewHolder.Proofs.Edits
import ViewHolder.Proofs.Incremental

/-!
# Holders over whole runs

With pruning, the files below the output directory are the holders of the layouts that have a view,
after a full run and after every incremental run that is told of all edits.

## Main definitions

* `PrunesRoot` : a project with pruning and one resource root, apart from its output directory.
* `PrunedRun` : a full run and any number of edits, each followed by an incremental run.
* `TracksHolders` : the invariant of such a run.

## Main results

* `run_tracks` : one successful run settles the holders of the layouts that it is about.
* `PrunedRun.holders` : the files below the output directory after a whole run.
-/

namespace ViewHolder

/-- A project with pruning and one resource root, which lies neither above nor below the output
directory. -/
structure PrunesRoot (opts : CompileOptions) (r : Path) : Prop where
  /-- Stale holders are deleted. -/
  prune : opts.pruneStale = true
  /-- There is one resource root. -/
  resDirs : opts.resDirs = [r]
  /-- The package is no path. -/
  package : '/' ∉ opts.package.toList
  /-- The output directory is not below the resource root. -/
  output_notBelow : ¬ r.location <+: opts.outputDir.location
  /-- The resource root is not below the output directory. -/
  root_notBelow : ¬ opts.outputDir.location <+: r.location

theorem PrunesRoot.notBelow_output {opts : CompileOptions} {r : Path} (h : PrunesRoot opts r)
    (l : Location) : ¬ opts.outputDir.location <+: r.location ++ l := by
  intro hbelow
  rcases List.prefix_or_prefix_of_prefix hbelow (List.prefix_append r.location l) with hpre | hpre
  · exact h.root_notBelow hpre
  · exact h.output_notBelow hpre

/-! ### One run -/

/-- A run that reads all variants of the layouts that it is about. -/
structure ReadsVariants (t : Tree) (r : Path) (files : PathSet) (removed : List Path) : Prop where
  /-- The layouts have names. -/
  ne_empty : ∀ n ∈ runNames files removed, n ≠ ""
  /-- The files of a layout are its variants. -/
  mem_iff : ∀ n ∈ runNames files removed, ∀ k,
    (k ∈ files.places ∧ Path.stemAt k = n) ↔ k ∈ t.variantPlaces r (sourceName n)

section

variable {opts : CompileOptions} {r : Path} {t : Tree} {mode : CompileMode} {files : PathSet}
  {removed : List Path} {report : Report} (h : PrunesRoot opts r) (ht : t.Spelled)
  (hsources : t.OnlySources r) (hvariants : ReadsVariants t r files removed)
include h ht hsources hvariants

/-- No file that the writing stage leaves in the root backs a layout that the run is about. -/
private theorem notMem_backedNames {n : String} (hn : n ∈ runNames files removed)
    {listed : PathSet}
    (hlisted : allLayoutFiles (writeStage opts t files).store opts.resDirs = .ok listed) :
    n ∉ backedNames listed files removed := by
  have hchange := writeStage_changedAt opts t files removed
  intro hback
  obtain ⟨k, hk, hstem, hout, -⟩ := mem_backedNames_iff.1 hback
  rw [h.resDirs] at hlisted
  obtain ⟨r', hr', v, x, hv, hsteps, hfile, -, -⟩ := (mem_allLayoutFiles (hchange.spelled ht)
    hlisted (hstem ▸ hvariants.ne_empty n hn)).1 hk
  obtain rfl : r' = r := List.mem_singleton.1 hr'
  have hthere : t.hasFile (r'.location ++ [.name v, .name x]) = true := by
    rwa [Tree.hasFile, ← hchange.textAt?_variant (fun m hm => slash_notMem_runNames hm) hv]
  obtain ⟨-, m, hm, hhidden⟩ := hsources v _ hv hthere
  obtain rfl : x = sourceName m := Step.name.inj hm
  have hmem := (Tree.mem_variantPlaces ht).2 ⟨v, hv, rfl, hthere⟩
  obtain rfl : m = n := by
    rw [← stemAt_of_mem_variantPlaces ht hhidden hmem, ← hsteps, hstem]
  obtain ⟨hcandidate, -⟩ := (hvariants.mem_iff m hn _).2 hmem
  exact hout (hsteps ▸ hcandidate)

/-- **A successful run settles the holders of its layouts**: a holder is there exactly if its layout
has a view. -/
theorem run_tracks (hok : (run opts mode files removed t).result = .ok report) {n : String}
    (hn : n ∈ runNames files removed) (hclass : ∀ m ∈ runNames files removed,
      Holder.className m = Holder.className n → m = n) :
    (run opts mode files removed t).store.hasFile (holderLocation opts n) = true ↔
      t.HasView opts r n := by
  have hmem (k : List Step) : k ∈ files.places.filter (Path.stemAt · == n) ↔
      k ∈ t.variantPlaces r (sourceName n) := by
    rw [List.mem_filter, beq_iff_eq, hvariants.mem_iff n hn]
  by_cases hview : t.HasView opts r n
  · obtain ⟨v, hv, l, hl, hviews⟩ := hview
    have hk := (hmem (variantPlace r v n)).2
      ((Tree.mem_variantPlaces ht).2 ⟨v, hv, rfl, Tree.hasFile_variant hl⟩)
    obtain ⟨merged, hmerged⟩ := Tree.exists_merged? hk hl
    have hsource := run_source hok hmerged
      ((Tree.views_merged?_ne_nil hmerged).2 ⟨_, hk, l, hl, hviews⟩) hclass
    exact iff_of_true (Tree.hasFile_iff.2 ⟨_, hsource⟩) ⟨v, hv, l, hl, hviews⟩
  · obtain ⟨listed, hlisted, hgone⟩ := run_pruned hok h.prune hn fun merged hmerged => by
      by_contra hviews
      obtain ⟨k, hk, l, hl, hviews⟩ := (Tree.views_merged?_ne_nil hmerged).1 hviews
      obtain ⟨v, hv, rfl, -⟩ := (Tree.mem_variantPlaces ht).1 ((hmem k).1 hk)
      exact hview ⟨v, hv, l, hl, hviews⟩
    have hnone := hgone (notMem_backedNames h ht hsources hvariants hn hlisted)
    refine iff_of_false ?_ hview
    rw [Tree.hasFile, hnone]
    exact Bool.false_ne_true

end

theorem ne_empty_of_not_hidden {n : String} (hn : isHiddenName (sourceName n) = false) : n ≠ "" :=
  fun h => toList_ne_nil_of_not_hidden hn (String.toList_eq_nil_iff.2 h)

section

variable {t : Tree} {r : Path} {changed removed : List Path} {files : PathSet} (ht : t.Spelled)
include ht

/-- A full run reads all variants. -/
theorem readsVariants_listed (hsources : t.OnlySources r)
    (h : allLayoutFiles t [r] = .ok files) : ReadsVariants t r files [] := by
  refine ⟨fun n hn => ?_, fun n _ k => ?_⟩
  · exact ne_empty_of_not_hidden (hsources.not_hidden (hasLayout_of_mem_runNames ht hsources h hn))
  · rw [← listed_variants ht hsources h, List.mem_filter, beq_iff_eq]

/-- A full run is about every layout that has a file. -/
theorem mem_runNames_of_hasLayout (hsources : t.OnlySources r)
    (h : allLayoutFiles t [r] = .ok files) {n : String} (hn : t.HasLayout r n) :
    n ∈ runNames files [] := by
  obtain ⟨v, hv, hfile⟩ := hn
  have hmem := (Tree.mem_variantPlaces ht).2 ⟨v, hv, rfl, hfile⟩
  rw [← listed_variants ht hsources h, List.mem_filter, beq_iff_eq] at hmem
  exact List.mem_append_left _ (List.mem_map.2 ⟨_, hmem⟩)

/-- An incremental run reads all variants of the reported layouts. -/
theorem readsVariants_affected (hreport : IsReport t r changed removed)
    (h : affectedFiles t changed removed = .ok files) : ReadsVariants t r files removed := by
  refine ⟨fun n hn => ?_, fun n hn k => ?_⟩
  · obtain ⟨p, hp, rfl⟩ := exists_reported_of_mem_runNames ht hreport.hasFile hreport.gone h hn
    exact ne_empty_of_not_hidden (hreport.isListed hp).steps_eq.1
  · have hreported := exists_reported_of_mem_runNames ht hreport.hasFile hreport.gone h hn
    have hmem : k ∈ reportedFirst (changed.map Path.steps) (t.variantPlaces r (sourceName n)) ↔
        k ∈ t.variantPlaces r (sourceName n) := mem_reportedFirst
    rw [← hmem, ← affected_variants ht hreport h hreported, List.mem_filter, beq_iff_eq]

/-- An incremental run is about every reported layout. -/
theorem mem_runNames_of_reported (hreport : IsReport t r changed removed)
    (h : affectedFiles t changed removed = .ok files) {p : Path} (hp : p ∈ changed ++ removed) :
    p.stem ∈ runNames files removed := by
  rcases List.mem_append.1 hp with hc | hr
  · obtain ⟨hlisted, hfile⟩ := hreport.changed p hc
    have hmem : p.steps ∈ reportedFirst (changed.map Path.steps)
        (t.variantPlaces r (sourceName p.stem)) :=
      mem_reportedFirst.2 ((hlisted.mem_variantPlaces ht hfile).2 rfl)
    rw [← affected_variants ht hreport h ⟨p, hp, rfl⟩] at hmem
    rw [Path.stem_eq_stemAt]
    exact List.mem_append_left _ (List.mem_map_of_mem (List.mem_filter.1 hmem).1)
  · obtain ⟨f, hf, -, -, hpath⟩ := (hreport.isListed hp).exists_ofPath?
    refine List.mem_append_right _ (List.mem_map.2 ⟨f, List.mem_filterMap.2 ⟨p, hr, hf⟩, ?_⟩)
    rw [LayoutFile.layoutName, hpath]

end

/-! ### Whole runs -/

/-- A full run, and any number of steps in each of which sources are edited and an incremental run
succeeds that is told of all edits.  All layouts have names among `names`. -/
inductive PrunedRun (opts : CompileOptions) (r : Path) (names : String → Prop) : Tree → Prop
  /-- The full run, over a tree without files below the output directory. -/
  | start {t : Tree} {report : Report} (spelled : t.Spelled) (sources : t.OnlySources r)
      (named : ∀ n, t.HasLayout r n → names n)
      (clean : ∀ l, opts.outputDir.location <+: l → t.hasFile l = false)
      (ok : (compile opts [r] t).result = .ok report) :
      PrunedRun opts r names (compile opts [r] t).store
  /-- Edits and the incremental run after them. -/
  | step {t : Tree} {edits : List Edit} {changed removed : List Path} {report : Report}
      (before : PrunedRun opts r names t) (sources : (t.edit edits).OnlySources r)
      (reported : IsReport (t.edit edits) r changed removed)
      (complete : ∀ e ∈ edits, ∃ p ∈ changed ++ removed, p.location = e.file.location)
      (named : ∀ p ∈ changed ++ removed, names p.stem)
      (ok : (compileIncremental opts changed removed (t.edit edits)).result = .ok report) :
      PrunedRun opts r names (compileIncremental opts changed removed (t.edit edits)).store

/-- The files below the output directory are the holders of the layouts that have a view. -/
structure TracksHolders (opts : CompileOptions) (r : Path) (names : String → Prop) (t : Tree) :
    Prop where
  /-- Every place is where some path leads. -/
  spelled : t.Spelled
  /-- The layouts have names among the given ones. -/
  named : ∀ n, t.HasLayout r n → names n
  /-- The holders are there, and nothing else. -/
  holders : ∀ l, (opts.outputDir.location <+: l ∧ t.hasFile l = true) ↔
    ∃ n, t.HasView opts r n ∧ l = holderLocation opts n

section

variable {opts : CompileOptions} {r : Path} {names : String → Prop} (h : PrunesRoot opts r)
  (hnames : ∀ m n, names m → names n → Holder.className m = Holder.className n → m = n)
include h hnames

/-- A run leads from a tree whose other holders are right to one whose holders are all right. -/
theorem TracksHolders.of_run {t : Tree} {mode : CompileMode} {files : PathSet}
    {removed : List Path} {report : Report} (ht : t.Spelled) (hsources : t.OnlySources r)
    (hnamed : ∀ n, t.HasLayout r n → names n) (hrunNames : ∀ n ∈ runNames files removed, names n)
    (hvariants : ReadsVariants t r files removed)
    (hok : (run opts mode files removed t).result = .ok report)
    (hothers : ∀ l, (∀ n ∈ runNames files removed, l ≠ holderLocation opts n) →
      ((opts.outputDir.location <+: l ∧ t.hasFile l = true) ↔
        ∃ n, t.HasView opts r n ∧ l = holderLocation opts n)) :
    TracksHolders opts r names (run opts mode files removed t).store := by
  have hchange := run_changedAt opts t mode files removed
  have hslash : ∀ m ∈ runNames files removed, '/' ∉ m.toList := fun m hm => slash_notMem_runNames hm
  have hview (n : String) : (run opts mode files removed t).store.HasView opts r n ↔
      t.HasView opts r n :=
    Tree.hasView_congr fun v hv => hchange.layoutAt?_eq hslash hv
  refine ⟨hchange.spelled ht, fun n hn => ?_, fun l => ?_⟩
  · exact hnamed n ((hchange.hasLayout_iff hslash).1 hn)
  · by_cases htouched : ∃ n ∈ runNames files removed, l = holderLocation opts n
    · obtain ⟨n, hn, hl⟩ := htouched
      rw [hl]
      have htracks := run_tracks h ht hsources hvariants hok hn fun m hm =>
        hnames m n (hrunNames m hm) (hrunNames n hn)
      rw [htracks]
      constructor
      · rintro ⟨-, hn⟩
        exact ⟨n, (hview n).2 hn, rfl⟩
      · rintro ⟨m, hm, hloc⟩
        have hm := (hview m).1 hm
        obtain rfl : n = m := hnames n m (hrunNames n hn) (hnamed m hm.hasLayout)
          (location_holderPath_inj (hslash n hn) (hm.hasLayout.slash_notMem ht) hloc)
        exact ⟨below_outputDir h.package (hslash n hn), hm⟩
    · have huntouched : ∀ n ∈ runNames files removed, l ≠ holderLocation opts n :=
        fun n hn hl => htouched ⟨n, hn, hl⟩
      rw [Tree.hasFile, hchange.textAt l htouched]
      refine (hothers l huntouched).trans (exists_congr fun n => ?_)
      rw [hview]

omit h hnames in
/-- Edited files are variants of reported layouts. -/
private theorem exists_reported_of_edited {t : Tree} {edits : List Edit}
    {changed removed : List Path} (hreport : IsReport (t.edit edits) r changed removed)
    (hcomplete : ∀ e ∈ edits, ∃ p ∈ changed ++ removed, p.location = e.file.location)
    {l : Location} (hl : ∃ e ∈ edits, l = e.file.location) :
    ∃ p ∈ changed ++ removed, ∃ v, isVariantName v = true ∧ l = variantLocation r v p.stem := by
  obtain ⟨e, he, rfl⟩ := hl
  obtain ⟨p, hp, hloc⟩ := hcomplete e he
  obtain ⟨-, v, hv, hsteps⟩ := (hreport.isListed hp).steps_eq
  exact ⟨p, hp, v, hv, hloc ▸ Path.location_eq_of_steps hsteps (by simp)⟩

/-- The full run establishes the invariant. -/
theorem TracksHolders.start {t : Tree} {report : Report} (ht : t.Spelled)
    (hsources : t.OnlySources r) (hnamed : ∀ n, t.HasLayout r n → names n)
    (hclean : ∀ l, opts.outputDir.location <+: l → t.hasFile l = false)
    (hok : (compile opts [r] t).result = .ok report) :
    TracksHolders opts r names (compile opts [r] t).store := by
  obtain ⟨files, hfiles, hrun, hstore⟩ := compile_eq_ok hok
  rw [hstore]
  refine .of_run h hnames ht hsources hnamed
    (fun n hn => hnamed n (hasLayout_of_mem_runNames ht hsources hfiles hn))
    (readsVariants_listed ht hsources hfiles) hrun fun l hothers => iff_of_false ?_ ?_
  · rintro ⟨hbelow, hfile⟩
    rw [hclean l hbelow] at hfile
    cases hfile
  · rintro ⟨n, hview, hl⟩
    exact hothers n (mem_runNames_of_hasLayout ht hsources hfiles hview.hasLayout) hl

/-- Edits and the incremental run after them preserve the invariant. -/
theorem TracksHolders.step {t : Tree} {edits : List Edit} {changed removed : List Path}
    {report : Report} (hbefore : TracksHolders opts r names t)
    (hsources : (t.edit edits).OnlySources r)
    (hreport : IsReport (t.edit edits) r changed removed)
    (hcomplete : ∀ e ∈ edits, ∃ p ∈ changed ++ removed, p.location = e.file.location)
    (hnamed : ∀ p ∈ changed ++ removed, names p.stem)
    (hok : (compileIncremental opts changed removed (t.edit edits)).result = .ok report) :
    TracksHolders opts r names (compileIncremental opts changed removed (t.edit edits)).store := by
  have hchange := t.edit_changedAt edits
  have hedited {l : Location} := exists_reported_of_edited hreport hcomplete (l := l)
  have ht : (t.edit edits).Spelled := hchange.spelled hbefore.spelled
  obtain ⟨files, hfiles, hrun, hstore⟩ := compileIncremental_eq_ok hok
  have hunedited {n : String} (hn : ∀ p ∈ changed ++ removed, p.stem ≠ n) {v : String} :
      (t.edit edits).textAt? (variantLocation r v n) = t.textAt? (variantLocation r v n) := by
    refine hchange.textAt _ fun hl => ?_
    obtain ⟨p, hp, w, -, hloc⟩ := hedited hl
    have hname := (List.cons.inj (List.append_cancel_left hloc)).2
    exact hn p hp (sourceName_injective (by simpa using hname.symm))
  have hnamed' (n : String) (hn : (t.edit edits).HasLayout r n) : names n := by
    by_cases htouched : ∃ p ∈ changed ++ removed, p.stem = n
    · obtain ⟨p, hp, rfl⟩ := htouched
      exact hnamed p hp
    · refine hbefore.named n ((Tree.hasLayout_congr fun v _ => ?_).1 hn)
      exact hunedited fun p hp hpn => htouched ⟨p, hp, hpn⟩
  rw [hstore]
  refine .of_run h hnames ht hsources hnamed' (fun n hn => ?_)
    (readsVariants_affected ht hreport hfiles) hrun fun l hothers => ?_
  · obtain ⟨p, hp, rfl⟩ := exists_reported_of_mem_runNames ht hreport.hasFile hreport.gone hfiles hn
    exact hnamed p hp
  · have huntouched {n : String} (hl : l = holderLocation opts n) :
        (t.edit edits).HasView opts r n ↔ t.HasView opts r n := by
      refine Tree.hasView_congr fun v _ => Tree.layoutAt?_eq_of_text (hunedited fun p hp hpn => ?_)
      exact hothers n (hpn ▸ mem_runNames_of_reported ht hreport hfiles hp) hl
    have hsame : opts.outputDir.location <+: l → (t.edit edits).hasFile l = t.hasFile l := by
      intro hbelow
      rw [Tree.hasFile, Tree.hasFile, hchange.textAt l fun hl => ?_]
      obtain ⟨p, -, v, -, rfl⟩ := hedited hl
      exact h.notBelow_output _ hbelow
    rw [and_congr_right fun hbelow => by rw [hsame hbelow], hbefore.holders l]
    exact exists_congr fun n => and_congr_left fun hl => (huntouched hl).symm

/-- **The files below the output directory are the holders of the layouts that have a view**, after
the full run and after every step of the run. -/
theorem PrunedRun.holders {t : Tree} (run : PrunedRun opts r names t) (l : Location) :
    (opts.outputDir.location <+: l ∧ t.hasFile l = true) ↔
      ∃ n, t.HasView opts r n ∧ l = (holderPath opts n).location := by
  have htracks : TracksHolders opts r names t := by
    induction run with
    | start spelled sources named clean ok => exact .start h hnames spelled sources named clean ok
    | step before sources reported complete named ok ih =>
      exact ih.step h hnames sources reported complete named ok
  exact htracks.holders l

end

/-- A layout with two variants disappears and another one appears. -/
def replaceLayout : List Edit :=
  [.remove (sampleFile "layout" "main"), .write (sampleFile "layout-land" "item") (sampleText "b"),
    .remove (sampleFile "layout-land" "main")]

/-- The tree after a full run and these edits. -/
def replacedTree : Tree :=
  (compile sampleOptions [⟨"res"⟩] twoVariants).store.edit replaceLayout

/-- The incremental run after the edits. -/
def replacingRun : Progress Tree Report :=
  compileIncremental sampleOptions [sampleFile "layout-land" "item"]
    [sampleFile "layout-land" "main", sampleFile "layout" "main"] replacedTree

/-- What the runs lead to. -/
theorem replacingRun_eval :
    (compile sampleOptions [⟨"res"⟩] twoVariants).result.isOk = true ∧
      replacingRun.result.isOk = true ∧ twoVariants.OnlySources ⟨"res"⟩ ∧
      replacedTree.OnlySources ⟨"res"⟩ ∧
      replacedTree.hasFile (sampleFile "layout-land" "item").location = true ∧
      replacedTree.hasFile (sampleFile "layout-land" "main").location = false ∧
      replacedTree.hasFile (sampleFile "layout" "main").location = false ∧
      replacingRun.store.layoutAt? sampleOptions (variantPlace ⟨"res"⟩ "layout-land" "item") =
        some ⟨"item", [sampleView "b"]⟩ := by
  decide +kernel

theorem PrunedRun.holders_replacingRun :
    replacingRun.store.hasFile (holderPath sampleOptions "item").location = true := by
  obtain ⟨hfull, hstep, hsources, hedited, hitem, hland, hmain, hlayout⟩ := replacingRun_eval
  obtain ⟨_, hfull⟩ := exists_eq_ok hfull
  obtain ⟨_, hstep⟩ := exists_eq_ok hstep
  have hroot : PrunesRoot sampleOptions ⟨"res"⟩ :=
    ⟨rfl, rfl, by decide, by decide +kernel, by decide +kernel⟩
  have hstart : PrunedRun sampleOptions ⟨"res"⟩ (fun n => n = "main" ∨ n = "item")
      (compile sampleOptions [⟨"res"⟩] twoVariants).store := by
    refine .start (Tree.spelled_ofFiles _) hsources (fun n hn => ?_) (fun l hl => ?_) hfull
    · exact Or.inl (hn.eq_of_files (by decide +kernel))
    · have hout : ∀ f ∈ twoVariants.files, ¬ sampleOptions.outputDir.location <+: f.1 := by
        decide +kernel
      refine Bool.eq_false_iff.2 fun hfile => ?_
      obtain ⟨f, hf, rfl⟩ := Tree.hasFile_iff_mem.1 hfile
      exact hout f hf hl
  have hview : replacingRun.store.HasView sampleOptions ⟨"res"⟩ "item" :=
    ⟨"layout-land", by decide +kernel, _, hlayout, by decide⟩
  refine ((PrunedRun.holders hroot (fun m n => className_main_item) (.step hstart hedited ⟨?_, ?_⟩
    (by decide +kernel) (by decide +kernel) hstep) _).2 ⟨"item", hview, rfl⟩).2
  · intro p hp
    obtain rfl := List.mem_singleton.1 hp
    exact ⟨⟨"layout-land", "item", by decide +kernel⟩, hitem⟩
  · intro p hp
    rcases List.mem_cons.1 hp with rfl | hp
    · exact ⟨⟨"layout-land", "main", by decide +kernel⟩, hland⟩
    · obtain rfl := List.mem_singleton.1 hp
      exact ⟨⟨"layout", "main", by decide +kernel⟩, hmain⟩

end ViewHolder
