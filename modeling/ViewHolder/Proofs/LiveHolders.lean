import ViewHolder.Proofs.Edits
import ViewHolder.Proofs.SharedClass

/-!
# Pruning keeps live holders

A holder is pruned when the run merged no view for its layout and no layout file outside the run
backs it.  As long as layouts have holders of their own, a pruned holder belongs to no layout that
the run writes, and to none that the resource roots still hold.

## Main definitions

* `Tree.FindsView` : some file among those of a run has a view of a layout.
* `Tree.IsLive` : some listed file of the resource roots has a view of a layout.
* `mayPrune` : the layouts whose holders a run may have deleted.
* `Tree.GrownFrom` : a tree with further files, all of them in directories that were created.

## Main results

* `run_outputs` : what a run reports as written or unchanged is there and was not pruned.
* `run_pruned_not_live` : what a run pruned is the holder of no live layout.
* `CompileRun.keeps_live_holders` : both for full and for incremental runs.
-/

namespace ViewHolder

/-! ### Layouts with views -/

/-- Some file among those of a run has a view of the layout `n`. -/
def Tree.FindsView (t : Tree) (opts : CompileOptions) (files : PathSet) (n : String) : Prop :=
  ∃ k ∈ files.places, Path.stemAt k = n ∧ ∃ l, t.layoutAt? opts k = some l ∧ l.views ≠ []

/-- Some listed file of the resource roots has a view of the layout `n`. -/
def Tree.IsLive (t : Tree) (opts : CompileOptions) (n : String) : Prop :=
  ∃ files, allLayoutFiles t opts.resDirs = .ok files ∧ t.FindsView opts files n

instance (t : Tree) (opts : CompileOptions) (files : PathSet) (n : String) :
    Decidable (t.FindsView opts files n) :=
  inferInstanceAs (Decidable (∃ k ∈ files.places, Path.stemAt k = n ∧
    ∃ l, l ∈ t.layoutAt? opts k ∧ l.views ≠ []))

instance (t : Tree) (opts : CompileOptions) (n : String) : Decidable (t.IsLive opts n) :=
  match h : allLayoutFiles t opts.resDirs with
  | .error _ => .isFalse fun ⟨_, hfiles, _⟩ => nomatch h.symm.trans hfiles
  | .ok files => decidable_of_iff (t.FindsView opts files n)
      ⟨fun hfind => ⟨files, h, hfind⟩, fun ⟨_, hfiles, hfind⟩ =>
        Except.ok.inj (h.symm.trans hfiles) ▸ hfind⟩

/-- The layouts whose holders a run may have deleted: those without views, and those of the files
that disappeared. -/
def mayPrune (report : Report) (removed : List Path) : List String :=
  report.empty ++ (removed.filterMap LayoutFile.ofPath?).map (·.layoutName)

section

variable {opts : CompileOptions} {t : Tree} {files : PathSet} {removed : List Path} {n : String}

theorem findsView_of_mem_filled {l : Layout} (hl : l ∈ (catalogAt t opts files).filled) :
    t.FindsView opts files l.name := by
  obtain ⟨hmem, hviews⟩ := List.mem_filter.1 hl
  rw [catalogAt, Catalog.mem_layouts_iff, Tree.find?_catalog] at hmem
  obtain ⟨k, hk, m, hm, hmviews⟩ := (Tree.views_merged?_ne_nil hmem).1
    (by simpa [Layout.isEmpty] using hviews)
  obtain ⟨hk, hkl⟩ := List.mem_filter.1 hk
  exact ⟨k, hk, beq_iff_eq.1 hkl, m, hm, hmviews⟩

/-- A layout of which the run found a view is not stale. -/
theorem Tree.FindsView.notMem_staleNames (h : t.FindsView opts files n) :
    n ∉ staleNames (catalogAt t opts files) (catalogAt t opts files).emptyNames removed := by
  obtain ⟨k, hk, rfl, l, hl, hviews⟩ := h
  have hmem : k ∈ files.places.filter (Path.stemAt · == Path.stemAt k) :=
    List.mem_filter.2 ⟨hk, beq_self_eq_true _⟩
  obtain ⟨merged, hmerged⟩ := Tree.exists_merged? hmem hl
  have hfind : (catalogAt t opts files).find? (Path.stemAt k) = some merged :=
    (t.find?_catalog opts _ _).trans hmerged
  intro hstale
  rcases List.mem_append.1 hstale with hempty | hgone
  · obtain ⟨m, hm, hmk⟩ := List.mem_map.1 hempty
    obtain ⟨hm, hmviews⟩ := List.mem_filter.1 hm
    rw [catalogAt, Catalog.mem_layouts_iff, hmk] at hm
    obtain rfl : m = merged := Option.some.inj (hm.symm.trans hfind)
    exact (Tree.views_merged?_ne_nil hmerged).2 ⟨k, hmem, l, hl, hviews⟩
      (List.isEmpty_iff.1 hmviews)
  · simp [Catalog.contains, hfind] at hgone

end

/-! ### Trees that grow -/

/-- A tree with further directories and files, each of the files in a directory that was
created. -/
structure Tree.GrownFrom (t t' : Tree) : Prop where
  /-- No directory is lost. -/
  dirs : ∀ d ∈ t.dirs, d ∈ t'.dirs
  /-- Every file was there or lies in a directory that was created. -/
  files : ∀ l, t'.hasFile l = true → t.hasFile l = true ∨ l.dropLast ∈ t'.dirs

namespace Tree.GrownFrom

variable {t t' t'' : Tree}

theorem refl (t : Tree) : GrownFrom t t := ⟨fun _ => id, fun _ => Or.inl⟩

theorem trans (h : GrownFrom t t') (h' : GrownFrom t' t'') : GrownFrom t t'' := by
  refine ⟨fun d hd => h'.dirs d (h.dirs d hd), fun l hl => ?_⟩
  rcases h'.files l hl with hl | hl
  · exact (h.files l hl).imp_right (h'.dirs _)
  · exact Or.inr hl

/-- Where a grown tree has a directory that was no directory before, one was created. -/
theorem exists_dir (h : GrownFrom t t') {l : Location} (hl : t'.hasDir l = true)
    (hno : t.hasDir l = false) : ∃ d ∈ t'.dirs, l <+: d := by
  rcases hasDir_iff.1 hl with rfl | hdir | ⟨k, hk, hne, hpre⟩
  · exact absurd hno (by simp [hasDir])
  · exact hdir
  · rcases h.files k hk with hk | hk
    · have hdir : t.hasDir l = true := hasDir_iff.2 (Or.inr (Or.inr ⟨k, hk, hne, hpre⟩))
      rw [hdir] at hno
      cases hno
    · exact ⟨_, hk, prefix_dropLast hpre hne.symm⟩

end Tree.GrownFrom

section

variable {opts : CompileOptions}

theorem Tree.grownFrom_addDir (t : Tree) (l : Location) : GrownFrom t (t.addDir l) :=
  ⟨fun _ hd => mem_dirs_addDir.2 (Or.inr hd), fun _ => Or.inl⟩

theorem Tree.grownFrom_putHolder (t : Tree) (l : Location) (text : String) :
    GrownFrom t (t.putHolder l text) := by
  refine ⟨fun d hd => mem_dirs_putHolder.2 (Or.inr hd), fun k hk => ?_⟩
  by_cases hkl : k = l
  · exact Or.inr (mem_dirs_putHolder.2 (Or.inl (by rw [hkl])))
  · rw [hasFile, textAt?_putHolder, Function.update_of_ne hkl] at hk
    exact Or.inl hk

theorem writeHolder_grownFrom {l : Layout} (hl : '/' ∉ l.name.toList) (t : Tree) :
    Tree.GrownFrom t (writeHolder opts t l).store := by
  rcases writeHolder_cases hl opts t with ⟨-, h⟩ | ⟨-, -, h⟩ | ⟨-, -, e, t', h, -, rfl | rfl⟩
  · rw [h]
    exact .refl t
  · rw [h]
    exact t.grownFrom_putHolder _ _
  · rw [h]
    exact .refl _
  · rw [h]
    exact t.grownFrom_addDir _

theorem writeAll_grownFrom {ls : List Layout} (hslash : ∀ l ∈ ls, '/' ∉ l.name.toList)
    (t : Tree) : Tree.GrownFrom t (writeAll opts t ls).store :=
  (writeAll_isLoop opts).store_rel .refl (fun _ _ _ => .trans) fun l hl s =>
    writeHolder_grownFrom (hslash l hl) s

/-! ### What is reported -/

theorem pruneHolder_pruned {t : Tree} {n : String} {pruned : List Path}
    (h : (pruneHolder opts t n).result = .ok pruned) {p : Path} (hp : p ∈ pruned) :
    p = holderPath opts n := by
  rcases pruneHolder_cases opts t n with ⟨-, hstep⟩ | ⟨-, -, hstep⟩ | ⟨-, -, e, hstep⟩
  · rw [hstep] at h
    rw [← Except.ok.inj h] at hp
    cases hp
  · rw [hstep] at h
    rw [← Except.ok.inj h] at hp
    exact List.mem_singleton.1 hp
  · rw [hstep] at h
    cases h

/-- What was deleted are holders of layouts that were to be pruned. -/
theorem exists_name_of_pruned {t : Tree} {ns : List String} {pruned : List Path}
    (h : (pruneAll opts t ns).result = .ok pruned) {p : Path} (hp : p ∈ pruned) :
    ∃ n ∈ ns, p = holderPath opts n := by
  induction ns generalizing t pruned with
  | nil =>
    rw [← Except.ok.inj h] at hp
    cases hp
  | cons n ns ih =>
    obtain ⟨first, later, hfirst, hlater, rfl⟩ := exists_of_pruneAll_cons h
    rcases List.mem_append.1 hp with hp | hp
    · exact ⟨n, List.mem_cons_self, pruneHolder_pruned hfirst hp⟩
    · obtain ⟨m, hm, hpath⟩ := ih hlater hp
      exact ⟨m, List.mem_cons_of_mem n hm, hpath⟩

/-- What was pruned are holders of stale layouts that no file outside the run backs. -/
theorem exists_stale_of_pruned {t : Tree} {files : PathSet} {catalog : Catalog}
    {empty : List String} {removed pruned : List Path}
    (h : (prune opts t files catalog empty removed).result = .ok pruned) {p : Path}
    (hp : p ∈ pruned) :
    ∃ n ∈ staleNames catalog empty removed, p = holderPath opts n ∧
      ∃ listed, allLayoutFiles t opts.resDirs = .ok listed ∧
        n ∉ backedNames listed files removed := by
  rw [prune_eq] at h
  cases hnames : unbackedNames opts t files (staleNames catalog empty removed) removed with
  | error e =>
    rw [hnames] at h
    cases h
  | ok names =>
    rw [hnames] at h
    obtain ⟨n, hn, hpath⟩ := exists_name_of_pruned h hp
    obtain ⟨hprune, hstale, hback⟩ := (mem_unbackedNames_iff hnames).1 hn
    obtain ⟨listed, hlist⟩ := exists_unbackedNames_iff.1 ⟨names, hnames⟩ hprune
      (List.ne_nil_of_mem hstale)
    exact ⟨n, hstale, hpath, listed, hlist, hback listed hlist⟩

/-! ### Directories after pruning -/

theorem pruneHolder_dirs (t : Tree) (n : String) :
    (pruneHolder opts t n).store.dirs = t.dirs := by
  rcases pruneHolder_cases opts t n with ⟨-, h⟩ | ⟨-, -, h⟩ | ⟨-, -, e, h⟩
  all_goals exact congrArg (fun p => p.store.dirs) h

theorem pruneAll_dirs (t : Tree) (ns : List String) :
    (pruneAll opts t ns).store.dirs = t.dirs :=
  (pruneAll_isLoop opts).store_rel (R := fun s s' : Tree => s'.dirs = s.dirs) (fun _ => rfl)
    (fun _ _ _ h h' => h'.trans h) fun n _ s => pruneHolder_dirs s n

/-- Pruning deletes no directory. -/
theorem prune_dirs (t : Tree) (files : PathSet) (catalog : Catalog) (empty : List String)
    (removed : List Path) : (prune opts t files catalog empty removed).store.dirs = t.dirs := by
  rw [prune_eq]
  split
  · rfl
  · exact pruneAll_dirs t _

/-! ### Runs -/

theorem Tree.FindsView.slash_notMem {t : Tree} {files : PathSet} {n : String}
    (h : t.FindsView opts files n) : '/' ∉ n.toList := by
  obtain ⟨k, hk, rfl, -⟩ := h
  have hname : Path.stemAt k ∈ runNames files [] :=
    List.mem_append_left _ (List.mem_map_of_mem hk)
  exact slash_notMem_runNames hname

variable {t : Tree} {mode : CompileMode} {files : PathSet} {removed : List Path} {report : Report}
  (h : (run opts mode files removed t).result = .ok report)
include h

/-- A run prunes holders of stale layouts only. -/
theorem mem_mayPrune {n : String} (hn : n ∈
      staleNames (catalogAt t opts files) (catalogAt t opts files).emptyNames removed) :
    n ∈ mayPrune report removed := by
  obtain ⟨-, outputs, pruned, -, -, -, rfl⟩ := run_stages h
  rcases List.mem_append.1 hn with hn | hn
  · exact List.mem_append_left _ hn
  · exact List.mem_append_right _ (List.mem_filter.1 hn).1

/-- **What a run reports as written or unchanged** is there afterwards and was not pruned, as long
as no layout that the run may prune shares its class name with another layout that it writes. -/
theorem run_outputs (hclass : ∀ m ∈ mayPrune report removed, ∀ n, t.FindsView opts files n →
      Holder.className m = Holder.className n → m = n) {w : Path}
    (hw : w ∈ report.written ++ report.unchanged) :
    (∀ q ∈ report.pruned, q.location ≠ w.location) ∧
      (run opts mode files removed t).store.hasFile w.location = true := by
  obtain ⟨-, outputs, pruned, hwrite, hprune, hstore, rfl⟩ := run_stages h
  obtain ⟨l, hl, hw⟩ := exists_layout_of_output (fun m hm => slash_notMem_name hm) hwrite hw
  rw [hw]
  have hshare : ∀ m ∈ staleNames (catalogAt t opts files) (catalogAt t opts files).emptyNames
      removed, holderLocation opts m ≠ holderLocation opts l.name := by
    intro m hm hloc
    have hname := location_holderPath_inj (slash_notMem_runNames (staleNames_subset hm))
      (slash_notMem_name hl) hloc
    obtain rfl := hclass m (mem_mayPrune h hm) l.name (findsView_of_mem_filled hl) hname
    exact (findsView_of_mem_filled hl).notMem_staleNames hm
  constructor
  · intro q hq
    obtain ⟨m, hm, hpath, -⟩ := exists_stale_of_pruned hprune hq
    rw [hpath]
    exact hshare m hm
  · have hmate : l ∈ classMates (catalogAt t opts files).filled l.name :=
      List.mem_filter.2 ⟨hl, beq_self_eq_true _⟩
    have htext := writeAll_last hwrite (fun m hm => slash_notMem_name hm)
      (List.getLast?_eq_some_getLast (List.ne_nil_of_mem hmate))
    rw [hstore, Tree.hasFile_iff]
    refine ⟨_, ((prune_changedAt _).textAt _ ?_).trans htext⟩
    rintro ⟨m, hm, hloc⟩
    exact hshare m hm hloc.symm

/-! ### Live layouts -/

omit h in
variable (opts files removed) in
/-- A directory that the writing stage created is there after pruning. -/
theorem hasDir_pruneStage {l : Location} (hno : t.hasDir l = false)
    (hdir : (writeStage opts t files).store.hasDir l = true) :
    (pruneStage opts t files removed).store.hasDir l = true := by
  have hgrown : Tree.GrownFrom t (writeStage opts t files).store :=
    writeAll_grownFrom (fun m hm => slash_notMem_name hm) t
  obtain ⟨d, hd, hpre⟩ := hgrown.exists_dir hdir hno
  exact Tree.hasDir_iff.2 (Or.inr (Or.inl ⟨d, (prune_dirs _ _ _ _ _).symm ▸ hd, hpre⟩))

omit h in
variable (opts mode files removed) in
/-- The listed files of a tree after a run were there before with the same texts, and they were
listed when the run pruned. -/
theorem run_keeps_listed (ht : t.Spelled) (hproper : t.Proper) {after listed : PathSet}
    (hafter : allLayoutFiles (pruneStage opts t files removed).store opts.resDirs = .ok after)
    (hlisted : allLayoutFiles (writeStage opts t files).store opts.resDirs = .ok listed)
    {k : List Step} (hk : k ∈ after.places) :
    k ∈ listed.places ∧ t.hasFile (k.filter (· != .here)) = true ∧
      (pruneStage opts t files removed).store.layoutAt? opts k = t.layoutAt? opts k := by
  have hslash : ∀ m, m ∈ runNames files removed → '/' ∉ m.toList :=
    fun _ hm => slash_notMem_runNames hm
  have hwrite := writeStage_changedAt opts t files removed
  have hprune := pruneStage_changedAt opts t files removed
  obtain ⟨r, hr, v, s, hv, hsteps, hfile, hnodir, hshown⟩ :=
    (mem_places_allLayoutFiles (hprune.spelled ht) hafter).1 hk
  have hloc : k.filter (· != .here) = r.location ++ [.name v, s] :=
    hsteps ▸ (hprune.spelled ht).filter_place hfile
  have htext := hprune.textAt?_variant hslash (l := r.location) (s := s) hv
  have hthere : t.hasFile (r.location ++ [.name v, s]) = true := by
    rwa [Tree.hasFile, htext] at hfile
  refine ⟨?_, hloc ▸ hthere, by rw [Tree.layoutAt?, Tree.layoutAt?, hloc, htext]⟩
  refine (mem_places_allLayoutFiles (hwrite.spelled ht) hlisted).2
    ⟨r, hr, v, s, hv, hsteps, ?_, Bool.eq_false_iff.2 fun hdir => ?_, hshown⟩
  · rwa [Tree.hasFile, hwrite.textAt?_variant hslash hv]
  · have hstill := hasDir_pruneStage opts files removed (hproper _ hthere) hdir
    rw [hnodir] at hstill
    cases hstill

/-- **What a run pruned is the holder of no live layout**, as long as the files reported as removed
are gone and no layout that the run may prune shares its class name with a live one. -/
theorem run_pruned_not_live (ht : t.Spelled) (hproper : t.Proper)
    (hgone : ∀ p ∈ removed, t.hasFile p.location = false)
    (hclass : ∀ m ∈ mayPrune report removed, ∀ n,
      (run opts mode files removed t).store.IsLive opts n →
        Holder.className m = Holder.className n → m = n) {q : Path} (hq : q ∈ report.pruned)
    {n : String} (hn : (run opts mode files removed t).store.IsLive opts n) :
    q.location ≠ holderLocation opts n := by
  intro hloc
  have hmay {m : String} := mem_mayPrune h (n := m)
  obtain ⟨-, outputs, pruned, -, hprune, hstore, rfl⟩ := run_stages h
  obtain ⟨m, hm, hpath, listed, hlisted, hback⟩ := exists_stale_of_pruned hprune hq
  rw [hpath] at hloc
  have hlive := hn
  obtain ⟨after, hafter, hfind⟩ := hn
  obtain rfl : m = n := hclass m (hmay hm) n hlive
    (location_holderPath_inj (slash_notMem_runNames (staleNames_subset hm)) hfind.slash_notMem hloc)
  obtain ⟨k, hk, rfl, l, hl, hviews⟩ := hfind
  rw [hstore] at hafter hl
  obtain ⟨hlistedk, hfile, hsame⟩ :=
    run_keeps_listed opts files removed ht hproper hafter hlisted hk
  by_cases hread : k ∈ files.places
  · have hfound : t.FindsView opts files (Path.stemAt k) :=
      ⟨k, hread, rfl, l, hsame.symm.trans hl, hviews⟩
    exact hfound.notMem_staleNames hm
  · refine hback (mem_backedNames_iff.2 ⟨k, hlistedk, rfl, hread, fun hk => ?_⟩)
    obtain ⟨p, hp, rfl⟩ := List.mem_map.1 hk
    exact Bool.false_ne_true ((hgone p hp).symm.trans hfile)

end

/-- A full run over the resource roots of the project, or an incremental run: the files reported
as removed, the files that it reads, and its course. -/
inductive CompileRun (opts : CompileOptions) (t : Tree) :
    List Path → PathSet → Progress Tree Report → Prop
  | full {files : PathSet} (hfiles : allLayoutFiles t opts.resDirs = .ok files) :
      CompileRun opts t [] files (compile opts opts.resDirs t)
  | incremental {changed removed : List Path} {files : PathSet}
      (hfiles : affectedFiles t changed removed = .ok files) :
      CompileRun opts t removed files (compileIncremental opts changed removed t)

theorem CompileRun.exists_run {opts : CompileOptions} {t : Tree} {removed : List Path}
    {files : PathSet} {p : Progress Tree Report} (h : CompileRun opts t removed files p) :
    ∃ mode, p = run opts mode files removed t := by
  cases h with
  | full hfiles => exact ⟨.full, by rw [compile, hfiles]⟩
  | incremental hfiles => exact ⟨.incremental, by rw [compileIncremental, hfiles]⟩

/-- **Pruning keeps live holders.**  If no layout that a successful run may prune shares its class
name with another layout that the run finds, then what it reports as written or unchanged is there
and was not pruned.  If moreover the files reported as removed are gone, no place is both file and
directory, and no such layout shares its class name with a live one, then no live layout has lost
its holder. -/
theorem CompileRun.keeps_live_holders {opts : CompileOptions} {t : Tree} {removed : List Path}
    {files : PathSet} {p : Progress Tree Report} {report : Report} (ht : t.Spelled)
    (h : CompileRun opts t removed files p) (hok : p.result = .ok report)
    (hclass : ∀ m ∈ mayPrune report removed, ∀ n, t.FindsView opts files n →
      Holder.className m = Holder.className n → m = n) :
    (∀ w ∈ report.written ++ report.unchanged,
      (∀ q ∈ report.pruned, q.location ≠ w.location) ∧ p.store.hasFile w.location = true) ∧
    (t.Proper → (∀ q ∈ removed, t.hasFile q.location = false) →
      (∀ m ∈ mayPrune report removed, ∀ n, p.store.IsLive opts n →
        Holder.className m = Holder.className n → m = n) →
      ∀ q ∈ report.pruned, ∀ n, p.store.IsLive opts n → q.location ≠ holderLocation opts n) := by
  obtain ⟨mode, rfl⟩ := h.exists_run
  refine ⟨fun w hw => run_outputs hok hclass hw, fun hproper hgone hlive q hq n hn => ?_⟩
  exact run_pruned_not_live hok ht hproper hgone hlive hq hn

/-! ### A small project -/

/-- A layout, and the holder of a layout that is gone. -/
def staleHolder : Tree :=
  .ofFiles [(sampleFile "layout" "main", sampleText "a"), (holderPath sampleOptions "old", "")]

/-- The incremental run over the layout and the one that is gone. -/
def staleRun : Progress Tree Report :=
  compileIncremental sampleOptions [sampleFile "layout" "main"] [sampleFile "layout" "old"]
    staleHolder

/-- What the incremental run reads, reports and leaves. -/
theorem staleRun_eval :
    (affectedFiles staleHolder [sampleFile "layout" "main"]
        [sampleFile "layout" "old"]).toOption.map PathSet.places =
      some [(sampleFile "layout" "main").steps] ∧
    staleRun.result =
      .ok ⟨1, [holderPath sampleOptions "main"], [], [], [holderPath sampleOptions "old"]⟩ ∧
    (allLayoutFiles staleRun.store sampleOptions.resDirs).toOption.map PathSet.places =
      some [(sampleFile "layout" "main").steps] ∧
    staleHolder.Proper ∧ staleHolder.hasFile (sampleFile "layout" "old").location = false := by
  decide +kernel

theorem CompileRun.keeps_live_holders_staleRun : ∃ report, staleRun.result = .ok report ∧
    report.pruned = [holderPath sampleOptions "old"] ∧
    staleRun.store.hasFile (holderPath sampleOptions "main").location = true ∧
    ∀ q ∈ report.pruned, ∀ n, staleRun.store.IsLive sampleOptions n →
      q.location ≠ holderLocation sampleOptions n := by
  obtain ⟨hread, hok, hlisted, hproper, hgone⟩ := staleRun_eval
  obtain ⟨files, hfiles, hplaces⟩ := exists_ok_of_map hread
  have hrun : CompileRun sampleOptions staleHolder [sampleFile "layout" "old"] files staleRun :=
    .incremental hfiles
  have hmain {files : PathSet} {t : Tree} {n : String}
      (hplaces : files.places = [(sampleFile "layout" "main").steps])
      (hn : t.FindsView sampleOptions files n) : n = "main" := by
    obtain ⟨k, hk, rfl, -⟩ := hn
    rw [hplaces, List.mem_singleton] at hk
    rw [hk]
    decide +kernel
  have hclass : ∀ m ∈ mayPrune ⟨1, [holderPath sampleOptions "main"], [], [],
      [holderPath sampleOptions "old"]⟩ [sampleFile "layout" "old"],
      Holder.className m ≠ Holder.className "main" := by decide +kernel
  obtain ⟨houtputs, hlive⟩ := CompileRun.keeps_live_holders (Tree.spelled_ofFiles _) hrun hok
    fun m hm n hn hmn => absurd hmn (hmain hplaces hn ▸ hclass m hm)
  refine ⟨_, hok, rfl, (houtputs _ List.mem_cons_self).2, hlive hproper ?_ ?_⟩
  · intro q hq
    rw [List.mem_singleton.1 hq]
    exact hgone
  · rintro m hm n ⟨after, hafter, hn⟩ hmn
    rw [hafter] at hlisted
    exact absurd hmn (hmain (Option.some.inj hlisted) hn ▸ hclass m hm)

/-- Two layouts of one class name, one of them without views. -/
def emptyTwin : Tree :=
  .ofFiles [(sampleFile "layout" "item1", "<a/>"), (sampleFile "layout" "item_1", sampleText "b")]

/-- A layout after a full run. -/
def compiledLayout : Tree :=
  (compile sampleOptions [⟨"res"⟩]
    (.ofFiles [(sampleFile "layout" "main", sampleText "a")])).store

/-- A project that puts its holders below a layout file. -/
def shadowOptions : CompileOptions := { sampleOptions with outputDir := sampleFile "layout" "main" }

/-- A layout file with its holder below it. -/
def shadowedLayout : Tree :=
  .ofFiles [(sampleFile "layout" "main", sampleText "a"), (holderPath shadowOptions "main", "")]

/-- Pruning may delete the holder of a layout with views: one that the run has just written for a
layout of the same class name, one of a file that is reported as removed and still there, and one
below a layout file, which the listing shows only once the holder is gone. -/
theorem pruning_deletes_live_holders :
    ((compile sampleOptions [⟨"res"⟩] emptyTwin).result.toOption =
        some ⟨2, [holderPath sampleOptions "item_1"], [], ["item1"],
          [holderPath sampleOptions "item1"]⟩ ∧
      holderPath sampleOptions "item1" = holderPath sampleOptions "item_1" ∧
      (compile sampleOptions [⟨"res"⟩] emptyTwin).store.hasFile
        (holderLocation sampleOptions "item_1") = false) ∧
    ((compileIncremental sampleOptions [] [sampleFile "layout" "main"]
        compiledLayout).result.toOption.map Report.pruned =
          some [holderPath sampleOptions "main"] ∧
      (compileIncremental sampleOptions [] [sampleFile "layout" "main"]
        compiledLayout).store.IsLive sampleOptions "main") ∧
    ((compileIncremental shadowOptions [] [⟨"res/layout/main.bak"⟩]
        shadowedLayout).result.toOption.map Report.pruned =
          some [holderPath shadowOptions "main"] ∧
      shadowedLayout.hasFile (Path.location ⟨"res/layout/main.bak"⟩) = false ∧
      (compileIncremental shadowOptions [] [⟨"res/layout/main.bak"⟩]
        shadowedLayout).store.IsLive shadowOptions "main") := by
  decide +kernel

end ViewHolder
