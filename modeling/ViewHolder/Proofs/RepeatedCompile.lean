import ViewHolder.Proofs.CompileFrame
import ViewHolder.Proofs.RunSuccess

/-!
# Repeated compiles

A compile that follows directly on a successful one finds every holder up to date and every stale
holder deleted, so it does nothing: it reads the same files, reports the holders that it would have
written as unchanged, and leaves the tree as it is.  This needs that layouts have holders of their
own, and that no holder comes to lie in the directories that are listed.

## Main results

* `run_upToDate` : after a successful run the holders of its layouts with views are up to date.
* `compile_repeated` : a repeated compile does nothing.
-/

namespace ViewHolder

section

variable {opts : CompileOptions} {t : Tree} {mode : CompileMode} {files : PathSet}
  {removed : List Path} {report : Report}

/-- The holders of the layouts with views are up to date after a successful run. -/
theorem run_upToDate (h : (run opts mode files removed t).result = .ok report)
    (hlazy : opts.writeUnchanged = false)
    (hclass : ∀ m ∈ runNames files removed, ∀ n ∈ runNames files removed,
      Holder.className m = Holder.className n → m = n) :
    ∀ l ∈ (catalogAt t opts files).filled,
      (run opts mode files removed t).store.UpToDate opts l := by
  intro l hl
  obtain ⟨hmem, hviews⟩ := List.mem_filter.1 hl
  have hname : l.name ∈ runNames files removed :=
    List.mem_append_left _ (name_mem_of_mem_catalogAt hmem)
  have hmerged : t.merged? opts (files.places.filter (Path.stemAt · == l.name)) = some l :=
    (t.find?_catalog opts _ _).symm.trans (Catalog.mem_layouts_iff.1 hmem)
  refine ⟨hlazy, run_source h hmerged ?_ fun m hm => hclass m hm l.name hname⟩
  simpa [Layout.isEmpty] using hviews

/-- A repeated run over the same files does nothing, as long as the first one has changed neither
these files nor the listing of the resource roots. -/
theorem run_repeated (h : (run opts mode files removed t).result = .ok report)
    (hlazy : opts.writeUnchanged = false)
    (hclass : ∀ m ∈ runNames files removed, ∀ n ∈ runNames files removed,
      Holder.className m = Holder.className n → m = n)
    (hsame : ∀ k ∈ files.places,
      (run opts mode files removed t).store.layoutAt? opts k = t.layoutAt? opts k)
    (hlisted : allLayoutFiles (run opts mode files removed t).store opts.resDirs =
      allLayoutFiles (writeStage opts t files).store opts.resDirs) (mode' : CompileMode) :
    (run opts mode' files removed (run opts mode files removed t).store).result =
        .ok ⟨report.parsed, [], (catalogAt t opts files).filled.map fun l => holderPath opts l.name,
          report.empty, []⟩ ∧
      (run opts mode' files removed (run opts mode files removed t).store).store =
        (run opts mode files removed t).store := by
  have huptodate := run_upToDate h hlazy hclass
  obtain ⟨names, hnames, htexts⟩ := run_textAt? h
  obtain ⟨hread, outputs, pruned, -, -, -, rfl⟩ := run_stages h
  generalize (run opts mode files removed t).store = t' at *
  have hcatalog : catalogAt t' opts files = catalogAt t opts files := catalogAt_congr hsame
  rw [← hcatalog] at huptodate
  obtain ⟨hwritestore, hwrite⟩ := writeAll_of_upToDate huptodate
  have hstage : (writeStage opts t' files).store = t' := hwritestore
  have habsent : ∀ n ∈ names, t'.hasFile (holderLocation opts n) = false := by
    intro n hn
    rw [Tree.hasFile, htexts, dropHolders_of_mem ⟨n, hn, rfl⟩]
    rfl
  have hprune : pruneStage opts t' files removed = ⟨t', [], .ok []⟩ := by
    have hagain : unbackedNames opts t' files (runStale opts t' files removed) removed =
        .ok names := by
      rw [unbackedNames_congr opts hlisted, runStale, hcatalog]
      exact hnames
    rw [pruneStage, hstage, prune_eq, ← runStale, hagain]
    exact pruneAll_of_absent habsent
  obtain ⟨hresult, hstore⟩ := run_of_stages mode'
    (fun k hk => by rw [hsame k hk]; exact hread k hk) hwrite (by rw [hprune])
  rw [hresult, hstore, hprune, hcatalog, List.filterMap_map, List.filterMap_map]
  simp [Function.comp_def, Output.written?, Output.unchanged?]

end

/-- **A repeated compile does nothing.**  Let the layouts have class names of their own, and let no
holder lie at or below a root or a resource root of the project.  Then a compile that follows on a
successful one succeeds and reads the same files; the layouts without views are the same; it writes
and deletes no holder and leaves the tree as it is; and it reports as unchanged the holders of the
layouts with views, in the order in which the layouts were first seen, which are those that the first
compile wrote or left. -/
theorem compile_repeated {opts : CompileOptions} {roots : List Path} {t : Tree} {report : Report}
    (ht : t.Spelled) (hlazy : opts.writeUnchanged = false)
    (hclass : ∀ m ∈ (CompileRequest.full roots).names t,
      ∀ n ∈ (CompileRequest.full roots).names t, Holder.className m = Holder.className n → m = n)
    (hapart : HoldersApart opts ((CompileRequest.full roots).names t) (roots ++ opts.resDirs))
    (hok : (compile opts roots t).result = .ok report) :
    ∃ files, allLayoutFiles t roots = .ok files ∧
      (catalogAt t opts files).layouts.map (·.name) = (files.toList.map Path.stem).eraseDups ∧
      ∃ unchanged, unchanged =
          ((catalogAt t opts files).filled.map fun l => holderPath opts l.name) ∧
        Interleaves report.written report.unchanged unchanged ∧
        (compile opts roots (compile opts roots t).store).result =
          .ok ⟨report.parsed, [], unchanged, report.empty, []⟩ ∧
        (compile opts roots (compile opts roots t).store).store = (compile opts roots t).store := by
  obtain ⟨files, hfiles, hrun, hstore⟩ := compile_eq_ok hok
  have hnames : (CompileRequest.full roots).names t = runNames files [] := by
    rw [CompileRequest.names, CompileRequest.candidates, hfiles]
    rfl
  rw [hnames] at hclass hapart
  have hroots := hapart.mono (List.Subset.refl _) (List.subset_append_left roots opts.resDirs)
  have hprojects := hapart.mono (List.Subset.refl _) (List.subset_append_right roots opts.resDirs)
  have hsame (k : List Step) (hk : k ∈ files.places) :
      (run opts .full files [] t).store.layoutAt? opts k = t.layoutAt? opts k := by
    obtain ⟨r, hr, v, s, -, hloc⟩ := location_of_listed ht hfiles hk
    refine Tree.layoutAt?_eq_of_textAt? ((run_sameBelow hroots hr t .full).2.textAt _ ?_)
    rw [hloc]
    exact List.prefix_append _ _
  have hlisted : allLayoutFiles (run opts .full files [] t).store opts.resDirs =
      allLayoutFiles (writeStage opts t files).store opts.resDirs := by
    rw [(run_listed ht hprojects .full).1, (run_listed ht hprojects .full).2]
  obtain ⟨hresult, hagain⟩ := run_repeated hrun hlazy hclass hsame hlisted .full
  have hfiles' : allLayoutFiles (run opts .full files [] t).store roots = .ok files :=
    (run_listed ht hroots .full).2.trans hfiles
  have hcompile : compile opts roots (run opts .full files [] t).store =
      run opts .full files [] (run opts .full files [] t).store := by
    rw [compile, hfiles']
  rw [hstore, hcompile]
  obtain ⟨hread, outputs, pruned, hwrite, -, -, rfl⟩ := run_stages hrun
  refine ⟨files, hfiles, names_catalogAt hread, _, rfl, ?_, hresult, hagain⟩
  rw [← writeStage_files hwrite]
  exact interleaves_outputs outputs

/-- Three layouts: the holder of the first is up to date, the second has no holder yet, and the third
has a holder and no views. -/
def mixedProject : Tree :=
  .ofFiles [(sampleFile "layout" "item", sampleText "b"), (sampleFile "layout" "main", sampleText "a"),
    (sampleFile "layout" "old", "<a/>"), (holderPath sampleOptions "old", ""),
    (holderPath sampleOptions "item", Holder.source "com.example" ⟨"item", [sampleView "b"]⟩)]

/-- What a compile of the three layouts reads and reports. -/
theorem compile_mixedProject_eval :
    (CompileRequest.full [⟨"res"⟩]).names mixedProject = ["item", "main", "old"] ∧
    (compile sampleOptions [⟨"res"⟩] mixedProject).result =
      .ok ⟨3, [holderPath sampleOptions "main"], [holderPath sampleOptions "item"], ["old"],
        [holderPath sampleOptions "old"]⟩ := by
  decide +kernel

theorem compile_repeated_mixedProject : ∃ unchanged, unchanged.length = 2 ∧
    (compile sampleOptions [⟨"res"⟩] (compile sampleOptions [⟨"res"⟩] mixedProject).store).result =
      .ok ⟨3, [], unchanged, ["old"], []⟩ ∧
    (compile sampleOptions [⟨"res"⟩] (compile sampleOptions [⟨"res"⟩] mixedProject).store).store =
      (compile sampleOptions [⟨"res"⟩] mixedProject).store := by
  obtain ⟨hnames, hok⟩ := compile_mixedProject_eval
  have hclass : ∀ m ∈ ["item", "main", "old"], ∀ n ∈ ["item", "main", "old"],
      Holder.className m = Holder.className n → m = n := by decide +kernel
  have hapart : HoldersApart sampleOptions ["item", "main", "old"] ([⟨"res"⟩] ++ [⟨"res"⟩]) := by
    decide +kernel
  rw [← hnames] at hclass hapart
  obtain ⟨files, -, -, unchanged, -, hboth, hagain⟩ :=
    compile_repeated (Tree.spelled_ofFiles _) rfl hclass hapart hok
  exact ⟨unchanged, hboth.length_eq, hagain⟩

end ViewHolder
