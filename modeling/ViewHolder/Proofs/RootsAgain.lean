import ViewHolder.Proofs.ListedFiles
import ViewHolder.Proofs.MergedViews
import ViewHolder.Proofs.Run

/-!
# Roots that are named again

A list of resource roots may name a root more than once, in different spellings.  Some spellings
have the same steps, and then their files are found once; others have not, and then the files are
read again.  Neither has an effect: what is read for the second time is merged into what it came
from.

## Main definitions

* `NamesAgain` : lists of roots in which roots are named again.

## Main results

* `map_layoutAt?_rootPlaces` : roots at one location show the same layouts.
* `NamesAgain.ofList_flatMap` : merging the layouts of the roots passes over repetitions.
* `compile_rootsAgain` : naming roots again changes no holder.
-/

namespace ViewHolder

/-- In the second list the roots of the first one stand in the same order, and between and behind
them further spellings of roots that come before, in the list or in `before`.  Two paths spell one
root if they lead to one location: if they differ in `.` segments and in empty segments only. -/
inductive NamesAgain : List Path → List Path → List Path → Prop
  /-- All roots are there. -/
  | nil (before : List Path) : NamesAgain before [] []
  /-- A root stands in both lists. -/
  | root {before roots roots' : List Path} (r : Path)
      (h : NamesAgain (before ++ [r]) roots roots') : NamesAgain before (r :: roots) (r :: roots')
  /-- A root is named again. -/
  | again {before roots roots' : List Path} {r r' : Path} (hr : r ∈ before)
      (hlocation : r'.location = r.location) (h : NamesAgain before roots roots') :
    NamesAgain before roots (r' :: roots')

namespace NamesAgain

variable {before roots roots' : List Path}

/-- Every root that is named leads to the location of a root that was there. -/
theorem exists_location (h : NamesAgain before roots roots') :
    ∀ r' ∈ roots', ∃ r ∈ before ++ roots, r'.location = r.location := by
  induction h with
  | nil before => exact List.forall_mem_nil _
  | root r h ih =>
    refine List.forall_mem_cons.2 ⟨⟨r, by simp, rfl⟩, fun r' hr' => ?_⟩
    obtain ⟨s, hs, hlocation⟩ := ih r' hr'
    exact ⟨s, by simpa using hs, hlocation⟩
  | again hr hlocation h ih =>
    exact List.forall_mem_cons.2 ⟨⟨_, List.mem_append_left _ hr, hlocation⟩, ih⟩

/-- No root is left out. -/
theorem sublist (h : NamesAgain before roots roots') : roots.Sublist roots' := by
  induction h with
  | nil before => exact .slnil
  | root r h ih => exact ih.cons_cons r
  | again hr hlocation h ih => exact ih.cons _

end NamesAgain

/-! ### Catalogs with repetitions -/

namespace Catalog

theorem ofList_append_of_subset {ls ms : List Layout} (h : ms ⊆ ls) (later : List Layout) :
    ofList (ls ++ ms ++ later) = ofList (ls ++ later) := by
  have hfront : ofList (ls ++ ms) = ofList ls := by
    induction ms using List.reverseRecOn with
    | nil => rw [List.append_nil]
    | append_singleton ms l ih =>
      obtain ⟨hms, hl⟩ := List.append_subset.1 h
      rw [← List.append_assoc, ofList_concat, ih hms, add_of_mem (hl (List.mem_singleton_self l))]
  unfold ofList at hfront ⊢
  rw [List.foldl_append, hfront, ← List.foldl_append]

/-- A catalog of what places hold does not depend on how often a place is named. -/
theorem ofList_filterMap_eraseDups {α : Type} [BEq α] [LawfulBEq α] (f : α → Option Layout)
    (ks : List α) : ofList (ks.eraseDups.filterMap f) = ofList (ks.filterMap f) := by
  classical
  induction ks using List.reverseRecOn with
  | nil => rfl
  | append_singleton ks k ih =>
    rw [eraseDups_concat, List.filterMap_append]
    cases hk : f k with
    | none =>
      have hnone : [k].filterMap f = [] := by simp [hk]
      rw [hnone, List.append_nil, ← ih]
      split
      · rfl
      · rw [List.filterMap_append, hnone, List.append_nil]
    | some l =>
      have hsome : [k].filterMap f = [l] := by simp [hk]
      rw [hsome, ofList_concat, ← ih]
      split
      · rename_i hmem
        rw [ih, add_of_mem (List.mem_filterMap.2 ⟨k, hmem, hk⟩)]
      · rw [List.filterMap_append, hsome, ofList_concat]

end Catalog

/-- Layouts of roots that are named again are merged into those that are there. -/
theorem NamesAgain.ofList_flatMap {before roots roots' : List Path}
    (h : NamesAgain before roots roots') {g : Path → List Layout}
    (hg : ∀ r r', r'.location = r.location → g r' = g r) :
    Catalog.ofList (before.flatMap g ++ roots'.flatMap g) =
      Catalog.ofList (before.flatMap g ++ roots.flatMap g) := by
  induction h with
  | nil before => rfl
  | root r h ih => simpa using ih
  | again hr hlocation h ih =>
    rw [List.flatMap_cons, ← List.append_assoc, Catalog.ofList_append_of_subset, ih]
    rw [hg _ _ hlocation]
    exact fun l hl => List.mem_flatMap.2 ⟨_, hr, hl⟩

/-! ### Roots at one location -/

section

variable {t : Tree} (ht : t.Spelled)
include ht

/-- Whether the files of a root can be listed depends on its location. -/
theorem exists_filesOfRoot_iff {r : Path} :
    (∃ ps, filesOfRoot t r = .ok ps) ↔ t.isListable r.location = true ∧
      ∀ v ∈ t.variantNames r.location, t.isListable (r.location ++ [.name v]) = true := by
  have hvariant (dir : Path) :
      (∃ ps, filesOfVariant t dir = .ok ps) ↔ t.isListable dir.location = true := by
    rw [← exists_listMembers_iff (p := fun e => !e.isDir && !isHiddenName e.name), filesOfVariant]
    split <;> simp [*]
  rw [← exists_listMembers_iff (p := fun e => e.isDir && isVariantName e.name), filesOfRoot]
  cases hes : listMembers t r fun e => e.isDir && isVariantName e.name with
  | error e => simp
  | ok es =>
    have hpaths : es.map (·.path) = (t.variantNames r.location).map fun v => r.join ⟨v⟩ := by
      simpa using (listMembers_variants (q := fun _ => true) ht (by simpa using hes)).2
    have hdirs : (∀ e ∈ es, t.isListable e.path.location = true) ↔
        ∀ dir ∈ es.map (·.path), t.isListable dir.location = true := by
      simp only [List.forall_mem_map]
    simp only [exists_gather_iff, hvariant, Except.ok.injEq, exists_eq', true_and]
    rw [hdirs, hpaths, List.forall_mem_map]
    refine forall₂_congr fun v hv => ?_
    rw [Path.location_join_name ((Tree.mem_variantNames ht).1 hv).2.1]

variable {opts : CompileOptions} {r r' : Path}

/-- Directories at one location, below the top, show the same layouts. -/
theorem map_layoutAt?_shownFiles (hdir : r.location ≠ []) (h : r'.location = r.location) :
    ((t.shownFiles r').map Path.steps).map (t.layoutAt? opts) =
      ((t.shownFiles r).map Path.steps).map (t.layoutAt? opts) := by
  have hnames : (t.children r.location).filter
        (fun c => !c.2 && !isHiddenName (Entry.below r' c).name) =
      (t.children r.location).filter fun c => !c.2 && !isHiddenName (Entry.below r c).name := by
    refine List.filter_congr fun c hc => ?_
    rw [Entry.name_below ht hc, Entry.name_below ht (h.symm ▸ hc)]
  simp only [Tree.shownFiles, h, hnames, List.map_map]
  refine List.map_congr_left fun c hc => ?_
  obtain ⟨s, hs, hkind⟩ := t.exists_step_of_mem_children ht (List.mem_filter.1 hc).1
  have hseg : s.IsSegment := hkind.resolve_right fun htop => hdir htop.1
  have hlocation : (r'.join ⟨s.text⟩).location = (r.join ⟨s.text⟩).location := by
    rw [Path.location_join hseg, Path.location_join hseg, h]
  have hstem : Path.stemAt (r'.join ⟨s.text⟩).steps = Path.stemAt (r.join ⟨s.text⟩).steps := by
    rw [Path.steps_join hseg, Path.steps_join hseg, Path.stemAt, Path.stemAt,
      List.getLast?_concat, List.getLast?_concat]
  simp only [Function.comp_apply, ← hs, Tree.layoutAt?, hstem]
  rw [← Path.location, hlocation, ← Path.location]

/-- **Roots at one location show the same layouts**, in the same order. -/
theorem map_layoutAt?_rootPlaces (h : r'.location = r.location) :
    (t.rootPlaces r').map (t.layoutAt? opts) = (t.rootPlaces r).map (t.layoutAt? opts) := by
  simp only [Tree.rootPlaces, h, List.map_flatMap]
  refine List.flatMap_congr fun v hv => ?_
  have hname := ((Tree.mem_variantNames ht).1 hv).2.1
  refine map_layoutAt?_shownFiles ht (location_variant_ne_nil ht hv) ?_
  rw [Path.location_join_name hname, Path.location_join_name hname, h]

end

/-! ### Runs -/

/-- The layouts that a root shows. -/
def Tree.rootLayouts (t : Tree) (opts : CompileOptions) (r : Path) : List Layout :=
  (t.rootPlaces r).filterMap (t.layoutAt? opts)

section

variable {t : Tree} (ht : t.Spelled) {opts : CompileOptions} {roots : List Path} {files : PathSet}
  (hfiles : allLayoutFiles t roots = .ok files)
include ht hfiles

/-- The catalog of a listing merges the layouts of its roots. -/
theorem catalogAt_allLayoutFiles :
    catalogAt t opts files = .ofList (roots.flatMap (t.rootLayouts opts)) := by
  rw [catalogAt, places_allLayoutFiles ht hfiles, Catalog.ofList_filterMap_eraseDups,
    List.filterMap_flatMap]
  rfl

theorem forall_mem_places_iff {P : List Step → Prop} :
    (∀ k ∈ files.places, P k) ↔ ∀ r ∈ roots, ∀ k ∈ t.rootPlaces r, P k := by
  rw [places_allLayoutFiles ht hfiles]
  simp only [List.mem_eraseDups, List.mem_flatMap]
  exact ⟨fun h r hr k hk => h k ⟨r, hr, hk⟩, fun h k ⟨r, hr, hk⟩ => h r hr k hk⟩

variable {roots' : List Path} (h : NamesAgain [] roots roots')
include h

/-- Roots that can be listed can be listed again. -/
theorem exists_allLayoutFiles_again : ∃ files', allLayoutFiles t roots' = .ok files' := by
  have hroots : ∀ r ∈ roots, ∃ ps, filesOfRoot t r = .ok ps := by
    unfold allLayoutFiles at hfiles
    split at hfiles
    · rename_i ps hps
      exact exists_gather_iff.1 ⟨ps, hps⟩
    · cases hfiles
  have hagain : ∀ r' ∈ roots', ∃ ps, filesOfRoot t r' = .ok ps := by
    intro r' hr'
    obtain ⟨r, hr, hlocation⟩ := h.exists_location r' hr'
    rw [exists_filesOfRoot_iff ht, hlocation, ← exists_filesOfRoot_iff ht]
    exact hroots r hr
  obtain ⟨ps, hps⟩ := exists_gather_iff.2 hagain
  exact ⟨.ofList ps, by rw [allLayoutFiles, hps]⟩

variable {files' : PathSet} (hfiles' : allLayoutFiles t roots' = .ok files')
include hfiles'

/-- Roots that are named again show nothing that cannot be read. -/
theorem readable_again (hread : ∀ k ∈ files.places, ∃ l, t.layoutAt? opts k = some l) :
    ∀ k ∈ files'.places, ∃ l, t.layoutAt? opts k = some l := by
  rw [forall_mem_places_iff ht hfiles] at hread
  rw [forall_mem_places_iff ht hfiles']
  intro r' hr' k' hk'
  obtain ⟨r, hr, hlocation⟩ := h.exists_location r' hr'
  have hmem : t.layoutAt? opts k' ∈ (t.rootPlaces r).map (t.layoutAt? opts) :=
    map_layoutAt?_rootPlaces ht hlocation ▸ List.mem_map_of_mem hk'
  obtain ⟨k, hk, hsame⟩ := List.mem_map.1 hmem
  exact hsame ▸ hread r hr k hk

theorem catalogAt_again : catalogAt t opts files' = catalogAt t opts files := by
  rw [catalogAt_allLayoutFiles ht hfiles', catalogAt_allLayoutFiles ht hfiles]
  refine h.ofList_flatMap fun r r' hlocation => ?_
  have hsame : ((t.rootPlaces r').map (t.layoutAt? opts)).filterMap id =
      ((t.rootPlaces r).map (t.layoutAt? opts)).filterMap id :=
    congrArg _ (map_layoutAt?_rootPlaces ht hlocation)
  simpa only [Tree.rootLayouts, List.filterMap_map, Function.id_comp] using hsame

/-- No file is left out. -/
theorem size_le_again : files.size ≤ files'.size := by
  have hsubset : files.places ⊆ files'.places := by
    intro k hk
    rw [places_allLayoutFiles ht hfiles, List.mem_eraseDups, List.mem_flatMap] at hk
    obtain ⟨r, hr, hk⟩ := hk
    rw [places_allLayoutFiles ht hfiles', List.mem_eraseDups]
    exact List.mem_flatMap.2 ⟨r, h.sublist.subset hr, hk⟩
  have hlength := (List.subperm_of_subset files.places_nodup hsubset).length_le
  simpa only [PathSet.size, PathSet.places, List.length_map] using hlength

end

/-- **Naming roots again changes no holder.**  A compile run without pruning that succeeds succeeds
as well if some of its roots are named again further behind, in any spelling: it writes the same
holders in the same order, finds the same ones up to date and the same layouts without views, and
leaves the same tree with the same changes.  It only may read more files. -/
theorem compile_rootsAgain {opts : CompileOptions} (hprune : opts.pruneStale = false) {t : Tree}
    (ht : t.Spelled) {roots roots' : List Path} (h : NamesAgain [] roots roots') {report : Report}
    (hok : (compile opts roots t).result = .ok report) :
    ∃ parsed, report.parsed ≤ parsed ∧
      (compile opts roots' t).result = .ok { report with parsed := parsed } ∧
      (compile opts roots' t).store = (compile opts roots t).store := by
  obtain ⟨files, hfiles, hrun, hstore⟩ := compile_eq_ok hok
  obtain ⟨files', hfiles'⟩ := exists_allLayoutFiles_again ht hfiles h
  obtain ⟨hread, outputs, pruned, hwrite, hpruned, hend, rfl⟩ := run_stages hrun
  have hcatalog : catalogAt t opts files' = catalogAt t opts files :=
    catalogAt_again ht hfiles h hfiles'
  have hsame : writeStage opts t files' = writeStage opts t files := by
    rw [writeStage, hcatalog, writeStage]
  have hidle (fs : PathSet) :
      pruneStage opts t fs [] = ⟨(writeStage opts t fs).store, [], .ok []⟩ := by
    rw [pruneStage, prune]
    exact if_pos (by rw [hprune]; rfl)
  have hnone : pruned = [] := by
    rw [hidle] at hpruned
    exact (Except.ok.inj hpruned).symm
  obtain ⟨hresult, hend'⟩ := run_of_stages .full (readable_again ht hfiles h hfiles' hread)
    (hsame ▸ hwrite) (by rw [hidle] : (pruneStage opts t files' []).result = .ok [])
  have hcompile : compile opts roots' t = run opts .full files' [] t := by rw [compile, hfiles']
  refine ⟨files'.size, size_le_again ht hfiles h hfiles', ?_, ?_⟩
  · rw [hcompile, hresult, hcatalog, hnone]
  · rw [hcompile, hend', hstore, hend, hidle, hidle, hsame]

/-- Two resource roots with variants of one layout. -/
def variantRoots : Tree :=
  .ofFiles [(⟨"lib/layout/main.xml"⟩, sampleText "a"), (⟨"app/layout/main.xml"⟩, sampleText "b")]

/-- The two roots are named three more times, twice with other steps. -/
theorem compile_rootsAgain_variantRoots :
    let opts : CompileOptions := { sampleOptions with pruneStale := false }
    let roots : List Path := [⟨"lib"⟩, ⟨"app"⟩]
    let roots' : List Path := [⟨"lib"⟩, ⟨"./lib"⟩, ⟨"app"⟩, ⟨"lib//"⟩, ⟨"./app/."⟩]
    opts.pruneStale = false ∧ variantRoots.Spelled ∧ NamesAgain [] roots roots' ∧
      (compile opts roots variantRoots).result = .ok ⟨2, [holderPath opts "main"], [], [], []⟩ ∧
      ∃ parsed, 2 ≤ parsed ∧
        (compile opts roots' variantRoots).result =
          .ok ⟨parsed, [holderPath opts "main"], [], [], []⟩ ∧
        (compile opts roots' variantRoots).store = (compile opts roots variantRoots).store := by
  intro opts roots roots'
  have hspelled : variantRoots.Spelled := Tree.spelled_ofFiles _
  have hagain : NamesAgain [] roots roots' :=
    .root _ <| .again (r := ⟨"lib"⟩) (by decide) (by decide +kernel) <| .root _ <|
      .again (r := ⟨"lib"⟩) (by decide) (by decide +kernel) <|
        .again (r := ⟨"app"⟩) (by decide) (by decide +kernel) (.nil _)
  have hok : (compile opts roots variantRoots).result =
      .ok ⟨2, [holderPath opts "main"], [], [], []⟩ := by
    decide +kernel
  exact ⟨rfl, hspelled, hagain, hok, compile_rootsAgain rfl hspelled hagain hok⟩

end ViewHolder
