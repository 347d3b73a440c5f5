import ViewHolder.Proofs.RunSuccess

/-!
# Parts of a run

What a run does about some of its layouts is what a run about these layouts alone does, as long as
they share no holder with the other layouts of the run, and as long as both runs find the same files
and the same holders of these layouts.  So a run succeeds if it is made up of parts that succeed, and
it leaves the holders of each part as the part leaves them.

## Main definitions

* `removedNames` : the layouts of the files that are reported as removed.
* `RunPart` : a run that does what another run does about some of its layouts.

## Main results

* `run_of_parts` : a run that is covered by successful parts succeeds.
* `RunPart.textAt?_eq` : the holders of a part after the whole run.
-/

namespace ViewHolder

/-- The layouts of the files that are reported as removed. -/
def removedNames (removed : List Path) : List String :=
  (removed.filterMap LayoutFile.ofPath?).map (·.layoutName)

section

variable {opts : CompileOptions}

theorem placeHolders_congr {texts texts' : Location → Option String} {ls ls' : List Layout}
    {k : Location} (htext : texts' k = texts k)
    (hls : (ls'.filter fun l => holderLocation opts l.name = k) =
      ls.filter fun l => holderLocation opts l.name = k) :
    placeHolders opts texts' ls' k = placeHolders opts texts ls k := by
  rw [placeHolders_apply, placeHolders_apply, hls, htext]

end

/-! ### Parts -/

/-- A run over some files of a tree does what another run, over other files of another tree, does
about its layouts with some names. -/
structure RunPart (opts : CompileOptions) (p : String → Bool) (t : Tree) (files : PathSet)
    (removed : List Path) (t' : Tree) (files' : PathSet) (removed' : List Path) : Prop where
  /-- The files of the part are those of the whole with these names, in the same order. -/
  places : (files'.places.filter fun k => p (Path.stemAt k)) = files.places
  /-- The layouts of the removed files of the part are those of the whole with these names. -/
  gone : (removedNames removed').filter p = removedNames removed
  /-- The other layouts of the whole have other holders. -/
  apart : ∀ m ∈ runNames files removed, ∀ n ∈ runNames files' removed',
    holderLocation opts m = holderLocation opts n → p n = true
  /-- The files of the part hold the same layouts. -/
  layouts : ∀ k ∈ files.places, t'.layoutAt? opts k = t.layoutAt? opts k
  /-- The holders of the part are the same, and so is what stands in their way. -/
  holders : ∀ n ∈ runNames files removed,
    t'.textAt? (holderLocation opts n) = t.textAt? (holderLocation opts n) ∧
      t'.textAt? (holderLocation opts n).dropLast = t.textAt? (holderLocation opts n).dropLast
  /-- The same changes are denied. -/
  frozen : t'.frozen = t.frozen
  /-- The same layout files are listed before pruning. -/
  listed : allLayoutFiles (writeStage opts t' files').store opts.resDirs =
    allLayoutFiles (writeStage opts t files).store opts.resDirs
  /-- The same layouts of the part are backed. -/
  backed : ∀ listed, allLayoutFiles (writeStage opts t files).store opts.resDirs = .ok listed →
    ∀ n ∈ runNames files removed,
      (n ∈ backedNames listed files' removed' ↔ n ∈ backedNames listed files removed)

namespace RunPart

variable {opts : CompileOptions} {p : String → Bool} {t t' : Tree} {files files' : PathSet}
  {removed removed' : List Path} {n : String}
  (h : RunPart opts p t files removed t' files' removed')
include h

theorem filter_runNames : (runNames files' removed').filter p = runNames files removed := by
  have hgone := h.gone
  rw [removedNames, removedNames] at hgone
  rw [runNames, runNames, List.filter_append, List.filter_map, ← h.places, hgone]
  rfl

theorem mem_runNames_iff :
    n ∈ runNames files removed ↔ n ∈ runNames files' removed' ∧ p n = true := by
  rw [← h.filter_runNames, List.mem_filter]

theorem filter_layouts : ((catalogAt t' opts files').layouts.filter fun l => p l.name) =
    (catalogAt t opts files).layouts := by
  rw [catalogAt, catalogAt, Catalog.filter_ofList, Tree.filter_layouts, h.places,
    List.filterMap_congr h.layouts]

theorem filter_filled : ((catalogAt t' opts files').filled.filter fun l => p l.name) =
    (catalogAt t opts files).filled := by
  rw [Catalog.filled, Catalog.filled, ← h.filter_layouts, List.filter_comm]

theorem filter_emptyNames : (catalogAt t' opts files').emptyNames.filter p =
    (catalogAt t opts files).emptyNames := by
  rw [Catalog.emptyNames, Catalog.emptyNames, ← h.filter_layouts, List.filter_map, List.filter_comm]
  rfl

theorem contains_eq (hn : p n = true) :
    (catalogAt t' opts files').contains n = (catalogAt t opts files).contains n := by
  rw [Catalog.contains, Catalog.contains, Catalog.find?, Catalog.find?, ← h.filter_layouts,
    List.find?_filter]
  refine congrArg Option.isSome (congrArg (fun q => List.find? q _) (funext fun l => ?_))
  by_cases hl : l.name = n
  · simp [hl, hn]
  · simp [hl]

/-- The stale layouts of a part. -/
theorem filter_stale : (runStale opts t' files' removed').filter p = runStale opts t files removed := by
  have hgone := h.gone
  rw [removedNames, removedNames] at hgone
  rw [runStale, runStale, staleNames, staleNames, List.filter_append, h.filter_emptyNames,
    List.filter_comm, hgone]
  refine congrArg _ (List.filter_congr fun n hn => ?_)
  have hp : n ∈ runNames files removed := List.mem_append_right _ hn
  rw [h.contains_eq (h.mem_runNames_iff.1 hp).2]

theorem accepts_iff {l : Layout} (hl : l.name ∈ runNames files removed) :
    t'.Accepts opts l ↔ t.Accepts opts l := by
  obtain ⟨htext, hdir⟩ := h.holders l.name hl
  rw [Tree.Accepts, Tree.Accepts, Tree.UpToDate, Tree.UpToDate, htext,
    Tree.isOpen_congr h.frozen hdir]

/-- The holders of a part after the writing stage. -/
theorem placeHolders_eq (hn : n ∈ runNames files removed) :
    placeHolders opts t'.textAt? (catalogAt t' opts files').filled (holderLocation opts n) =
      placeHolders opts t.textAt? (catalogAt t opts files).filled (holderLocation opts n) := by
  refine placeHolders_congr (h.holders n hn).1 ?_
  rw [← h.filter_filled, List.filter_filter]
  refine List.filter_congr fun l hl => ?_
  have hname : l.name ∈ runNames files' removed' :=
    List.mem_append_left _ (name_mem_of_mem_catalogAt (List.mem_filter.1 hl).1)
  by_cases hshare : holderLocation opts l.name = holderLocation opts n
  · simp [hshare, h.apart n hn l.name hname hshare.symm]
  · simp [hshare]

/-- The layouts of a part whose holders are deleted. -/
theorem mem_unbackedNames {names names' : List String}
    (hnames : unbackedNames opts (writeStage opts t files).store files
      (runStale opts t files removed) removed = .ok names)
    (hnames' : unbackedNames opts (writeStage opts t' files').store files'
      (runStale opts t' files' removed') removed' = .ok names')
    (hn : n ∈ runNames files removed) : n ∈ names' ↔ n ∈ names := by
  have hstale : n ∈ runStale opts t' files' removed' ↔ n ∈ runStale opts t files removed := by
    rw [← h.filter_stale, List.mem_filter, and_iff_left (h.mem_runNames_iff.1 hn).2]
  rw [mem_unbackedNames_iff hnames, mem_unbackedNames_iff hnames', hstale, h.listed]
  refine and_congr_right fun _ => and_congr_right fun _ => forall_congr' fun listed => ?_
  exact imp_congr_right fun hlisted => not_congr (h.backed listed hlisted n hn)

variable {mode mode' : CompileMode} {report report' : Report}
  (hok : (run opts mode files removed t).result = .ok report)
  (hok' : (run opts mode' files' removed' t').result = .ok report')
include hok hok'

/-- **The holders of a part after the whole run** are what the part leaves. -/
theorem textAt?_eq (hn : n ∈ runNames files removed) :
    (run opts mode' files' removed' t').store.textAt? (holderLocation opts n) =
      (run opts mode files removed t).store.textAt? (holderLocation opts n) := by
  obtain ⟨names, hnames, htexts⟩ := run_textAt? hok
  obtain ⟨names', hnames', htexts'⟩ := run_textAt? hok'
  have hdrop : (∃ m ∈ names', holderLocation opts n = holderLocation opts m) ↔
      ∃ m ∈ names, holderLocation opts n = holderLocation opts m := by
    refine exists_congr fun m => and_congr_left fun hshare => ⟨fun hm => ?_, fun hm => ?_⟩
    · have hmem : m ∈ runNames files' removed' :=
        staleNames_subset ((mem_unbackedNames_iff hnames').1 hm).2.1
      have hpart := h.mem_runNames_iff.2 ⟨hmem, h.apart n hn m hmem hshare⟩
      exact (h.mem_unbackedNames hnames hnames' hpart).1 hm
    · have hpart : m ∈ runNames files removed :=
        staleNames_subset ((mem_unbackedNames_iff hnames).1 hm).2.1
      exact (h.mem_unbackedNames hnames hnames' hpart).2 hm
  rw [htexts, htexts']
  by_cases hgone : ∃ m ∈ names, holderLocation opts n = holderLocation opts m
  · rw [dropHolders_of_mem hgone, dropHolders_of_mem (hdrop.2 hgone)]
  · rw [dropHolders_of_notMem hgone, dropHolders_of_notMem (mt hdrop.1 hgone), h.placeHolders_eq hn]

end RunPart

/-- Runs over the same files that do the same are parts of each other. -/
theorem RunPart.symm {opts : CompileOptions} {t t' : Tree} {files : PathSet} {removed : List Path}
    (h : RunPart opts (fun _ => true) t files removed t' files removed) :
    RunPart opts (fun _ => true) t' files removed t files removed where
  places := h.places
  gone := h.gone
  apart := h.apart
  layouts k hk := (h.layouts k hk).symm
  holders n hn := ⟨(h.holders n hn).1.symm, (h.holders n hn).2.symm⟩
  frozen := h.frozen.symm
  listed := h.listed.symm
  backed _ _ _ _ := Iff.rfl

/-- **A run that is covered by successful parts succeeds.** -/
theorem run_of_parts {opts : CompileOptions} {t' : Tree} {files' : PathSet} {removed' : List Path}
    (hcover : ∀ n ∈ runNames files' removed', ∃ p t files removed,
      RunPart opts p t files removed t' files' removed' ∧ p n = true ∧
        ∃ mode report, (run opts mode files removed t).result = .ok report) (mode' : CompileMode) :
    ∃ report', (run opts mode' files' removed' t').result = .ok report' := by
  -- Every condition for success is about one name of the run, so it is met in the part of this name.
  have haccepts : ∀ l ∈ (catalogAt t' opts files').filled, t'.Accepts opts l := by
    intro l hl
    have hname : l.name ∈ runNames files' removed' :=
      List.mem_append_left _ (name_mem_of_mem_catalogAt (List.mem_filter.1 hl).1)
    obtain ⟨p, t, files, removed, h, hp, mode, report, hok⟩ := hcover l.name hname
    obtain ⟨-, hpart, -⟩ := exists_run_iff.1 ⟨report, hok⟩
    refine (h.accepts_iff (h.mem_runNames_iff.2 ⟨hname, hp⟩)).2 (hpart l ?_)
    rw [← h.filter_filled]
    exact List.mem_filter.2 ⟨hl, hp⟩
  obtain ⟨outputs', hwrite'⟩ : ∃ outputs, (writeStage opts t' files').result = .ok outputs :=
    (exists_writeAll_iff fun l hl => slash_notMem_name hl).2 haccepts
  obtain ⟨names', hnames'⟩ : ∃ names', unbackedNames opts (writeStage opts t' files').store files'
      (runStale opts t' files' removed') removed' = .ok names' := by
    refine exists_unbackedNames_iff.2 fun hprune hstale => ?_
    obtain ⟨n, hn⟩ := List.exists_mem_of_ne_nil _ hstale
    obtain ⟨p, t, files, removed, h, hp, mode, report, hok⟩ := hcover n (staleNames_subset hn)
    obtain ⟨-, -, names, hnames, -⟩ := exists_run_iff.1 ⟨report, hok⟩
    have hpart : n ∈ runStale opts t files removed := by
      rw [← h.filter_stale]
      exact List.mem_filter.2 ⟨hn, hp⟩
    rw [h.listed]
    exact exists_unbackedNames_iff.1 ⟨names, hnames⟩ hprune (List.ne_nil_of_mem hpart)
  refine exists_run_iff.2 ⟨fun k hk => ?_, haccepts, names', hnames', fun n hn => ?_⟩
  · have hname : Path.stemAt k ∈ runNames files' removed' :=
      List.mem_append_left _ (List.mem_map_of_mem hk)
    obtain ⟨p, t, files, removed, h, hp, mode, report, hok⟩ := hcover _ hname
    have hpart : k ∈ files.places := by
      rw [← h.places]
      exact List.mem_filter.2 ⟨hk, hp⟩
    rw [h.layouts k hpart]
    exact (run_eq_ok hok).1 k hpart
  · have hname : n ∈ runNames files' removed' :=
      staleNames_subset ((mem_unbackedNames_iff hnames').1 hn).2.1
    obtain ⟨p, t, files, removed, h, hp, mode, report, hok⟩ := hcover n hname
    have hpart : n ∈ runNames files removed := h.mem_runNames_iff.2 ⟨hname, hp⟩
    obtain ⟨-, -, names, hnames, hreleases⟩ := exists_run_iff.1 ⟨report, hok⟩
    obtain ⟨-, ⟨outputs, hwrite⟩, -⟩ := run_eq_ok hok
    have hfrozen : (writeStage opts t' files').store.frozen =
        (writeStage opts t files).store.frozen := by
      rw [writeStage_frozen, writeStage_frozen, h.frozen]
    have htext : (writeStage opts t' files').store.textAt? (holderLocation opts n) =
        (writeStage opts t files).store.textAt? (holderLocation opts n) := by
      rw [writeStage_placed hwrite', writeStage_placed hwrite]
      exact h.placeHolders_eq hpart
    have hrelease := hreleases n ((h.mem_unbackedNames hnames hnames' hpart).1 hn)
    rw [Tree.Releases, Tree.hasFile, Tree.isFrozen] at hrelease ⊢
    rwa [htext, hfrozen]

end ViewHolder
