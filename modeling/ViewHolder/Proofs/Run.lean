import ViewHolder.Proofs.Catalog
import ViewHolder.Proofs.HolderStages
import ViewHolder.Proofs.Listing

/-!
# What a run does to a tree

A run changes nothing but the holders of the layouts that it reads and of the files that it is
told are gone, whether it succeeds or fails.  A successful run leaves the source of every layout
with views in its holder, and with pruning no holder of a stale layout that is not backed.

## Main definitions

* `writeStage`, `pruneStage` : the two stages of a run.
* `runNames` : the names of the layouts that a run is about.

## Main results

* `run_rel` : what the steps of a run keep, the run keeps.
* `run_changedAt` : a run, failing or not, changes the holders of its layouts only.
* `run_source` : after a successful run the holder of a layout with views is its source.
* `run_pruned` : after a successful run with pruning, stale holders that are not backed are gone.
-/

namespace ViewHolder

/-! ### Reading -/

theorem readLayout_eq_ok {opts : CompileOptions} {t : Tree} {p : Path} {l : Layout} :
    readLayout opts t p = .ok l ↔ t.layoutAt? opts p.steps = some l := by
  rw [Tree.layoutAt?_eq_some, readLayout, ← Path.stem_eq_stemAt]
  have hread : Store.read t p = t.read p := rfl
  have hloc : p.steps.filter (· != .here) = p.location := rfl
  rw [hread, Tree.read, hloc]
  cases t.textAt? p.location with
  | none => simp
  | some text =>
    simp only [Option.some.injEq, exists_eq_left']
    cases Layout.read opts.reading p.stem text <;> simp

theorem readAll_store (opts : CompileOptions) (t : Tree) (ps : List Path) :
    (readAll opts t ps).store = t := by
  cases ps with
  | nil => rfl
  | cons p ps =>
    rw [readAll]
    split <;> rfl

theorem readAll_eq_ok {opts : CompileOptions} {t : Tree} {ps : List Path} {ls : List Layout}
    (h : (readAll opts t ps).result = .ok ls) :
    (∀ k ∈ ps.map Path.steps, ∃ l, t.layoutAt? opts k = some l) ∧
      ls = (ps.map Path.steps).filterMap (t.layoutAt? opts) := by
  induction ps generalizing ls with
  | nil => exact ⟨by simp, (Except.ok.inj h).symm⟩
  | cons p ps ih =>
    rw [readAll] at h
    split at h
    · cases h
    · rename_i l hl
      rw [readLayout_eq_ok] at hl
      cases hrest : (readAll opts t ps).result with
      | error e =>
        simp only [hrest] at h
        cases h
      | ok rest =>
        obtain ⟨hthere, rfl⟩ := ih hrest
        simp only [hrest] at h
        rw [List.map_cons, List.filterMap_cons_some hl]
        refine ⟨fun k hk => ?_, (Except.ok.inj h).symm⟩
        rcases List.mem_cons.1 hk with rfl | hk
        · exact ⟨l, hl⟩
        · exact hthere k hk

/-- Files that all hold a layout are read. -/
theorem readAll_of_layouts {opts : CompileOptions} {t : Tree} {ps : List Path}
    (h : ∀ k ∈ ps.map Path.steps, ∃ l, t.layoutAt? opts k = some l) :
    (readAll opts t ps).result = .ok ((ps.map Path.steps).filterMap (t.layoutAt? opts)) := by
  induction ps with
  | nil => rfl
  | cons p ps ih =>
    obtain ⟨⟨l, hl⟩, hrest⟩ := List.forall_mem_cons.1 h
    have hread : readLayout opts t p = .ok l := readLayout_eq_ok.2 hl
    rw [readAll, hread, List.map_cons, List.filterMap_cons_some hl]
    exact congrArg (Except.map (l :: ·)) (ih hrest)

/-! ### Runs -/

/-- The layouts without views of a catalog. -/
def Catalog.emptyNames (c : Catalog) : List String := (c.layouts.filter (·.isEmpty)).map (·.name)

/-- The layouts with views of a catalog. -/
def Catalog.filled (c : Catalog) : List Layout := c.layouts.filter fun l => !l.isEmpty

/-- The catalog of the layouts that some files hold. -/
def catalogAt (t : Tree) (opts : CompileOptions) (files : PathSet) : Catalog :=
  .ofList (files.places.filterMap (t.layoutAt? opts))

/-- The writing stage of a run over some files. -/
def writeStage (opts : CompileOptions) (t : Tree) (files : PathSet) : Progress Tree (List Output) :=
  writeAll opts t (catalogAt t opts files).filled

/-- The pruning stage of a run over some files, after its writing stage. -/
def pruneStage (opts : CompileOptions) (t : Tree) (files : PathSet) (removed : List Path) :
    Progress Tree (List Path) :=
  prune opts (writeStage opts t files).store files (catalogAt t opts files)
    (catalogAt t opts files).emptyNames removed

/-- The names of the layouts that a run is about. -/
def runNames (files : PathSet) (removed : List Path) : List String :=
  files.places.map Path.stemAt ++ (removed.filterMap LayoutFile.ofPath?).map (·.layoutName)

section

variable {opts : CompileOptions} {files : PathSet} {removed : List Path}

theorem slash_notMem_runNames {n : String} (hn : n ∈ runNames files removed) :
    '/' ∉ n.toList := by
  rcases List.mem_append.1 hn with hn | hn
  · obtain ⟨k, hk, rfl⟩ := List.mem_map.1 hn
    obtain ⟨p, -, rfl⟩ := List.mem_map.1 hk
    rw [← Path.stem_eq_stemAt]
    exact p.slash_notMem_stem
  · obtain ⟨f, -, rfl⟩ := List.mem_map.1 hn
    exact f.path.slash_notMem_stem

theorem name_mem_of_mem_catalogAt {t : Tree} {l : Layout}
    (hl : l ∈ (catalogAt t opts files).layouts) : l.name ∈ files.places.map Path.stemAt := by
  rw [catalogAt, Catalog.mem_layouts_iff, Tree.find?_catalog] at hl
  by_contra hname
  have hnone : files.places.filter (Path.stemAt · == l.name) = [] := by
    refine List.filter_eq_nil_iff.2 fun k hk h => hname ?_
    exact List.mem_map.2 ⟨k, hk, by simpa using h⟩
  rw [hnone] at hl
  cases hl

theorem slash_notMem_name {t : Tree} {l : Layout}
    (hl : l ∈ (catalogAt t opts files).filled) : '/' ∉ l.name.toList := by
  have hname : l.name ∈ runNames files [] :=
    List.mem_append_left _ (name_mem_of_mem_catalogAt (List.mem_filter.1 hl).1)
  exact slash_notMem_runNames hname

/-- The writing stage puts the holders of the layouts with views in place. -/
theorem writeStage_placed {t : Tree} {outputs : List Output}
    (h : (writeStage opts t files).result = .ok outputs) :
    (writeStage opts t files).store.textAt? =
      placeHolders opts t.textAt? (catalogAt t opts files).filled :=
  writeAll_placed (fun _ hl => slash_notMem_name hl) h

/-- What the writing stage has made are the holders of the layouts with views, in their order. -/
theorem writeStage_files {t : Tree} {outputs : List Output}
    (h : (writeStage opts t files).result = .ok outputs) :
    outputs.map Output.file =
      (catalogAt t opts files).filled.map fun l => holderPath opts l.name :=
  writeAll_files (fun _ hl => slash_notMem_name hl) h

/-- The layouts of a run stand in the order in which its files name them first. -/
theorem names_catalogAt {t : Tree}
    (hread : ∀ k ∈ files.places, ∃ l, t.layoutAt? opts k = some l) :
    (catalogAt t opts files).layouts.map (·.name) = (files.toList.map Path.stem).eraseDups := by
  rw [catalogAt, Catalog.names_ofList, PathSet.places, List.filterMap_map, List.map_filterMap]
  refine congrArg List.eraseDups ?_
  rw [← List.filterMap_eq_map]
  refine List.filterMap_congr fun p hp => ?_
  obtain ⟨l, hl⟩ := hread _ (List.mem_map_of_mem hp)
  rw [Function.comp_apply, hl, Option.map_some, Tree.name_of_layoutAt? hl, ← Path.stem_eq_stemAt]
  rfl

/-- The catalog of some files depends on what these files hold. -/
theorem catalogAt_congr {t t' : Tree}
    (h : ∀ k ∈ files.places, t'.layoutAt? opts k = t.layoutAt? opts k) :
    catalogAt t' opts files = catalogAt t opts files := by
  rw [catalogAt, catalogAt, List.filterMap_congr h]

theorem staleNames_subset {t : Tree} {n : String}
    (hn : n ∈ staleNames (catalogAt t opts files) (catalogAt t opts files).emptyNames removed) :
    n ∈ runNames files removed := by
  rcases List.mem_append.1 hn with hn | hn
  · obtain ⟨l, hl, rfl⟩ := List.mem_map.1 hn
    exact List.mem_append_left _ (name_mem_of_mem_catalogAt (List.mem_filter.1 hl).1)
  · exact List.mem_append_right _ (List.mem_filter.1 hn).1

section

variable {R : Tree → Tree → Prop} (hrefl : ∀ t, R t t)
  (htrans : ∀ t t' t'', R t t' → R t' t'' → R t t'')
  (hwrite : ∀ l, l.name ∈ runNames files removed → ∀ t, R t (writeHolder opts t l).store)
include hrefl htrans hwrite

/-- What the steps of a run keep, its writing stage keeps. -/
theorem writeStage_rel (t : Tree) : R t (writeStage opts t files).store :=
  (writeAll_isLoop opts).store_rel hrefl htrans fun l hl s =>
    hwrite l (List.mem_append_left _ (name_mem_of_mem_catalogAt (List.mem_filter.1 hl).1)) s

variable (hprune : ∀ n ∈ runNames files removed, ∀ t, R t (pruneHolder opts t n).store)
include hprune

/-- What the steps of a run keep, its two changing stages keep. -/
theorem pruneStage_rel (t : Tree) : R t (pruneStage opts t files removed).store := by
  refine htrans _ _ _ (writeStage_rel hrefl htrans hwrite t) ?_
  rw [pruneStage, prune_eq]
  split
  · exact hrefl _
  · rename_i names hnames
    exact (pruneAll_isLoop opts).store_rel hrefl htrans fun n hn s =>
      hprune n (staleNames_subset ((unbackedNames_sublist hnames).subset hn)) s

/-- **What the steps of a run keep, the run keeps**, whether it succeeds or fails. -/
theorem run_rel (t : Tree) (mode : CompileMode) :
    R t (run opts mode files removed t).store := by
  unfold run
  split
  · exact hrefl t
  · refine Progress.andThen_store (hrefl t) fun _ _ => ?_
    refine Progress.andThen_store (by rw [readAll_store]; exact hrefl t) fun ls hls => ?_
    obtain ⟨-, rfl⟩ := readAll_eq_ok hls
    rw [readAll_store]
    refine Progress.andThen_store (hrefl t) fun _ _ => ?_
    refine Progress.andThen_store (writeStage_rel hrefl htrans hwrite t) fun _ _ => ?_
    refine Progress.andThen_store (pruneStage_rel hrefl htrans hwrite hprune t) fun _ _ => ?_
    exact pruneStage_rel hrefl htrans hwrite hprune t

end

/-- The steps of a run change the holders of its layouts only. -/
private theorem steps_changedAt (opts : CompileOptions) (files : PathSet) (removed : List Path) :
    (∀ l, l.name ∈ runNames files removed → ∀ t,
      Tree.ChangedAt (fun k => ∃ n ∈ runNames files removed, k = holderLocation opts n) t
        (writeHolder opts t l).store) ∧
    ∀ n ∈ runNames files removed, ∀ t,
      Tree.ChangedAt (fun k => ∃ n ∈ runNames files removed, k = holderLocation opts n) t
        (pruneHolder opts t n).store :=
  ⟨fun l hl t => (writeHolder_changedAt (slash_notMem_runNames hl) t).mono
      fun _ hk => ⟨l.name, hl, hk⟩,
    fun n hn t => (pruneHolder_changedAt t n).mono fun _ hk => ⟨n, hn, hk⟩⟩

variable (opts) in
theorem writeStage_changedAt (t : Tree) (files : PathSet) (removed : List Path) :
    Tree.ChangedAt (fun k => ∃ n ∈ runNames files removed, k = holderLocation opts n) t
      (writeStage opts t files).store :=
  writeStage_rel (.refl _) (fun _ _ _ => .trans) (steps_changedAt opts files removed).1 t

variable (opts) in
theorem pruneStage_changedAt (t : Tree) (files : PathSet) (removed : List Path) :
    Tree.ChangedAt (fun k => ∃ n ∈ runNames files removed, k = holderLocation opts n) t
      (pruneStage opts t files removed).store :=
  pruneStage_rel (.refl _) (fun _ _ _ => .trans) (steps_changedAt opts files removed).1
    (steps_changedAt opts files removed).2 t

variable (opts) in
/-- **A run changes the holders of its layouts only**, whether it succeeds or fails. -/
theorem run_changedAt (t : Tree) (mode : CompileMode) (files : PathSet) (removed : List Path) :
    Tree.ChangedAt (fun k => ∃ n ∈ runNames files removed, k = holderLocation opts n) t
      (run opts mode files removed t).store :=
  run_rel (.refl _) (fun _ _ _ => .trans) (steps_changedAt opts files removed).1
    (steps_changedAt opts files removed).2 t mode

/-- Nothing happens where there is nothing to read and nothing to delete. -/
private theorem pruneStage_of_isEmpty {t : Tree} (hfiles : files.places = [])
    (hnothing : opts.pruneStale = true → removed = []) :
    writeStage opts t files = ⟨t, [], .ok []⟩ ∧
      pruneStage opts t files removed = ⟨t, [], .ok []⟩ := by
  have hcatalog : catalogAt t opts files = .empty := by
    rw [catalogAt, hfiles]
    rfl
  have hwrite : writeStage opts t files = ⟨t, [], .ok []⟩ := by
    rw [writeStage, hcatalog]
    rfl
  refine ⟨hwrite, ?_⟩
  rw [pruneStage, hwrite, hcatalog, prune]
  refine if_pos ?_
  cases hopt : opts.pruneStale with
  | false => rfl
  | true =>
    rw [hnothing hopt]
    rfl

/-- A successful run reads all its files, its stages succeed, and it reports what they did. -/
theorem run_stages {t : Tree} {mode : CompileMode} {report : Report}
    (h : (run opts mode files removed t).result = .ok report) :
    (∀ k ∈ files.places, ∃ l, t.layoutAt? opts k = some l) ∧ ∃ outputs pruned,
      (writeStage opts t files).result = .ok outputs ∧
      (pruneStage opts t files removed).result = .ok pruned ∧
      (run opts mode files removed t).store = (pruneStage opts t files removed).store ∧
      report = ⟨files.size, outputs.filterMap (·.written?), outputs.filterMap (·.unchanged?),
        (catalogAt t opts files).emptyNames, pruned⟩ := by
  unfold run at h ⊢
  split at h
  · rename_i hnothing
    rw [if_pos hnothing]
    obtain ⟨hfiles, hprune⟩ := Bool.and_eq_true_iff.1 hnothing
    have hnil : files.toList = [] := List.isEmpty_iff.1 hfiles
    have hplaces : files.places = [] := by rw [PathSet.places, hnil]; rfl
    have hquiet : opts.pruneStale = true → removed = [] := by
      intro hopt
      simpa [hopt] using hprune
    obtain ⟨hwrite, hprune⟩ := pruneStage_of_isEmpty (t := t) hplaces hquiet
    rw [hwrite, hprune]
    refine ⟨by simp [hplaces], [], [], rfl, rfl, rfl, (Except.ok.inj h).symm.trans ?_⟩
    rw [PathSet.size, hnil, catalogAt, hplaces]
    rfl
  · rename_i hsome
    rw [if_neg hsome]
    obtain ⟨-, -, hrest, hstore⟩ := Progress.andThen_eq_ok h
    obtain ⟨ls, hls, hrest₂, hstore₂⟩ := Progress.andThen_eq_ok hrest
    obtain ⟨hthere, rfl⟩ := readAll_eq_ok hls
    rw [readAll_store] at hrest₂ hstore₂
    obtain ⟨-, -, hrest₃, hstore₃⟩ := Progress.andThen_eq_ok hrest₂
    obtain ⟨outputs, hwrite, hrest₄, hstore₄⟩ := Progress.andThen_eq_ok hrest₃
    obtain ⟨pruned, hprune, hreport, hstore₅⟩ := Progress.andThen_eq_ok hrest₄
    refine ⟨hthere, outputs, pruned, hwrite, hprune, ?_, (Except.ok.inj hreport).symm⟩
    rw [hstore, hstore₂, hstore₃, hstore₄, hstore₅]
    rfl

/-- A run with something to do whose stages succeed takes one stage after the other. -/
theorem run_eq_of_stages {t : Tree} (mode : CompileMode) {outputs : List Output}
    {pruned : List Path} (hread : ∀ k ∈ files.places, ∃ l, t.layoutAt? opts k = some l)
    (hwrite : (writeStage opts t files).result = .ok outputs)
    (hprune : (pruneStage opts t files removed).result = .ok pruned)
    (hwork : ¬ (files.isEmpty && !(opts.pruneStale && !removed.isEmpty)) = true) :
    run opts mode files removed t = ⟨(pruneStage opts t files removed).store,
      .started mode files.size :: ((readAll opts t files.toList).events ++
        ((catalogAt t opts files).emptyNames.map .empty ++ ((writeStage opts t files).events ++
          ((pruneStage opts t files removed).events ++
            [.completed (outputs.filterMap (·.written?)).length
              (outputs.filterMap (·.unchanged?)).length (catalogAt t opts files).emptyNames.length
              pruned.length])))),
      .ok ⟨files.size, outputs.filterMap (·.written?), outputs.filterMap (·.unchanged?),
        (catalogAt t opts files).emptyNames, pruned⟩⟩ := by
  have hread := readAll_of_layouts hread
  unfold pruneStage writeStage catalogAt Catalog.filled Catalog.emptyNames PathSet.places at *
  rw [run, if_neg hwork, Progress.andThen_of_ok rfl]
  dsimp only
  rw [Progress.andThen_of_ok hread, readAll_store]
  dsimp only
  rw [Progress.andThen_of_ok rfl]
  dsimp only
  rw [Progress.andThen_of_ok hwrite]
  dsimp only
  rw [Progress.andThen_of_ok hprune]
  rfl

/-- A run whose files can be read and whose stages succeed does what its stages do. -/
theorem run_of_stages {t : Tree} (mode : CompileMode) {outputs : List Output} {pruned : List Path}
    (hread : ∀ k ∈ files.places, ∃ l, t.layoutAt? opts k = some l)
    (hwrite : (writeStage opts t files).result = .ok outputs)
    (hprune : (pruneStage opts t files removed).result = .ok pruned) :
    (run opts mode files removed t).result = .ok ⟨files.size, outputs.filterMap (·.written?),
        outputs.filterMap (·.unchanged?), (catalogAt t opts files).emptyNames, pruned⟩ ∧
      (run opts mode files removed t).store = (pruneStage opts t files removed).store := by
  by_cases hwork : (files.isEmpty && !(opts.pruneStale && !removed.isEmpty)) = true
  · have hidle : run opts mode files removed t = ⟨t, [], .ok .nothing⟩ := if_pos hwork
    obtain ⟨-, outputs', pruned', hwrite', hprune', hstore, hreport⟩ := run_stages
      (by rw [hidle] : (run opts mode files removed t).result = .ok .nothing)
    obtain rfl : outputs = outputs' := Except.ok.inj (hwrite.symm.trans hwrite')
    obtain rfl : pruned = pruned' := Except.ok.inj (hprune.symm.trans hprune')
    exact ⟨by rw [← hreport, hidle], hstore⟩
  · rw [run_eq_of_stages mode hread hwrite hprune hwork]
    exact ⟨rfl, rfl⟩

/-- A successful run reads all its files, and its stages succeed. -/
theorem run_eq_ok {t : Tree} {mode : CompileMode} {report : Report}
    (h : (run opts mode files removed t).result = .ok report) :
    (∀ k ∈ files.places, ∃ l, t.layoutAt? opts k = some l) ∧
      (∃ outputs, (writeStage opts t files).result = .ok outputs) ∧
      (∃ pruned, (pruneStage opts t files removed).result = .ok pruned) ∧
      (run opts mode files removed t).store = (pruneStage opts t files removed).store := by
  obtain ⟨hread, outputs, pruned, hwrite, hprune, hstore, -⟩ := run_stages h
  exact ⟨hread, ⟨outputs, hwrite⟩, ⟨pruned, hprune⟩, hstore⟩

section

variable {t : Tree} {mode : CompileMode} {report : Report}
  (h : (run opts mode files removed t).result = .ok report)
include h

/-- **After a successful run the holder of a layout with views is its source**, unless another
layout of the run has the same class name. -/
theorem run_source {n : String} {l : Layout}
    (hl : t.merged? opts (files.places.filter (Path.stemAt · == n)) = some l)
    (hviews : l.views ≠ [])
    (hclass : ∀ m ∈ runNames files removed, Holder.className m = Holder.className n → m = n) :
    (run opts mode files removed t).store.textAt? (holderLocation opts n) =
      some (Holder.source opts.package l) := by
  obtain ⟨-, ⟨outputs, hwrite⟩, -, hstore⟩ := run_eq_ok h
  have hfind : (catalogAt t opts files).find? n = some l := (t.find?_catalog opts _ n).trans hl
  obtain rfl : l.name = n := by simpa using List.find?_some hfind
  have hmem : l ∈ (catalogAt t opts files).layouts := Catalog.mem_layouts_iff.2 hfind
  have hname : l.name ∈ runNames files removed :=
    List.mem_append_left _ (name_mem_of_mem_catalogAt hmem)
  have hunique {m : Layout} (hm : m ∈ (catalogAt t opts files).layouts) (hmn : m.name = l.name) :
      m = l := by
    rw [catalogAt, Catalog.mem_layouts_iff, hmn] at hm
    exact Option.some.inj (hm.symm.trans hfind)
  have hshare {m : String} (hm : m ∈ runNames files removed)
      (hloc : holderLocation opts m = holderLocation opts l.name) : m = l.name :=
    hclass m hm (location_holderPath_inj (slash_notMem_runNames hm) (slash_notMem_runNames hname)
      hloc)
  have hwritten : (writeStage opts t files).store.textAt? (holderLocation opts l.name) =
      some (Holder.source opts.package l) := by
    rw [writeStage_placed hwrite]
    refine placeHolders_of_mem (List.mem_filter.2 ⟨hmem, by simpa [Layout.isEmpty]⟩) ?_ _
    intro m hm hloc
    have hm := (List.mem_filter.1 hm).1
    exact hunique hm (hshare (List.mem_append_left _ (name_mem_of_mem_catalogAt hm)) hloc)
  rw [hstore, ← hwritten]
  refine (prune_changedAt _).textAt _ ?_
  rintro ⟨m, hm, hloc⟩
  obtain rfl : m = l.name := hshare (staleNames_subset hm) hloc.symm
  rcases List.mem_append.1 hm with hm | hm
  · obtain ⟨m, hm, hmn⟩ := List.mem_map.1 hm
    obtain ⟨hm, hempty⟩ := List.mem_filter.1 hm
    rw [hunique hm hmn] at hempty
    exact hviews (List.isEmpty_iff.1 hempty)
  · simp [Catalog.contains, hfind] at hm

/-- **After a successful run with pruning the holder of a layout without views is gone**, whether
its files are there or not, unless a file outside the run backs it. -/
theorem run_pruned (hprune : opts.pruneStale = true) {n : String} (hn : n ∈ runNames files removed)
    (hviews : ∀ l, t.merged? opts (files.places.filter (Path.stemAt · == n)) = some l →
      l.views = []) :
    ∃ listed, allLayoutFiles (writeStage opts t files).store opts.resDirs = .ok listed ∧
      (n ∉ backedNames listed files removed →
        (run opts mode files removed t).store.textAt? (holderLocation opts n) = none) := by
  obtain ⟨hread, -, ⟨pruned, hok⟩, hstore⟩ := run_eq_ok h
  rw [hstore]
  refine prune_gone hprune hok ?_
  have hfind : (catalogAt t opts files).find? n =
      t.merged? opts (files.places.filter (Path.stemAt · == n)) := t.find?_catalog opts _ n
  cases hmerged : t.merged? opts (files.places.filter (Path.stemAt · == n)) with
  | some l =>
    rw [hmerged] at hfind
    obtain rfl : l.name = n := by simpa using List.find?_some hfind
    refine List.mem_append_left _ (List.mem_map_of_mem (List.mem_filter.2 ⟨?_, ?_⟩))
    · exact Catalog.mem_layouts_iff.2 hfind
    · exact List.isEmpty_iff.2 (hviews l hmerged)
  | none =>
    rw [hmerged] at hfind
    refine List.mem_append_right _ (List.mem_filter.2 ⟨?_, ?_⟩)
    · refine (List.mem_append.1 hn).resolve_left fun hn => ?_
      obtain ⟨k, hk, rfl⟩ := List.mem_map.1 hn
      obtain ⟨l, hl⟩ := hread k hk
      have hnil := Layout.mergeAll_eq_none.1 hmerged
      have hmem : l ∈ (files.places.filter (Path.stemAt · == Path.stemAt k)).filterMap
          (t.layoutAt? opts) :=
        List.mem_filterMap.2 ⟨k, List.mem_filter.2 ⟨hk, by simp⟩, hl⟩
      rw [hnil] at hmem
      cases hmem
    · simp [Catalog.contains, hfind]

end

end

/-! ### Full and incremental runs -/

theorem compile_eq_ok {opts : CompileOptions} {roots : List Path} {t : Tree} {report : Report}
    (h : (compile opts roots t).result = .ok report) :
    ∃ files, allLayoutFiles t roots = .ok files ∧
      (run opts .full files [] t).result = .ok report ∧
      (compile opts roots t).store = (run opts .full files [] t).store := by
  unfold compile at h ⊢
  split at h
  · cases h
  · rename_i files hfiles
    simp only [hfiles]
    exact ⟨files, rfl, h, rfl⟩

theorem compileIncremental_eq_ok {opts : CompileOptions} {changed removed : List Path} {t : Tree}
    {report : Report} (h : (compileIncremental opts changed removed t).result = .ok report) :
    ∃ files, affectedFiles t changed removed = .ok files ∧
      (run opts .incremental files removed t).result = .ok report ∧
      (compileIncremental opts changed removed t).store =
        (run opts .incremental files removed t).store := by
  unfold compileIncremental at h ⊢
  split at h
  · cases h
  · rename_i files hfiles
    simp only [hfiles]
    exact ⟨files, rfl, h, rfl⟩

end ViewHolder
