import ViewHolder.Proofs.Edits
import ViewHolder.Proofs.Incremental
import ViewHolder.Watch.Session

/-!
# Watch rounds

A watch compiles what each batch of edits affects and forgets the batch, also when the compile run
fails.  So a layout is up to date as long as its last edit belongs to a batch whose run completed,
whatever happens to later batches without it.

## Main definitions

* `WatchStep.Completed` : the step ended with a completed compile run.
* `WatchRun` : a watch over edits, with the layouts whose last edit was delivered.

## Main results

* `compileBatch_changedAt` : a batch, failing or not, changes the holders of its layouts only.
* `WatchRun.holder_eq_source` : delivered layouts are up to date.
-/

namespace ViewHolder

/-! ### Steps of a watch -/

/-- The step ended with a completed compile run. -/
def WatchStep.Completed {σ : Type} (s : WatchStep σ) : Prop :=
  ∃ written unchanged pruned, s.events.getLast? = some (.compileComplete written unchanged pruned)

theorem WatchStep.completed_ofRun {σ : Type} {before : List WatchEvent} {p : Progress σ Report} :
    (WatchStep.ofRun before p).Completed ↔ ∃ report, p.result = .ok report := by
  have hlast : (WatchStep.ofRun before p).events.getLast? = some (reportEvent p.result) := by
    simp [ofRun]
  rw [Completed, hlast]
  cases p.result <;> simp [reportEvent]

/-- A batch without layout files is passed over; any other batch is compiled. -/
theorem compileBatch_cases (opts : CompileOptions) (paths : List Path) (t : Tree)
    (hpaths : ∀ p ∈ paths, LayoutFile.isCandidate p = true) :
    (paths = [] ∧ (compileBatch opts paths t).store = t ∧ ¬ (compileBatch opts paths t).Completed) ∨
      ∃ before changed removed, compileBatch opts paths t =
          .ofRun before (compileIncremental opts changed removed t) ∧
        (∀ p, p ∈ changed ↔ p ∈ paths ∧ t.hasFile p.location = true) ∧
        ∀ p, p ∈ removed ↔ p ∈ paths ∧ t.hasFile p.location = false := by
  have hclassify : classifyChanges (Store.isFile t) paths =
      (paths.filter fun p => t.hasFile p.location,
        paths.filter fun p => !t.hasFile p.location) := by
    rw [classifyChanges, List.filter_eq_self.2 hpaths, List.partition_eq_filter_filter]
    rfl
  have hfile {p : Path} : p ∈ paths.filter (fun p => t.hasFile p.location) ↔
      p ∈ paths ∧ t.hasFile p.location = true := List.mem_filter
  have hgone {p : Path} : p ∈ paths.filter (fun p => !t.hasFile p.location) ↔
      p ∈ paths ∧ t.hasFile p.location = false := by simp
  unfold compileBatch
  rw [hclassify]
  dsimp only
  split
  · rename_i hempty
    rw [Bool.and_eq_true, List.isEmpty_iff, List.isEmpty_iff] at hempty
    refine Or.inl ⟨List.eq_nil_iff_forall_not_mem.2 fun p hp => ?_, rfl, ?_⟩
    · cases hp' : t.hasFile p.location with
      | true => exact List.not_mem_nil (hempty.1 ▸ hfile.2 ⟨hp, hp'⟩)
      | false => exact List.not_mem_nil (hempty.2 ▸ hgone.2 ⟨hp, hp'⟩)
    · rintro ⟨w, u, p, h⟩
      cases h
  · exact Or.inr ⟨_, _, _, rfl, fun p => hfile, fun p => hgone⟩

/-- An incremental run changes the holders of the reported layouts only, also when it fails. -/
theorem compileIncremental_changedAt (opts : CompileOptions) {t : Tree} (ht : t.Spelled)
    {changed removed : List Path} (hchanged : ∀ p ∈ changed, t.hasFile p.location = true)
    (hremoved : ∀ p ∈ removed, t.hasFile p.location = false) :
    Tree.ChangedAt (fun k => ∃ n ∈ (changed ++ removed).map Path.stem, k = holderLocation opts n) t
      (compileIncremental opts changed removed t).store := by
  unfold compileIncremental
  split
  · exact .refl _ t
  · rename_i files hfiles
    refine (run_changedAt opts t _ files removed).mono fun k ⟨n, hn, hk⟩ => ⟨n, ?_, hk⟩
    exact List.mem_map.2 (exists_reported_of_mem_runNames ht hchanged hremoved hfiles hn)

/-- A batch changes the holders of its layouts only, also when its run fails. -/
theorem compileBatch_changedAt (opts : CompileOptions) {t : Tree} (ht : t.Spelled)
    {paths : List Path} (hpaths : ∀ p ∈ paths, LayoutFile.isCandidate p = true) :
    Tree.ChangedAt (fun k => ∃ n ∈ paths.map Path.stem, k = holderLocation opts n) t
      (compileBatch opts paths t).store := by
  rcases compileBatch_cases opts paths t hpaths with ⟨-, hstore, -⟩ | ⟨_, changed, removed, hrun,
    hchanged, hremoved⟩
  · rw [hstore]
    exact .refl _ t
  · rw [hrun]
    refine (compileIncremental_changedAt opts ht (fun p hp => ((hchanged p).1 hp).2)
      fun p hp => ((hremoved p).1 hp).2).mono fun k ⟨n, hn, hk⟩ => ⟨n, ?_, hk⟩
    obtain ⟨p, hp, rfl⟩ := List.mem_map.1 hn
    exact List.mem_map_of_mem ((List.mem_append.1 hp).elim (fun hp => ((hchanged p).1 hp).1)
      fun hp => ((hremoved p).1 hp).1)

/-- The first run changes the holders of the layouts only, also when it fails. -/
theorem initialCompile_changedAt (opts : CompileOptions) {t : Tree} {r : Path} (ht : t.Spelled)
    (hsources : t.OnlySources r) :
    Tree.ChangedAt (fun k => ∃ n, t.HasLayout r n ∧ k = holderLocation opts n) t
      (initialCompile opts [r] t).store := by
  change Tree.ChangedAt _ t (compile opts [r] t).store
  unfold compile
  split
  · exact .refl _ t
  · rename_i files hfiles
    refine (run_changedAt opts t _ files []).mono fun k ⟨n, hn, hk⟩ => ⟨n, ?_, hk⟩
    exact hasLayout_of_mem_runNames ht hsources hfiles hn

/-! ### One variant directory -/

/-- The variant directory of a project that has only one. -/
def onlyVariant : String := "layout"

/-- The resource root holds sources only, all of them in one variant directory. -/
def Tree.OneVariant (t : Tree) (r : Path) : Prop :=
  t.OnlySources r ∧ ∀ v s, isVariantName v = true →
    t.hasFile (r.location ++ [.name v, s]) = true → v = onlyVariant

instance (t : Tree) (r : Path) : Decidable (t.OneVariant r) :=
  have : Decidable (∀ v s, isVariantName v = true →
      t.hasFile (r.location ++ [.name v, s]) = true → v = onlyVariant) :=
    decidable_of_iff' _ Tree.forall_variantFile_iff
  inferInstanceAs (Decidable (_ ∧ _))

/-- A path that leads to a source in the only variant directory. -/
def IsSource (r p : Path) : Prop :=
  ∃ n, isHiddenName (sourceName n) = false ∧ p.location = variantLocation r onlyVariant n

namespace IsSource

variable {r p : Path} (h : IsSource r p)
include h

theorem location_eq : isHiddenName (sourceName p.stem) = false ∧
    p.location = variantLocation r onlyVariant p.stem := by
  obtain ⟨n, hn, hloc⟩ := h
  obtain ⟨k, hk⟩ := Path.exists_steps_of_location hloc
  obtain rfl : p.stem = n := by
    have hsplit : p.steps = k ++ [.name onlyVariant] ++ [.name (sourceName n)] := by simpa using hk
    rw [Path.stem_eq_stemAt, hsplit, Path.stemAt_sourceName hn]
  exact ⟨hn, hloc⟩

theorem exists_ofPath? : ∃ f, LayoutFile.ofPath? p = some f ∧ f.root.location = r.location ∧
    f.fileName = sourceName p.stem := by
  obtain ⟨-, hloc⟩ := h.location_eq
  obtain ⟨k, hk⟩ := Path.exists_steps_of_location hloc
  obtain ⟨f, hf, -, hname, -⟩ := LayoutFile.exists_ofPath? hk (by decide +kernel)
  rw [LayoutFile.location_of_ofPath? hf] at hloc
  exact ⟨f, hf, (List.append_inj' hloc rfl).1, hname⟩

theorem isCandidate : LayoutFile.isCandidate p = true := by
  obtain ⟨f, hf, -, hname⟩ := h.exists_ofPath?
  simp [LayoutFile.isCandidate, hf, hname, h.location_eq.1]

end IsSource

section

variable {opts : CompileOptions} {r : Path} {t : Tree} {n : String} {l : Layout}
  (ht : t.Spelled) (hone : t.OneVariant r)
  (hl : t.layoutAt? opts (variantPlace r onlyVariant n) = some l)
include hone hl

theorem not_hidden_of_layoutAt? : t.HasLayout r n ∧ isHiddenName (sourceName n) = false := by
  have hlayout : t.HasLayout r n := ⟨onlyVariant, by decide +kernel, Tree.hasFile_variant hl⟩
  exact ⟨hlayout, hone.1.not_hidden hlayout⟩

include ht

/-- A full run reads the one file of a layout. -/
theorem merged?_listed {files : PathSet} (h : allLayoutFiles t [r] = .ok files) :
    t.merged? opts (files.places.filter (Path.stemAt · == n)) = some l := by
  have hfile := Tree.hasFile_variant hl
  rw [listed_variants ht hone.1 h]
  refine Tree.merged?_eq_self (List.ne_nil_of_mem (a := variantPlace r onlyVariant n)
    ((Tree.mem_variantPlaces ht).2 ⟨onlyVariant, by decide +kernel, rfl, hfile⟩)) fun k hk => ?_
  obtain ⟨v, hv, rfl, hfile⟩ := (Tree.mem_variantPlaces ht).1 hk
  rw [hone.2 v _ hv hfile]
  exact hl

/-- An incremental run reads the one file of a reported layout, however it is spelled. -/
theorem merged?_affected {changed removed : List Path} {files : PathSet}
    (hsources : ∀ p ∈ changed ++ removed, IsSource r p)
    (hchanged : ∀ p ∈ changed, t.hasFile p.location = true)
    (hremoved : ∀ p ∈ removed, t.hasFile p.location = false)
    (h : affectedFiles t changed removed = .ok files)
    (hn : ∃ p ∈ changed ++ removed, p.stem = n) :
    t.merged? opts (files.places.filter (Path.stemAt · == n)) = some l := by
  have hmem {k : List Step} := mem_affectedFiles ht hchanged hremoved h (k := k)
  obtain ⟨-, hhidden⟩ := not_hidden_of_layoutAt? hone hl
  have hfile := Tree.hasFile_variant hl
  refine Tree.merged?_eq_self ?_ fun k hk => ?_
  · obtain ⟨p, hp, rfl⟩ := hn
    obtain ⟨f, hf, hroot, hname⟩ := (hsources p hp).exists_ofPath?
    refine List.ne_nil_of_mem (a := f.root.steps ++ [.name onlyVariant, .name f.fileName])
      (List.mem_filter.2 ⟨hmem.2 ⟨p, hp, f, hf, (Tree.mem_variantPlaces ht).2
        ⟨onlyVariant, by decide +kernel, rfl, ?_⟩⟩, ?_⟩)
    · rw [hroot, hname]
      exact hfile
    · rw [LayoutFile.stemAt_variant hf]
      exact beq_self_eq_true _
  · obtain ⟨hk, hkn⟩ := List.mem_filter.1 hk
    obtain ⟨p, hp, f, hf, hk⟩ := hmem.1 hk
    obtain ⟨v, hv, rfl, hthere⟩ := (Tree.mem_variantPlaces ht).1 hk
    obtain ⟨g, hg, hroot, hname⟩ := (hsources p hp).exists_ofPath?
    obtain rfl : f = g := Option.some.inj (hf.symm.trans hg)
    rw [LayoutFile.stemAt_variant hf, beq_iff_eq] at hkn
    rw [hroot] at hthere
    obtain rfl : v = onlyVariant := hone.2 v _ hv hthere
    rw [← hl]
    refine t.layoutAt?_congr opts ?_ ?_
    · rw [filter_variantPlace, variantLocation, List.filter_append, ← hroot, hname, hkn]
      rfl
    · have hplace : variantPlace r onlyVariant n =
          r.steps ++ [.name onlyVariant] ++ [.name (sourceName n)] := by simp [variantPlace]
      rw [LayoutFile.stemAt_variant hf, hplace, Path.stemAt_sourceName hhidden, hkn]

end

/-! ### Runs of a watch -/

/-- The layouts whose last edit was delivered: those of the batch if its run completed, and those
that the batch leaves alone if they were delivered before. -/
def deliveredAfter (paths : List Path) (step : WatchStep Tree) (delivered : String → Prop)
    (n : String) : Prop :=
  n ∈ paths.map Path.stem ∧ step.Completed ∨ n ∉ paths.map Path.stem ∧ delivered n

/-- A watch: the first full run, and any number of rounds in each of which sources are edited and
the batch of the edited files is compiled.  Compile runs may fail.  All layouts have names among
`names`, and the last index tells the layouts whose last edit was delivered. -/
inductive WatchRun (opts : CompileOptions) (r : Path) (names : String → Prop) :
    Tree → (String → Prop) → Prop
  /-- The first full run. -/
  | start {t : Tree} (spelled : t.Spelled) (sources : t.OneVariant r)
      (named : ∀ n, t.HasLayout r n → names n) :
      WatchRun opts r names (initialCompile opts [r] t).store
        fun _ => (initialCompile opts [r] t).Completed
  /-- Edits and the batch of the edited files. -/
  | round {t : Tree} {delivered : String → Prop} {edits : List Edit} {paths : List Path}
      (before : WatchRun opts r names t delivered) (sources : (t.edit edits).OneVariant r)
      (listed : ∀ p ∈ paths, IsSource r p)
      (exact : ∀ l, (∃ p ∈ paths, l = p.location) ↔ ∃ e ∈ edits, l = e.file.location)
      (named : ∀ p ∈ paths, names p.stem) :
      WatchRun opts r names (compileBatch opts paths (t.edit edits)).store
        (deliveredAfter paths (compileBatch opts paths (t.edit edits)) delivered)

/-- Delivered layouts with views have the source of their file as their holder. -/
structure KeepsDelivered (opts : CompileOptions) (r : Path) (names : String → Prop) (t : Tree)
    (delivered : String → Prop) : Prop where
  /-- Every place is where some path leads. -/
  spelled : t.Spelled
  /-- The layouts have names among the given ones. -/
  named : ∀ n, t.HasLayout r n → names n
  /-- The holders are up to date. -/
  upToDate : ∀ n l, delivered n → t.layoutAt? opts (variantPlace r onlyVariant n) = some l →
    l.views ≠ [] → t.textAt? (holderLocation opts n) = some (Holder.source opts.package l)

section

variable {opts : CompileOptions} {r : Path} {names : String → Prop}
  (hnames : ∀ m n, names m → names n → Holder.className m = Holder.className n → m = n)
include hnames

/-- A completed batch leaves the source of every reported layout with views in its holder. -/
theorem compileBatch_source {t : Tree} {paths : List Path} {n : String} {l : Layout}
    (ht : t.Spelled) (hone : t.OneVariant r) (hlisted : ∀ p ∈ paths, IsSource r p)
    (hnamed : ∀ p ∈ paths, names p.stem) (hcompleted : (compileBatch opts paths t).Completed)
    (hn : n ∈ paths.map Path.stem)
    (hl : t.layoutAt? opts (variantPlace r onlyVariant n) = some l) (hviews : l.views ≠ []) :
    (compileBatch opts paths t).store.textAt? (holderLocation opts n) =
      some (Holder.source opts.package l) := by
  rcases compileBatch_cases opts paths t fun p hp => (hlisted p hp).isCandidate with
    ⟨-, -, hnot⟩ | ⟨before, changed, removed, hbatch, hchanged, hremoved⟩
  · exact absurd hcompleted hnot
  rw [hbatch] at hcompleted ⊢
  obtain ⟨report, hok⟩ := WatchStep.completed_ofRun.1 hcompleted
  obtain ⟨files, hfiles, hrun, hstore⟩ := compileIncremental_eq_ok hok
  have hmem (p : Path) : p ∈ changed ++ removed ↔ p ∈ paths := by
    rw [List.mem_append, hchanged, hremoved]
    cases t.hasFile p.location <;> simp
  have hthere : ∀ p ∈ changed, t.hasFile p.location = true := fun p hp => ((hchanged p).1 hp).2
  have hgone : ∀ p ∈ removed, t.hasFile p.location = false := fun p hp => ((hremoved p).1 hp).2
  obtain ⟨p, hp, hpn⟩ := List.mem_map.1 hn
  have hmerged := merged?_affected ht hone hl (fun p hp => hlisted p ((hmem p).1 hp)) hthere hgone
    hfiles ⟨p, (hmem p).2 hp, hpn⟩
  change (compileIncremental opts changed removed t).store.textAt? _ = _
  rw [hstore]
  refine run_source hrun hmerged hviews fun m hm => hnames m n ?_ (hpn ▸ hnamed p hp)
  obtain ⟨q, hq, rfl⟩ := exists_reported_of_mem_runNames ht hthere hgone hfiles hm
  exact hnamed q ((hmem q).1 hq)

/-- The first full run establishes the invariant. -/
theorem KeepsDelivered.start {t : Tree} (ht : t.Spelled) (hone : t.OneVariant r)
    (hnamed : ∀ n, t.HasLayout r n → names n) :
    KeepsDelivered opts r names (initialCompile opts [r] t).store
      fun _ => (initialCompile opts [r] t).Completed := by
  have hchange := initialCompile_changedAt opts ht hone.1
  have hslash : ∀ n, t.HasLayout r n → '/' ∉ n.toList := fun n hn => hn.slash_notMem ht
  refine ⟨hchange.spelled ht, fun n hn => ?_, fun n l hcompleted hl hviews => ?_⟩
  · exact hnamed n ((hchange.hasLayout_iff hslash).1 hn)
  · rw [hchange.layoutAt?_eq hslash (by decide +kernel)] at hl
    obtain ⟨hlayout, -⟩ := not_hidden_of_layoutAt? hone hl
    obtain ⟨report, hok⟩ := WatchStep.completed_ofRun.1 hcompleted
    obtain ⟨files, hfiles, hrun, hstore⟩ := compile_eq_ok hok
    change (compile opts [r] t).store.textAt? _ = _
    rw [hstore]
    refine run_source hrun (merged?_listed ht hone hl hfiles) hviews fun m hm =>
      hnames m n (hnamed m ?_) (hnamed n hlayout)
    exact hasLayout_of_mem_runNames ht hone.1 hfiles hm

/-- Edits and the batch of the edited files preserve the invariant. -/
theorem KeepsDelivered.round {t : Tree} {delivered : String → Prop} {edits : List Edit}
    {paths : List Path} (hbefore : KeepsDelivered opts r names t delivered)
    (hone : (t.edit edits).OneVariant r) (hlisted : ∀ p ∈ paths, IsSource r p)
    (hexact : ∀ l, (∃ p ∈ paths, l = p.location) ↔ ∃ e ∈ edits, l = e.file.location)
    (hnamed : ∀ p ∈ paths, names p.stem) :
    KeepsDelivered opts r names (compileBatch opts paths (t.edit edits)).store
      (deliveredAfter paths (compileBatch opts paths (t.edit edits)) delivered) := by
  have hedit := t.edit_changedAt edits
  have ht : (t.edit edits).Spelled := hedit.spelled hbefore.spelled
  have hchange := compileBatch_changedAt opts ht fun p hp => (hlisted p hp).isCandidate
  have hslash : ∀ n ∈ paths.map Path.stem, '/' ∉ n.toList := by
    intro n hn
    obtain ⟨p, -, rfl⟩ := List.mem_map.1 hn
    exact p.slash_notMem_stem
  have hunedited {n v : String} (hn : n ∉ paths.map Path.stem) :
      (t.edit edits).textAt? (variantLocation r v n) = t.textAt? (variantLocation r v n) := by
    refine hedit.textAt _ fun hl => ?_
    obtain ⟨p, hp, hloc⟩ := (hexact _).2 hl
    rw [(hlisted p hp).location_eq.2] at hloc
    have hname := (List.cons.inj (List.append_cancel_left hloc)).2
    exact hn (List.mem_map.2 ⟨p, hp, sourceName_injective (by simpa using hname.symm)⟩)
  have hnamed' (n : String) (hn : (t.edit edits).HasLayout r n) : names n := by
    by_cases htouched : n ∈ paths.map Path.stem
    · obtain ⟨p, hp, rfl⟩ := List.mem_map.1 htouched
      exact hnamed p hp
    · exact hbefore.named n ((Tree.hasLayout_congr fun v _ => hunedited htouched).1 hn)
  refine ⟨hchange.spelled ht, fun n hn => ?_, fun n l hdelivered hl hviews => ?_⟩
  · exact hnamed' n ((hchange.hasLayout_iff hslash).1 hn)
  · rw [hchange.layoutAt?_eq hslash (by decide +kernel)] at hl
    obtain ⟨hlayout, -⟩ := not_hidden_of_layoutAt? hone hl
    rcases hdelivered with ⟨htouched, hcompleted⟩ | ⟨huntouched, hdelivered⟩
    · exact compileBatch_source hnames ht hone hlisted hnamed hcompleted htouched hl hviews
    · rw [hchange.textAt, hedit.textAt]
      · refine hbefore.upToDate n l hdelivered ?_ hviews
        rwa [← Tree.layoutAt?_eq_of_text (hunedited huntouched)]
      · intro hloc
        obtain ⟨p, hp, hloc⟩ := (hexact _).2 hloc
        rw [(hlisted p hp).location_eq.2] at hloc
        exact location_holderPath_ne (hlayout.slash_notMem ht) (by decide +kernel) hloc
      · rintro ⟨m, hm, hloc⟩
        obtain ⟨p, hp, rfl⟩ := List.mem_map.1 hm
        have hclass := location_holderPath_inj (hlayout.slash_notMem ht) (hslash _ hm) hloc
        exact huntouched (hnames n _ (hnamed' n hlayout) (hnamed p hp) hclass ▸ hm)

/-- The invariant holds after every round. -/
theorem WatchRun.keepsDelivered {t : Tree} {delivered : String → Prop}
    (run : WatchRun opts r names t delivered) : KeepsDelivered opts r names t delivered := by
  induction run with
  | start spelled sources named => exact .start hnames spelled sources named
  | round before sources listed exact named ih => exact ih.round hnames sources listed exact named

/-- **Delivered layouts are up to date.**  After every round of a watch, a layout whose file is
well-formed and has views has the source of that file as its holder, if the last edit of the file
belongs to a round whose compile run completed; if it was never edited, the first run counts. -/
theorem WatchRun.holder_eq_source {t : Tree} {delivered : String → Prop}
    (run : WatchRun opts r names t delivered) {n : String} (hn : delivered n) {l : Layout}
    (hl : t.layoutAt? opts (variantPlace r onlyVariant n) = some l) (hviews : l.views ≠ []) :
    t.textAt? (holderPath opts n).location = some (Holder.source opts.package l) := by
  exact (run.keepsDelivered hnames).upToDate n l hn hl hviews

end

/-! ### A lost update -/

/-- One layout. -/
def watchedTree : Tree := .ofFiles [(sampleFile "layout" "main", sampleText "a")]

/-- A new layout, and a mistake in the one that is there. -/
def brokenEdits : List Edit :=
  [.write (sampleFile "layout" "item") (sampleText "b"), .write (sampleFile "layout" "main") "<"]

/-- The mistake is mended. -/
def mendingEdits : List Edit := [.write (sampleFile "layout" "main") (sampleText "c")]

/-- The round of the mistake. -/
def brokenRound : WatchStep Tree :=
  compileBatch sampleOptions (brokenEdits.map Edit.file)
    ((initialCompile sampleOptions [⟨"res"⟩] watchedTree).store.edit brokenEdits)

/-- The round in which it is mended. -/
def mendingRound : WatchStep Tree :=
  compileBatch sampleOptions (mendingEdits.map Edit.file) (brokenRound.store.edit mendingEdits)

/-- What the two rounds lead to. -/
theorem mendingRound_eval :
    watchedTree.OneVariant ⟨"res"⟩ ∧
      ((initialCompile sampleOptions [⟨"res"⟩] watchedTree).store.edit brokenEdits).OneVariant
        ⟨"res"⟩ ∧
      (brokenRound.store.edit mendingEdits).OneVariant ⟨"res"⟩ ∧
      mendingRound.events.getLast? = some (.compileComplete 1 0 0) ∧
      mendingRound.store.layoutAt? sampleOptions (variantPlace ⟨"res"⟩ onlyVariant "main") =
        some ⟨"main", [sampleView "c"]⟩ ∧
      mendingRound.store.layoutAt? sampleOptions (variantPlace ⟨"res"⟩ onlyVariant "item") =
        some ⟨"item", [sampleView "b"]⟩ ∧
      mendingRound.store.textAt? (holderLocation sampleOptions "item") ≠
        some (Holder.source "com.example" ⟨"item", [sampleView "b"]⟩) := by
  decide +kernel

/-- Both rounds make up a run of a watch that delivers the layout `main`. -/
theorem exists_watchRun_mendingRound : ∃ delivered, delivered "main" ∧
    WatchRun sampleOptions ⟨"res"⟩ (fun n => n = "main" ∨ n = "item") mendingRound.store
      delivered := by
  obtain ⟨hfirst, hsecond, hthird, hlast, -⟩ := mendingRound_eval
  have hsource {es : List Edit} (h : es = brokenEdits ∨ es = mendingEdits) :
      ∀ p ∈ es.map Edit.file, IsSource ⟨"res"⟩ p ∧ (p.stem = "main" ∨ p.stem = "item") := by
    intro p hp
    have hcases : p = sampleFile "layout" "main" ∨ p = sampleFile "layout" "item" := by
      rcases h with rfl | rfl
      · simpa [brokenEdits, Edit.file, or_comm] using hp
      · exact Or.inl (by simpa [mendingEdits, Edit.file] using hp)
    rcases hcases with rfl | rfl
    · exact ⟨⟨"main", by decide +kernel⟩, by decide +kernel⟩
    · exact ⟨⟨"item", by decide +kernel⟩, by decide +kernel⟩
  have hexact (es : List Edit) (l : Location) :
      (∃ p ∈ es.map Edit.file, l = p.location) ↔ ∃ e ∈ es, l = e.file.location := by simp
  have hstart : WatchRun sampleOptions ⟨"res"⟩ (fun n => n = "main" ∨ n = "item") _ _ :=
    .start (Tree.spelled_ofFiles [(sampleFile "layout" "main", sampleText "a")]) hfirst
      fun n hn => Or.inl (hn.eq_of_files (by decide +kernel))
  have hbroken : WatchRun sampleOptions ⟨"res"⟩ _ brokenRound.store _ :=
    hstart.round hsecond (fun p hp => (hsource (Or.inl rfl) p hp).1) (hexact _)
      fun p hp => (hsource (Or.inl rfl) p hp).2
  have hmending : WatchRun sampleOptions ⟨"res"⟩ _ mendingRound.store _ :=
    hbroken.round hthird (fun p hp => (hsource (Or.inr rfl) p hp).1) (hexact _)
      fun p hp => (hsource (Or.inr rfl) p hp).2
  exact ⟨_, Or.inl ⟨by decide +kernel, 1, 0, 0, hlast⟩, hmending⟩

theorem WatchRun.holder_eq_source_mendingRound :
    mendingRound.store.textAt? (holderPath sampleOptions "main").location =
      some (Holder.source "com.example" ⟨"main", [sampleView "c"]⟩) := by
  obtain ⟨delivered, hdelivered, hrun⟩ := exists_watchRun_mendingRound
  obtain ⟨-, -, -, -, hmain, -⟩ := mendingRound_eval
  exact WatchRun.holder_eq_source (fun m n => className_main_item) hrun hdelivered hmain (by decide)

/-- A completed round may leave a well-formed layout without its holder: the edit that made it
belongs to a round whose run failed. -/
theorem exists_watchRun_lost_update : ∃ delivered,
    WatchRun sampleOptions ⟨"res"⟩ (fun n => n = "main" ∨ n = "item") mendingRound.store
      delivered ∧
    mendingRound.events.getLast? = some (.compileComplete 1 0 0) ∧
    mendingRound.store.layoutAt? sampleOptions (variantPlace ⟨"res"⟩ onlyVariant "main") =
      some ⟨"main", [sampleView "c"]⟩ ∧
    mendingRound.store.layoutAt? sampleOptions (variantPlace ⟨"res"⟩ onlyVariant "item") =
      some ⟨"item", [sampleView "b"]⟩ ∧
    mendingRound.store.textAt? (holderLocation sampleOptions "item") ≠
      some (Holder.source "com.example" ⟨"item", [sampleView "b"]⟩) := by
  obtain ⟨delivered, -, hrun⟩ := exists_watchRun_mendingRound
  obtain ⟨-, -, -, heval⟩ := mendingRound_eval
  exact ⟨delivered, hrun, heval⟩

end ViewHolder
