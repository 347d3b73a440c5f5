import ViewHolder.Proofs.Run
import ViewHolder.Proofs.Sources

/-!
# Incremental runs

A full run merges the variants of a layout in listing order.  An incremental run merges the same
variants, but those that were reported come first: the ids are the same, while the views that are
taken for them, and their order, may differ.  With several resource roots an incremental run also
leaves out the variants in roots without a reported file.

## Main definitions

* `IsReached` : the variants that share resource root and file name with a changed file.
* `AreListed` : layout files that are listed below some resource roots.

## Main results

* `compileIncremental_source` : the holder after an incremental run over one resource root, beside
  the holder after a full run.
* `compileIncremental_ids` : the ids in a holder after an incremental run over several roots.
-/

namespace ViewHolder

theorem exists_eq_ok {ε α : Type} {e : Except ε α} (h : e.isOk = true) : ∃ a, e = .ok a := by
  cases e with
  | error e => cases h
  | ok a => exact ⟨a, rfl⟩

theorem exists_ok_of_map {ε α β : Type} {e : Except ε α} {f : α → β} {b : β}
    (h : e.toOption.map f = some b) : ∃ a, e = .ok a ∧ f a = b := by
  cases e with
  | error e => cases h
  | ok a => exact ⟨a, rfl, Option.some.inj h⟩

section

variable {t : Tree} {r : Path} {changed removed : List Path} {files : PathSet} {n : String}
  (ht : t.Spelled)
include ht

/-- A run over the listed files of a root is about the layouts that have a file. -/
theorem hasLayout_of_mem_runNames (hsources : t.OnlySources r)
    (h : allLayoutFiles t [r] = .ok files) (hn : n ∈ runNames files []) : t.HasLayout r n := by
  obtain ⟨k, hk, rfl⟩ : ∃ k ∈ files.places, Path.stemAt k = n := by
    simpa [runNames] using hn
  refine Tree.hasLayout_of_mem_variantPlaces ht (k := k) ?_
  rw [← listed_variants ht hsources h]
  exact List.mem_filter.2 ⟨hk, by simp⟩

/-- A run over affected files is about the reported layouts. -/
theorem exists_reported_of_mem_runNames (hchanged : ∀ p ∈ changed, t.hasFile p.location = true)
    (hremoved : ∀ p ∈ removed, t.hasFile p.location = false)
    (h : affectedFiles t changed removed = .ok files) (hn : n ∈ runNames files removed) :
    ∃ p ∈ changed ++ removed, p.stem = n := by
  rcases List.mem_append.1 hn with hn | hn
  · obtain ⟨k, hk, rfl⟩ := List.mem_map.1 hn
    obtain ⟨p, hp, f, hf, hk⟩ := (mem_affectedFiles ht hchanged hremoved h).1 hk
    obtain ⟨v, -, rfl, -⟩ := (Tree.mem_variantPlaces ht).1 hk
    exact ⟨p, hp, (LayoutFile.stemAt_variant hf _ _).symm⟩
  · obtain ⟨f, hf, rfl⟩ := List.mem_map.1 hn
    obtain ⟨p, hp, hf⟩ := List.mem_filterMap.1 hf
    exact ⟨p, List.mem_append_right _ hp, (LayoutFile.layoutName_of_ofPath? hf).symm⟩

end

/-! ### One resource root -/

/-- **The holder after an incremental run.**  In a tree whose resource root holds sources only, let
a report name existing and removed files in any order and let the incremental run succeed.  Then the
holder of a reported layout with views is the source of its variants merged with the reported ones
first.  A full run of the same tree writes the source of the variants merged in listing order: it
has the same ids, and it is the same text whenever the two orders agree. -/
theorem compileIncremental_source {opts : CompileOptions} {r : Path} {t : Tree}
    {changed removed : List Path} {report : Report} (ht : t.Spelled) (hsources : t.OnlySources r)
    (hreport : IsReport t r changed removed)
    (hok : (compileIncremental opts changed removed t).result = .ok report) {n : String}
    (hn : ∃ p ∈ changed ++ removed, p.stem = n)
    (hviews : ∃ k ∈ t.variantPlaces r (sourceName n), ∃ l, t.layoutAt? opts k = some l ∧
      l.views ≠ [])
    (hclass : ∀ m, (t.HasLayout r m ∨ ∃ p ∈ removed, p.stem = m) →
      Holder.className m = Holder.className n → m = n) :
    ∃ l full,
      t.merged? opts (reportedFirst (changed.map Path.steps)
        (t.variantPlaces r (sourceName n))) = some l ∧
      t.merged? opts (t.variantPlaces r (sourceName n)) = some full ∧
      (compileIncremental opts changed removed t).store.textAt? (holderLocation opts n) =
        some (Holder.source opts.package l) ∧
      (∀ report', (compile opts [r] t).result = .ok report' →
        (compile opts [r] t).store.textAt? (holderLocation opts n) =
          some (Holder.source opts.package full)) ∧
      (∀ id, id ∈ l.ids ↔ id ∈ full.ids) ∧
      (reportedFirst (changed.map Path.steps) (t.variantPlaces r (sourceName n)) =
        t.variantPlaces r (sourceName n) → l = full) := by
  obtain ⟨files, hfiles, hrun, hstore⟩ := compileIncremental_eq_ok hok
  obtain ⟨k, hk, lk, hlk, hlkviews⟩ := hviews
  have horder := affected_variants ht hreport hfiles hn
  obtain ⟨l, hl⟩ := Tree.exists_merged? (mem_reportedFirst.2 hk) hlk
  obtain ⟨full, hfull⟩ := Tree.exists_merged? hk hlk
  refine ⟨l, full, hl, hfull, ?_, ?_, ?_, ?_⟩
  · rw [hstore]
    refine run_source hrun (horder ▸ hl) ?_ fun m hm hmn => hclass m ?_ hmn
    · exact (Tree.views_merged?_ne_nil hl).2 ⟨k, mem_reportedFirst.2 hk, lk, hlk, hlkviews⟩
    · obtain ⟨p, hp, rfl⟩ :=
        exists_reported_of_mem_runNames ht hreport.hasFile hreport.gone hfiles hm
      refine (List.mem_append.1 hp).imp (fun hp => ?_) fun hp => ⟨p, hp, rfl⟩
      obtain ⟨hlisted, hfile⟩ := hreport.changed p hp
      exact Tree.hasLayout_of_mem_variantPlaces ht ((hlisted.mem_variantPlaces ht hfile).2 rfl)
  · intro report' hcompile
    obtain ⟨all, hall, hrunall, hstoreall⟩ := compile_eq_ok hcompile
    rw [hstoreall]
    have hlisted := listed_variants (n := n) ht hsources hall
    refine run_source hrunall (hlisted ▸ hfull) ?_ fun m hm hmn => hclass m (Or.inl ?_) hmn
    · exact (Tree.views_merged?_ne_nil hfull).2 ⟨k, hk, lk, hlk, hlkviews⟩
    · exact hasLayout_of_mem_runNames ht hsources hall hm
  · intro id
    rw [Tree.mem_ids_merged? hl, Tree.mem_ids_merged? hfull]
    exact exists_congr fun k => and_congr_left fun _ => mem_reportedFirst
  · intro hsame
    rw [hsame] at hl
    exact Option.some.inj (hl.symm.trans hfull)

/-- A layout with two variants. -/
def twoVariants : Tree :=
  .ofFiles [(sampleFile "layout" "main", sampleText "a"),
    (sampleFile "layout-land" "main", sampleText "b")]

/-- The same layout after a full run and an edit of its second variant. -/
def editedVariants : Tree :=
  ((compile sampleOptions [⟨"res"⟩] twoVariants).store.write (sampleFile "layout-land" "main")
    (sampleText "c")).2

/-- What an incremental run over one variant leads to. -/
theorem twoVariants_eval :
    (compileIncremental sampleOptions [sampleFile "layout-land" "main"]
        [sampleFile "layout" "old"] twoVariants).result.isOk = true ∧
      twoVariants.OnlySources ⟨"res"⟩ ∧
      twoVariants.hasFile (sampleFile "layout-land" "main").location = true ∧
      twoVariants.hasFile (sampleFile "layout" "old").location = false ∧
      (sampleFile "layout" "main").steps ∈
        twoVariants.variantPlaces ⟨"res"⟩ (sourceName "main") ∧
      twoVariants.layoutAt? sampleOptions (sampleFile "layout" "main").steps =
        some ⟨"main", [sampleView "a"]⟩ := by
  decide +kernel

theorem compileIncremental_source_twoVariants : ∃ l full,
    (compileIncremental sampleOptions [sampleFile "layout-land" "main"] [sampleFile "layout" "old"]
      twoVariants).store.textAt? (holderLocation sampleOptions "main") =
        some (Holder.source "com.example" l) ∧
      twoVariants.merged? sampleOptions (twoVariants.variantPlaces ⟨"res"⟩ (sourceName "main")) =
        some full ∧ ∀ id, id ∈ l.ids ↔ id ∈ full.ids := by
  obtain ⟨hok, hsources, hland, hold, hmem, hlayout⟩ := twoVariants_eval
  obtain ⟨report, hok⟩ := exists_eq_ok hok
  have hreport : IsReport twoVariants ⟨"res"⟩ [sampleFile "layout-land" "main"]
      [sampleFile "layout" "old"] := by
    constructor
    · intro p hp
      obtain rfl := List.mem_singleton.1 hp
      exact ⟨⟨"layout-land", "main", by decide +kernel⟩, hland⟩
    · intro p hp
      obtain rfl := List.mem_singleton.1 hp
      exact ⟨⟨"layout", "old", by decide +kernel⟩, hold⟩
  have hclass : ∀ m, (twoVariants.HasLayout ⟨"res"⟩ m ∨
      ∃ p ∈ [sampleFile "layout" "old"], p.stem = m) →
        Holder.className m = Holder.className "main" → m = "main" := by
    rintro m (hm | ⟨p, hp, rfl⟩) hclass
    · exact hm.eq_of_files (by decide +kernel)
    · obtain rfl := List.mem_singleton.1 hp
      exact absurd hclass (by decide +kernel)
  obtain ⟨l, full, -, hfull, hsource, -, hids, -⟩ := compileIncremental_source
    (Tree.spelled_ofFiles _) hsources hreport hok
    ⟨sampleFile "layout-land" "main", by decide +kernel, by decide +kernel⟩
    ⟨_, hmem, _, hlayout, by decide⟩ hclass
  exact ⟨l, full, hsource, hfull, hids⟩

/-- The text of an incremental run may differ from that of a full run. -/
theorem compileIncremental_ne_compile :
    (compile sampleOptions [⟨"res"⟩] twoVariants).result.isOk = true ∧
      editedVariants.OnlySources ⟨"res"⟩ ∧
      (compileIncremental sampleOptions [sampleFile "layout-land" "main"] []
        editedVariants).result.isOk = true ∧
      (compile sampleOptions [⟨"res"⟩] editedVariants).result.isOk = true ∧
      (compileIncremental sampleOptions [sampleFile "layout-land" "main"] []
          editedVariants).store.textAt? (holderLocation sampleOptions "main") ≠
        (compile sampleOptions [⟨"res"⟩] editedVariants).store.textAt?
          (holderLocation sampleOptions "main") := by
  decide +kernel

/-! ### Several resource roots -/

/-- The place of a variant that shares its resource root and its file name with a changed file. -/
def IsReached (changed : List Path) (k : List Step) : Prop :=
  ∃ p ∈ changed, ∃ f, LayoutFile.ofPath? p = some f ∧ ∃ v, isVariantName v = true ∧
    k.filter (· != .here) = f.root.location ++ [.name v, .name f.fileName]

theorem Tree.layoutAt?_congr (t : Tree) (opts : CompileOptions) {k k' : List Step}
    (hloc : k.filter (· != .here) = k'.filter (· != .here))
    (hstem : Path.stemAt k = Path.stemAt k') : t.layoutAt? opts k = t.layoutAt? opts k' := by
  rw [layoutAt?, layoutAt?, hloc, hstem]

/-- A listed variant that is reached holds the layout of a variant of a changed file. -/
theorem IsReached.exists_variant {opts : CompileOptions} {t : Tree} (ht : t.Spelled)
    {changed : List Path} {path : Path} {m : Layout} (hreached : IsReached changed path.steps)
    (hm : t.layoutAt? opts path.steps = some m) :
    ∃ p ∈ changed, p.stem = Path.stemAt path.steps ∧ ∃ f, LayoutFile.ofPath? p = some f ∧
      ∃ k ∈ t.variantPlaces f.root f.fileName, t.layoutAt? opts k = some m := by
  obtain ⟨p, hp, f, hf, v, hv, hloc⟩ := hreached
  obtain ⟨front, hfront⟩ := Path.exists_steps_of_location hloc
  have hstem : Path.stemAt path.steps = p.stem := by rw [hfront, LayoutFile.stemAt_variant hf]
  have hfile := Tree.hasFile_of_layoutAt? hm
  rw [hloc] at hfile
  refine ⟨p, hp, hstem.symm, f, hf, _, (Tree.mem_variantPlaces ht).2 ⟨v, hv, rfl, hfile⟩, ?_⟩
  rw [← hm]
  refine t.layoutAt?_congr opts ?_ (by rw [LayoutFile.stemAt_variant hf, hstem])
  rw [hloc, List.filter_append]
  rfl

/-- Layout files that are listed below some resource roots. -/
def AreListed (files : PathSet) (ps : List Path) : Prop :=
  ∀ p ∈ ps, (LayoutFile.ofPath? p).isSome = true ∧ files.contains p = true

section

variable {opts : CompileOptions} {t : Tree} {roots changed : List Path}
  {files affected : PathSet} (ht : t.Spelled) (hfiles : allLayoutFiles t roots = .ok files)
  (hchanged : AreListed files changed)
include ht hfiles hchanged

/-- A listed layout file is there, in one of the roots, and not hidden. -/
theorem AreListed.file {p : Path} (hp : p ∈ changed) {f : LayoutFile}
    (hf : LayoutFile.ofPath? p = some f) :
    (∃ r ∈ roots, r.steps = f.root.steps) ∧ t.hasFile p.location = true ∧
      isHiddenName f.fileName = false := by
  have hsteps := (LayoutFile.steps_of_ofPath? hf).2
  have hstem : Path.stemAt p.steps ≠ "" := by
    rw [← Path.stem_eq_stemAt]
    exact LayoutFile.stem_ne_empty hf
  obtain ⟨r, hr, v, x, -, hk, hfile, -, hhidden⟩ := (mem_allLayoutFiles ht hfiles hstem).1
    (PathSet.contains_iff_mem_places.1 (hchanged p hp).2)
  rw [← Path.location_eq_of_steps hk (by simp)] at hfile
  obtain ⟨hroot, hlast⟩ := List.append_inj' (hk.symm.trans hsteps) rfl
  obtain rfl : x = f.fileName := by simpa using (List.cons.inj hlast).2
  exact ⟨⟨r, hr, hroot⟩, hfile, hhidden⟩

theorem AreListed.hasFile {p : Path} (hp : p ∈ changed) : t.hasFile p.location = true := by
  obtain ⟨f, hf⟩ := Option.isSome_iff_exists.1 (hchanged p hp).1
  exact (hchanged.file ht hfiles hp hf).2.1

/-- A variant of a changed file is listed, unless it is a directory as well. -/
theorem AreListed.variant_mem {p : Path} (hp : p ∈ changed) {f : LayoutFile}
    (hf : LayoutFile.ofPath? p = some f) {k : List Step}
    (hk : k ∈ t.variantPlaces f.root f.fileName)
    (hproper : ∀ l, t.hasFile l = true → t.hasDir l = false) : k ∈ files.places := by
  obtain ⟨⟨r, hr, hroot⟩, -, hhidden⟩ := hchanged.file ht hfiles hp hf
  obtain ⟨v, hv, rfl, hfile⟩ := (Tree.mem_variantPlaces ht).1 hk
  have hne : Path.stemAt (f.root.steps ++ [.name v, .name f.fileName]) ≠ "" := by
    rw [LayoutFile.stemAt_variant hf]
    exact LayoutFile.stem_ne_empty hf
  rw [← Path.location_eq_of_steps_eq hroot] at hfile
  exact (mem_allLayoutFiles ht hfiles hne).2
    ⟨r, hr, v, f.fileName, hv, by rw [hroot], hfile, hproper _ hfile, hhidden⟩

variable (haffected : affectedFiles t changed [] = .ok affected)
include haffected

/-- The files to read again are the variants of the changed files. -/
theorem AreListed.mem_affected {k : List Step} : k ∈ affected.places ↔ ∃ p ∈ changed, ∃ f,
    LayoutFile.ofPath? p = some f ∧ k ∈ t.variantPlaces f.root f.fileName ∧
      Path.stemAt k = p.stem := by
  rw [mem_affectedFiles ht (fun p hp => hchanged.hasFile ht hfiles hp) (by simp) haffected,
    List.append_nil]
  refine exists_congr fun p => and_congr_right fun _ => exists_congr fun f =>
    and_congr_right fun hf => ⟨fun hk => ⟨hk, ?_⟩, And.left⟩
  obtain ⟨v, -, rfl, -⟩ := (Tree.mem_variantPlaces ht).1 hk
  exact LayoutFile.stemAt_variant hf _ _

theorem AreListed.steps_mem_affected {p : Path} (hp : p ∈ changed) :
    p.steps ∈ affected.places := by
  obtain ⟨f, hf⟩ := Option.isSome_iff_exists.1 (hchanged p hp).1
  obtain ⟨hv, hsteps⟩ := LayoutFile.steps_of_ofPath? hf
  have hfile := hchanged.hasFile ht hfiles hp
  rw [LayoutFile.location_of_ofPath? hf] at hfile
  exact (hchanged.mem_affected ht hfiles haffected).2 ⟨p, hp, f, hf,
    (Tree.mem_variantPlaces ht).2 ⟨f.variant, hv, hsteps, hfile⟩, p.stem_eq_stemAt.symm⟩

/-- The ids of the layout that an incremental run merges. -/
theorem AreListed.mem_ids_affected {n : String} {l : Layout}
    (hl : t.merged? opts (affected.places.filter (Path.stemAt · == n)) = some l) {id : String} :
    id ∈ l.ids ↔ ∃ p ∈ changed, p.stem = n ∧ ∃ f, LayoutFile.ofPath? p = some f ∧
      ∃ k ∈ t.variantPlaces f.root f.fileName, ∃ m, t.layoutAt? opts k = some m ∧ id ∈ m.ids := by
  have hmem {k : List Step} := hchanged.mem_affected ht hfiles haffected (k := k)
  rw [Tree.mem_ids_merged? hl]
  constructor
  · rintro ⟨k, hk, m, hm, hid⟩
    obtain ⟨hk, hkn⟩ := List.mem_filter.1 hk
    obtain ⟨p, hp, f, hf, hk, hkp⟩ := hmem.1 hk
    exact ⟨p, hp, hkp.symm.trans (by simpa using hkn), f, hf, k, hk, m, hm, hid⟩
  · rintro ⟨p, hp, hpn, f, hf, k, hk, m, hm, hid⟩
    obtain ⟨v, hv, rfl, hfile⟩ := (Tree.mem_variantPlaces ht).1 hk
    have hkp := LayoutFile.stemAt_variant hf f.root.steps (.name v)
    refine ⟨_, List.mem_filter.2 ⟨hmem.2 ⟨p, hp, f, hf, hk, hkp⟩, ?_⟩, m, hm, hid⟩
    rw [hkp, hpn]
    exact beq_self_eq_true n

variable {n id : String} {l all : Layout}
  (hl : t.merged? opts (affected.places.filter (Path.stemAt · == n)) = some l)
  (hall : t.merged? opts (files.places.filter (Path.stemAt · == n)) = some all)
include hl hall

/-- If every listed variant is reached, an incremental run leaves out no id. -/
theorem AreListed.mem_ids_of_reached
    (hreached : ∀ k ∈ files.places, Path.stemAt k = n → IsReached changed k)
    (hid : id ∈ all.ids) : id ∈ l.ids := by
  obtain ⟨k, hk, m, hm, hid⟩ := (Tree.mem_ids_merged? hall).1 hid
  obtain ⟨hk, hkn⟩ := List.mem_filter.1 hk
  rw [beq_iff_eq] at hkn
  obtain ⟨path, -, rfl⟩ := List.mem_map.1 hk
  obtain ⟨p, hp, hpk, f, hf, k, hk', hkm⟩ := (hreached path.steps hk hkn).exists_variant ht hm
  exact (hchanged.mem_ids_affected ht hfiles haffected hl).2
    ⟨p, hp, hpk.trans hkn, f, hf, k, hk', m, hkm, hid⟩

/-- If no file is a directory as well, an incremental run adds no id. -/
theorem AreListed.mem_ids_of_affected (hproper : ∀ k, t.hasFile k = true → t.hasDir k = false)
    (hid : id ∈ l.ids) : id ∈ all.ids := by
  obtain ⟨p, hp, hpn, f, hf, k, hk, m, hm, hid⟩ :=
    (hchanged.mem_ids_affected ht hfiles haffected hl).1 hid
  have hkn : Path.stemAt k = n := by
    obtain ⟨v, -, rfl, -⟩ := (Tree.mem_variantPlaces ht).1 hk
    rw [LayoutFile.stemAt_variant hf, hpn]
  have hlisted : k ∈ files.places := hchanged.variant_mem ht hfiles hp hf hk hproper
  exact (Tree.mem_ids_merged? hall).2
    ⟨k, List.mem_filter.2 ⟨hlisted, beq_iff_eq.2 hkn⟩, m, hm, hid⟩

end

/-- **The fields after an incremental run.**  Let the changed files be listed layout files of any
number of resource roots, and let no other changed layout have the class name of `n`.  Then the
holder of `n` has the ids of the variants that share resource root and file name with a changed
file.  A full run merges all listed variants of the layout: it has the same ids where each of them
shares resource root and file name with a changed file. -/
theorem compileIncremental_ids {opts : CompileOptions} {roots : List Path} {t : Tree}
    {changed : List Path} {files : PathSet} {report : Report} (ht : t.Spelled)
    (hfiles : allLayoutFiles t roots = .ok files) (hchanged : AreListed files changed)
    (hok : (compileIncremental opts changed [] t).result = .ok report) {n : String}
    (hn : ∃ p ∈ changed, p.stem = n)
    (hclass : ∀ p ∈ changed, Holder.className p.stem = Holder.className n → p.stem = n) :
    ∃ l all,
      t.merged? opts (files.places.filter (Path.stemAt · == n)) = some all ∧
      (l.views ≠ [] → (compileIncremental opts changed [] t).store.textAt? (holderLocation opts n) =
        some (Holder.source opts.package l)) ∧
      (∀ id, id ∈ l.ids ↔ ∃ p ∈ changed, p.stem = n ∧ ∃ f, LayoutFile.ofPath? p = some f ∧
        ∃ k ∈ t.variantPlaces f.root f.fileName, ∃ m, t.layoutAt? opts k = some m ∧ id ∈ m.ids) ∧
      ((∀ k ∈ files.places, Path.stemAt k = n → IsReached changed k) →
        (∀ id, id ∈ all.ids → id ∈ l.ids) ∧
        ((∀ k, t.hasFile k = true → t.hasDir k = false) → ∀ id, id ∈ l.ids → id ∈ all.ids)) ∧
      ((∀ k ∈ files.places, Holder.className (Path.stemAt k) = Holder.className n →
          Path.stemAt k = n) → all.views ≠ [] →
        ∀ report', (compile opts roots t).result = .ok report' →
          (compile opts roots t).store.textAt? (holderLocation opts n) =
            some (Holder.source opts.package all)) := by
  obtain ⟨affected, haffected, hrun, hstore⟩ := compileIncremental_eq_ok hok
  obtain ⟨p, hp, hpn⟩ := hn
  have hpk : p.steps ∈ affected.places := hchanged.steps_mem_affected ht hfiles haffected hp
  have hpstem : (Path.stemAt p.steps == n) = true := by
    rw [← Path.stem_eq_stemAt, hpn]
    exact beq_self_eq_true n
  have hpall : p.steps ∈ files.places := PathSet.contains_iff_mem_places.1 (hchanged p hp).2
  have hread : p.steps ∈ affected.places.filter (Path.stemAt · == n) :=
    List.mem_filter.2 ⟨hpk, hpstem⟩
  have hlisted : p.steps ∈ files.places.filter (Path.stemAt · == n) :=
    List.mem_filter.2 ⟨hpall, hpstem⟩
  obtain ⟨lp, hlp⟩ := (run_eq_ok hrun).1 p.steps hpk
  obtain ⟨l, hl⟩ := Tree.exists_merged? hread hlp
  obtain ⟨all, hall⟩ := Tree.exists_merged? hlisted hlp
  have hids (id : String) : id ∈ l.ids ↔ _ := hchanged.mem_ids_affected ht hfiles haffected hl
  refine ⟨l, all, hall, fun hviews => ?_, hids, fun hreached => ⟨?_, ?_⟩, ?_⟩
  · rw [hstore]
    refine run_source hrun hl hviews fun m hm hmn => ?_
    obtain ⟨k, hk, rfl⟩ : ∃ k ∈ affected.places, Path.stemAt k = m := by
      simpa [runNames] using hm
    obtain ⟨q, hq, f, hf, -, hkq⟩ := (hchanged.mem_affected ht hfiles haffected).1 hk
    rw [hkq] at hmn ⊢
    exact hclass q hq hmn
  · exact fun id => hchanged.mem_ids_of_reached ht hfiles haffected hl hall hreached
  · exact fun hproper id => hchanged.mem_ids_of_affected ht hfiles haffected hl hall hproper
  · intro hshare hviews report' hcompile
    obtain ⟨again, hagain, hrunall, hstoreall⟩ := compile_eq_ok hcompile
    obtain rfl : files = again := Except.ok.inj (hfiles.symm.trans hagain)
    rw [hstoreall]
    refine run_source hrunall hall hviews fun m hm hmn => ?_
    obtain ⟨k, hk, rfl⟩ : ∃ k ∈ files.places, Path.stemAt k = m := by
      simpa [runNames] using hm
    exact hshare k hk hmn

/-- The options of a project with two resource roots. -/
def rootsOptions : CompileOptions := { sampleOptions with resDirs := [⟨"app"⟩, ⟨"lib"⟩] }

/-- A layout with one variant in each of two resource roots. -/
def twoRoots : Tree :=
  .ofFiles [(⟨"app/layout/main.xml"⟩, sampleText "a"), (⟨"lib/layout/main.xml"⟩, sampleText "b")]

/-- Two layouts of one class name. -/
def sharedClass : Tree :=
  .ofFiles [(sampleFile "layout" "item1", sampleText "a"),
    (sampleFile "layout" "item_1", sampleText "b")]

theorem compileIncremental_ids_twoRoots : ∃ l, (∃ id, id ∈ l.ids) ∧
    (compileIncremental rootsOptions [⟨"app/layout/main.xml"⟩] [] twoRoots).store.textAt?
      (holderLocation rootsOptions "main") = some (Holder.source "com.example" l) := by
  obtain ⟨report, hok⟩ := exists_eq_ok (by decide +kernel : (compileIncremental rootsOptions
    [⟨"app/layout/main.xml"⟩] [] twoRoots).result.isOk = true)
  obtain ⟨files, hfiles⟩ := exists_eq_ok (by decide +kernel : (allLayoutFiles twoRoots
    rootsOptions.resDirs).isOk = true)
  have hchanged : AreListed files [⟨"app/layout/main.xml"⟩] := by
    intro p hp
    obtain rfl := List.mem_singleton.1 hp
    refine ⟨by decide +kernel, PathSet.contains_iff_mem_places.2 ?_⟩
    exact (mem_allLayoutFiles (Tree.spelled_ofFiles _) hfiles (by decide +kernel)).2
      ⟨⟨"app"⟩, by decide, "layout", "main.xml", by decide +kernel⟩
  have hmain : Path.stem ⟨"app/layout/main.xml"⟩ = "main" := by decide +kernel
  obtain ⟨l, -, -, htext, hids, -, -⟩ := compileIncremental_ids (Tree.spelled_ofFiles _) hfiles
    hchanged hok ⟨⟨"app/layout/main.xml"⟩, by decide, hmain⟩ (by decide +kernel)
  have hid : "a" ∈ l.ids := by
    exact (hids "a").2 ⟨⟨"app/layout/main.xml"⟩, by decide, hmain,
      ⟨⟨"app/layout/main.xml"⟩, "main.xml", "layout", ⟨"app"⟩⟩, by decide +kernel,
      Path.steps ⟨"app/layout/main.xml"⟩, by decide +kernel, ⟨"main", [sampleView "a"]⟩,
      by decide +kernel, by decide⟩
  exact ⟨l, ⟨"a", hid⟩, htext (Layout.views_ne_nil_iff.2 ⟨"a", hid⟩)⟩

/-- An incremental run may miss ids: those of another resource root, and those of a layout whose
holder is that of another layout. -/
theorem compileIncremental_drops_ids :
    (compile rootsOptions rootsOptions.resDirs twoRoots).result.isOk = true ∧
      (compile rootsOptions rootsOptions.resDirs twoRoots).store.textAt?
        (holderLocation rootsOptions "main") =
          some (Holder.source "com.example" ⟨"main", [sampleView "a", sampleView "b"]⟩) ∧
      (compileIncremental rootsOptions [⟨"app/layout/main.xml"⟩] [] twoRoots).result.isOk = true ∧
      (compileIncremental rootsOptions [⟨"app/layout/main.xml"⟩] [] twoRoots).store.textAt?
        (holderLocation rootsOptions "main") =
          some (Holder.source "com.example" ⟨"main", [sampleView "a"]⟩) ∧
      (compileIncremental sampleOptions [sampleFile "layout" "item1", sampleFile "layout" "item_1"]
        [] sharedClass).store.textAt? (holderLocation sampleOptions "item1") =
          some (Holder.source "com.example" ⟨"item_1", [sampleView "b"]⟩) := by
  decide +kernel

end ViewHolder
