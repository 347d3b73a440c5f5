import ViewHolder.Proofs.AffectedSet
import ViewHolder.Proofs.Incremental

/-!
# Files of one layout under different names

The name of a layout is the stem of its files, while a file affects the files of its full name.  So
`main.xml` and `main.txt` are merged into one layout by a run over both of them, but neither of them
affects the other one.  Where the files of a layout share their name, they are affected together.

## Main definitions

* `Tree.HoldsVariant` : the existing files of a layout in a resource root.

## Main results

* `contains_variant_iff` : which other files of its layout are affected with a file.
* `affectedFiles_sameLayout` : what this means for a layout and its holder.
* `affectedFiles_otherName` : a holder that is made from one of two files.
-/

namespace ViewHolder

/-- The file exists in a variant directory of the resource root at the given steps, and belongs to
the layout `n`. -/
structure Tree.HoldsVariant (t : Tree) (root : List Step) (n : String) (f : LayoutFile) : Prop where
  place : LayoutFile.ofPath? f.path = some f
  file : t.hasFile f.path.location = true
  root : f.root.steps = root
  name : f.layoutName = n

theorem Tree.HoldsVariant.stemAt {t : Tree} {root : List Step} {n : String} {f : LayoutFile}
    (hf : t.HoldsVariant root n f) : Path.stemAt f.path.steps = n := by
  rw [← Path.stem_eq_stemAt]
  exact hf.name

section

variable {t : Tree} {changed removed : List Path} {files : PathSet}
  (h : affectedFiles t changed removed = .ok files)
  {root : List Step} {n : String} {f : LayoutFile} (hf : t.HoldsVariant root n f)
  (hmem : files.contains f.path = true)
include h hf hmem

/-- **Which other files of its layout are affected with a file**: those of its full name, and those
of whose full name a file was touched. -/
theorem contains_variant_iff {g : LayoutFile} (hg : t.HoldsVariant root n g)
    (hstays : g.path.steps ∉ removed.map Path.steps) : files.contains g.path = true ↔
      g.fileName = f.fileName ∨ TouchesName changed removed root g.fileName := by
  have htouched {f : LayoutFile} (hf : t.HoldsVariant root n f)
      (hmem : files.contains f.path = true) : TouchesName changed removed root f.fileName := by
    obtain ⟨f', hf', htouched⟩ := touchesName_of_affected h hmem
    obtain rfl : f = f' := Option.some.inj (hf.place.symm.trans hf')
    rwa [hf.root] at htouched
  refine ⟨fun hother => Or.inr (htouched hg hother), fun hname => ?_⟩
  refine affected_of_touchesName h hg.place hg.file hstays ?_
  rw [hg.root]
  rcases hname with hname | hname
  · exact hname ▸ htouched hf hmem
  · exact hname

variable (hnames : ∀ g, t.HoldsVariant root n g → g.fileName = f.fileName)
include hnames

/-- Where the files of a layout share their name, a run over affected files that succeeds makes the
holder of the layout from all of them. -/
theorem compileIncremental_sameName {opts : CompileOptions} {report : Report}
    (hok : (compileIncremental opts changed removed t).result = .ok report)
    (hclass : ∀ m ∈ runNames files removed, Holder.className m = Holder.className n → m = n) :
    ∃ l, t.merged? opts (files.places.filter (Path.stemAt · == n)) = some l ∧
      (∀ g, t.HoldsVariant root n g → g.path.steps ∉ removed.map Path.steps →
        ∃ lg, t.layoutAt? opts g.path.steps = some lg ∧ ∀ id ∈ lg.ids, id ∈ l.ids) ∧
      (l.views ≠ [] → (compileIncremental opts changed removed t).store.textAt?
        (holderLocation opts n) = some (Holder.source opts.package l)) := by
  obtain ⟨files', hfiles', hrun, hstore⟩ := compileIncremental_eq_ok hok
  obtain rfl : files = files' := Except.ok.inj (h.symm.trans hfiles')
  obtain ⟨hread, -⟩ := run_eq_ok hrun
  have hvariant {g : LayoutFile} (hg : t.HoldsVariant root n g)
      (hgmem : files.contains g.path = true) :
      g.path.steps ∈ files.places.filter (Path.stemAt · == n) :=
    List.mem_filter.2 ⟨PathSet.contains_iff_mem_places.1 hgmem, beq_iff_eq.2 hg.stemAt⟩
  have hmemf := hvariant hf hmem
  obtain ⟨lf, hlf⟩ := hread _ (List.mem_filter.1 hmemf).1
  obtain ⟨l, hl⟩ := Tree.exists_merged? hmemf hlf
  refine ⟨l, hl, fun g hg hstays => ?_, fun hviews => ?_⟩
  · have hmemg := hvariant hg ((contains_variant_iff h hf hmem hg hstays).2 (Or.inl (hnames g hg)))
    obtain ⟨lg, hlg⟩ := hread _ (List.mem_filter.1 hmemg).1
    exact ⟨lg, hlg, fun id hid => (Tree.mem_ids_merged? hl).2 ⟨_, hmemg, lg, hlg, hid⟩⟩
  · rw [hstore]
    exact run_source hrun hl hviews hclass

end

/-- **Affected files of one layout.**  With an existing file of a layout, another one in the same
resource root that did not disappear is affected exactly if it has the same full name, or a file of
its full name was touched there.  So where all files of the layout share their name, they are
affected together, and an incremental run that succeeds makes the holder from all of them. -/
theorem affectedFiles_sameLayout {t : Tree} {changed removed : List Path} {files : PathSet}
    (h : affectedFiles t changed removed = .ok files) {root : List Step} {n : String}
    {f : LayoutFile} (hf : t.HoldsVariant root n f) (hmem : files.contains f.path = true) :
    (∀ g, t.HoldsVariant root n g → g.path.steps ∉ removed.map Path.steps →
      (files.contains g.path = true ↔
        g.fileName = f.fileName ∨ TouchesName changed removed root g.fileName)) ∧
    ((∀ g, t.HoldsVariant root n g → g.fileName = f.fileName) →
      (∀ g, t.HoldsVariant root n g → g.path.steps ∉ removed.map Path.steps →
        files.contains g.path = true) ∧
      ∀ opts report, (compileIncremental opts changed removed t).result = .ok report →
        (∀ m ∈ runNames files removed, Holder.className m = Holder.className n → m = n) →
        ∃ l, t.merged? opts (files.places.filter (Path.stemAt · == n)) = some l ∧
          (∀ g, t.HoldsVariant root n g → g.path.steps ∉ removed.map Path.steps →
            ∃ lg, t.layoutAt? opts g.path.steps = some lg ∧ ∀ id ∈ lg.ids, id ∈ l.ids) ∧
          (l.views ≠ [] → (compileIncremental opts changed removed t).store.textAt?
            (holderLocation opts n) = some (Holder.source opts.package l))) :=
  ⟨fun _ => contains_variant_iff h hf hmem, fun hnames =>
    ⟨fun g hg hstays => (contains_variant_iff h hf hmem hg hstays).2 (Or.inl (hnames g hg)),
      fun _ _ hok hclass => compileIncremental_sameName h hf hmem hnames hok hclass⟩⟩

/-- A file of the layout `main` among those of two variants. -/
def mainVariant (variant : String) : LayoutFile :=
  ⟨sampleFile variant "main", sourceName "main", variant, ⟨"res"⟩⟩

theorem holdsVariant_twoVariants :
    twoVariants.HoldsVariant [.name "res"] "main" (mainVariant "layout") ∧
      twoVariants.HoldsVariant [.name "res"] "main" (mainVariant "layout-land") :=
  ⟨⟨by decide +kernel, by decide +kernel, by decide +kernel, by decide +kernel⟩,
    ⟨by decide +kernel, by decide +kernel, by decide +kernel, by decide +kernel⟩⟩

/-- The files of the layout `main` share their name. -/
theorem fileName_of_holdsVariant_twoVariants {g : LayoutFile}
    (hg : twoVariants.HoldsVariant [.name "res"] "main" g) : g.fileName = sourceName "main" := by
  have hlast : ∀ e ∈ twoVariants.files, e.1.getLast? = some (.name (sourceName "main")) := by
    decide +kernel
  obtain ⟨e, he, hloc⟩ := Tree.hasFile_iff_mem.1 hg.file
  have hend := hlast e he
  rw [hloc, LayoutFile.location_of_ofPath? hg.place] at hend
  simpa using hend

theorem affectedFiles_sameLayout_twoVariants : ∃ files l,
    affectedFiles twoVariants [sampleFile "layout-land" "main"] [] = .ok files ∧
    files.contains (sampleFile "layout" "main") = true ∧
    (∀ id ∈ ["a", "b"], id ∈ l.ids) ∧
    (compileIncremental sampleOptions [sampleFile "layout-land" "main"] []
      twoVariants).store.textAt? (holderLocation sampleOptions "main") =
        some (Holder.source "com.example" l) := by
  obtain ⟨hlayout, hland⟩ := holdsVariant_twoVariants
  have heval : (affectedFiles twoVariants [sampleFile "layout-land" "main"] []).toOption.map
      PathSet.places = some [(sampleFile "layout-land" "main").steps,
        (sampleFile "layout" "main").steps] := by decide +kernel
  obtain ⟨files, hfiles, hplaces⟩ := exists_ok_of_map heval
  have hmem : files.contains (mainVariant "layout-land").path = true := by
    rw [PathSet.contains_iff_mem_places, hplaces]
    exact List.mem_cons_self
  have hclass : ∀ m ∈ runNames files [], Holder.className m = Holder.className "main" →
      m = "main" := by
    have hall : ∀ k ∈ files.places, Path.stemAt k = "main" := by
      rw [hplaces]
      decide +kernel
    intro m hm _
    obtain ⟨k, hk, rfl⟩ : ∃ k ∈ files.places, Path.stemAt k = m := by
      simpa [runNames] using hm
    exact hall k hk
  obtain ⟨report, hok⟩ := exists_eq_ok (by decide +kernel : (compileIncremental sampleOptions
    [sampleFile "layout-land" "main"] [] twoVariants).result.isOk = true)
  obtain ⟨-, hsame⟩ := affectedFiles_sameLayout hfiles hland hmem
  obtain ⟨htogether, hrun⟩ := hsame fun g hg => fileName_of_holdsVariant_twoVariants hg
  obtain ⟨l, hl, hids, htext⟩ := hrun sampleOptions report hok hclass
  have hread : twoVariants.layoutAt? sampleOptions (mainVariant "layout").path.steps =
      some ⟨"main", [sampleView "a"]⟩ ∧
    twoVariants.layoutAt? sampleOptions (mainVariant "layout-land").path.steps =
      some ⟨"main", [sampleView "b"]⟩ := by decide +kernel
  obtain ⟨la, hla, ha⟩ := hids _ hlayout List.not_mem_nil
  obtain ⟨lb, hlb, hb⟩ := hids _ hland List.not_mem_nil
  obtain rfl := Option.some.inj (hla.symm.trans hread.1)
  obtain rfl := Option.some.inj (hlb.symm.trans hread.2)
  have hida : "a" ∈ l.ids := ha "a" (by decide)
  have hidb : "b" ∈ l.ids := hb "b" (by decide)
  refine ⟨files, l, hfiles, htogether _ hlayout List.not_mem_nil, by simp [hida, hidb], ?_⟩
  refine htext fun hnil => ?_
  simp [Layout.ids, hnil] at hida

/-- Two files of one layout in one resource root, under different names. -/
def otherName : Tree :=
  .ofFiles [(⟨"res/layout/main.xml"⟩, sampleText "a"),
    (⟨"res/layout-land/main.txt"⟩, sampleText "b")]

/-- A listed file of the layout under another name is not affected, so that an incremental run makes
a holder without the views of this file. -/
theorem affectedFiles_otherName :
    (otherName.HoldsVariant [.name "res"] "main"
        ⟨⟨"res/layout/main.xml"⟩, "main.xml", "layout", ⟨"res"⟩⟩ ∧
      otherName.HoldsVariant [.name "res"] "main"
        ⟨⟨"res/layout-land/main.txt"⟩, "main.txt", "layout-land", ⟨"res"⟩⟩) ∧
    (affectedFiles otherName [⟨"res/layout/main.xml"⟩] []).toOption.map PathSet.toList =
      some [⟨"res/layout/main.xml"⟩] ∧
    (allLayoutFiles otherName [⟨"res"⟩]).toOption.map PathSet.toList =
      some [⟨"res/layout/main.xml"⟩, ⟨"res/layout-land/main.txt"⟩] ∧
    (compileIncremental sampleOptions [⟨"res/layout/main.xml"⟩] [] otherName).store.textAt?
      (holderLocation sampleOptions "main") =
        some (Holder.source "com.example" ⟨"main", [sampleView "a"]⟩) := by
  refine ⟨⟨?_, ?_⟩, by decide +kernel⟩
  · exact ⟨by decide +kernel, by decide +kernel, by decide +kernel, by decide +kernel⟩
  · exact ⟨by decide +kernel, by decide +kernel, by decide +kernel, by decide +kernel⟩

end ViewHolder
