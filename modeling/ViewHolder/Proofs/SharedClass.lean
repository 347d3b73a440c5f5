import ViewHolder.Proofs.Incremental

/-!
# Layouts that share a class name

The words of a layout name make its class name, and separators and the case of first letters get
lost on the way.  Layouts of one class name share a holder: a run writes it once for each of them,
and what the last of them wrote stays.

## Main definitions

* `classMates` : the layouts among some that share a holder with a layout name.

## Main results

* `writeAll_last` : a shared holder is the source of the last layout that was written to it.
* `compile_holder` : the holders after a full run without pruning.
-/

namespace ViewHolder

/-- The layouts among some that have the class name of `n`. -/
def classMates (ls : List Layout) (n : String) : List Layout :=
  ls.filter fun l => Holder.className l.name == Holder.className n

/-- Layouts of one class name have one holder. -/
theorem holderLocation_congr {opts : CompileOptions} {m n : String}
    (h : Holder.className m = Holder.className n) :
    holderLocation opts m = holderLocation opts n := by
  rw [holderLocation, holderLocation, holderPath, holderPath, Holder.outputPath, Holder.outputPath,
    h]

/-- **A shared holder is the source of the last layout that was written to it.** -/
theorem writeAll_last {opts : CompileOptions} {t : Tree} {ls : List Layout}
    {outputs : List Output} (h : (writeAll opts t ls).result = .ok outputs)
    (hslash : ∀ l ∈ ls, '/' ∉ l.name.toList) {n : String} {last : Layout}
    (hlast : (classMates ls n).getLast? = some last) :
    (writeAll opts t ls).store.textAt? (holderLocation opts n) =
      some (Holder.source opts.package last) := by
  obtain ⟨hmem, hclass⟩ := List.mem_filter.1 (List.mem_of_getLast? hlast)
  rw [beq_iff_eq] at hclass
  -- The layouts that share the holder of `n` are its class mates, as `last` is one of them.
  have hmates : (ls.filter fun l => holderLocation opts l.name = holderLocation opts n) =
      classMates ls n := by
    refine List.filter_congr fun l hl => Bool.eq_iff_iff.2 ?_
    rw [← holderLocation_congr hclass, ← hclass, decide_eq_true_iff, beq_iff_eq]
    exact ⟨location_holderPath_inj (hslash l hl) (hslash last hmem), holderLocation_congr⟩
  rw [writeAll_placed hslash h, placeHolders_apply, hmates, hlast]
  rfl

/-- **The holders after a full run without pruning.**  The holder of a layout with views is the
source of the last layout of its class name that the run writes, which is the layout itself if no
other layout with views has its class name.  The report counts the holder once for each layout. -/
theorem compile_holder {opts : CompileOptions} {roots : List Path} {t : Tree} {report : Report}
    (hkeep : opts.pruneStale = false) (hok : (compile opts roots t).result = .ok report) :
    ∃ files, allLayoutFiles t roots = .ok files ∧
      report.outputCount = (catalogAt t opts files).filled.length ∧
      ∀ n l, t.merged? opts (files.places.filter (Path.stemAt · == n)) = some l → l.views ≠ [] →
        (∃ last, (classMates (catalogAt t opts files).filled n).getLast? = some last ∧
          (compile opts roots t).store.textAt? (holderLocation opts n) =
            some (Holder.source opts.package last)) ∧
        ((∀ m ∈ (catalogAt t opts files).filled,
            Holder.className m.name = Holder.className n → m.name = n) →
          (compile opts roots t).store.textAt? (holderLocation opts n) =
            some (Holder.source opts.package l)) := by
  obtain ⟨files, hfiles, hrun, hcompile⟩ := compile_eq_ok hok
  obtain ⟨-, outputs, -, hwrite, -, hstore, rfl⟩ := run_stages hrun
  have hstage : pruneStage opts t files [] = ⟨(writeStage opts t files).store, [], .ok []⟩ := by
    rw [pruneStage, prune, hkeep]
    rfl
  rw [hcompile, hstore, hstage]
  refine ⟨files, hfiles, length_of_writeAll (fun m hm => slash_notMem_name hm) hwrite,
    fun n l hl hviews => ?_⟩
  have hfind : (catalogAt t opts files).find? n = some l := (t.find?_catalog opts _ n).trans hl
  have hname : l.name = n := by simpa using List.find?_some hfind
  have hmem : l ∈ classMates (catalogAt t opts files).filled n := by
    refine List.mem_filter.2 ⟨List.mem_filter.2 ⟨?_, by simpa [Layout.isEmpty]⟩, by simp [hname]⟩
    exact Catalog.mem_layouts_iff.2 (hname ▸ hfind)
  obtain ⟨last, hlast⟩ : ∃ last, (classMates (catalogAt t opts files).filled n).getLast? =
      some last :=
    ⟨_, List.getLast?_eq_some_getLast (List.ne_nil_of_mem hmem)⟩
  have hholder := writeAll_last hwrite (fun m hm => slash_notMem_name hm) hlast
  refine ⟨⟨last, hlast, hholder⟩, fun hclass => ?_⟩
  obtain ⟨hlastmem, hmate⟩ := List.mem_filter.1 (List.mem_of_getLast? hlast)
  have hlastname : last.name = n := hclass last hlastmem (beq_iff_eq.1 hmate)
  have hlastfind := Catalog.mem_layouts_iff.1 (List.mem_filter.1 hlastmem).1
  rw [hlastname] at hlastfind
  rwa [← Option.some.inj (hlastfind.symm.trans hfind)]

/-- The options of a project that keeps stale holders. -/
def keepingOptions : CompileOptions := { sampleOptions with pruneStale := false }

/-- What the files of two layouts of one class name are merged into. -/
theorem sharedClass_merged {files : PathSet}
    (hfiles : allLayoutFiles sharedClass [⟨"res"⟩] = .ok files) :
    sharedClass.merged? keepingOptions (files.places.filter (Path.stemAt · == "item1")) =
      some ⟨"item1", [sampleView "a"]⟩ ∧
    (classMates (catalogAt sharedClass keepingOptions files).filled "item1").getLast? =
      some ⟨"item_1", [sampleView "b"]⟩ := by
  have heval : (allLayoutFiles sharedClass [⟨"res"⟩]).toOption.map (fun files =>
      (sharedClass.merged? keepingOptions (files.places.filter (Path.stemAt · == "item1")),
        (classMates (catalogAt sharedClass keepingOptions files).filled "item1").getLast?)) =
      some (some ⟨"item1", [sampleView "a"]⟩, some ⟨"item_1", [sampleView "b"]⟩) := by
    decide +kernel
  rw [hfiles] at heval
  exact Prod.ext_iff.1 (Option.some.inj heval)

/-- What a full run over two layouts of one class name reports and leaves. -/
theorem compile_sharedClass_eval :
    (compile keepingOptions [⟨"res"⟩] sharedClass).result.toOption.map Report.outputCount =
        some 2 ∧
      (compile keepingOptions [⟨"res"⟩] sharedClass).store.textAt?
        (holderLocation keepingOptions "item1") ≠
          some (Holder.source "com.example" ⟨"item1", [sampleView "a"]⟩) := by
  decide +kernel

theorem compile_holder_sharedClass :
    (compile keepingOptions [⟨"res"⟩] sharedClass).store.textAt?
      (holderLocation keepingOptions "item1") =
        some (Holder.source "com.example" ⟨"item_1", [sampleView "b"]⟩) := by
  obtain ⟨report, hok, -⟩ := exists_ok_of_map compile_sharedClass_eval.1
  obtain ⟨files, hfiles, -, hholders⟩ := compile_holder rfl hok
  obtain ⟨hmerged, hmates⟩ := sharedClass_merged hfiles
  obtain ⟨⟨last, hlast, htext⟩, -⟩ := hholders "item1" _ hmerged (List.cons_ne_nil _ _)
  rwa [Option.some.inj (hmates.symm.trans hlast)]

/-- A holder of a full run may be overwritten by the holder of another layout of the run: two
layouts with views are reported, and one of them has no holder. -/
theorem compile_overwrites_holder :
    keepingOptions.pruneStale = false ∧
      (compile keepingOptions [⟨"res"⟩] sharedClass).result.toOption.map Report.outputCount =
        some 2 ∧
      (∀ files, allLayoutFiles sharedClass [⟨"res"⟩] = .ok files →
        sharedClass.merged? keepingOptions (files.places.filter (Path.stemAt · == "item1")) =
          some ⟨"item1", [sampleView "a"]⟩) ∧
      (compile keepingOptions [⟨"res"⟩] sharedClass).store.textAt?
        (holderLocation keepingOptions "item1") ≠
          some (Holder.source "com.example" ⟨"item1", [sampleView "a"]⟩) := by
  obtain ⟨hcount, hholder⟩ := compile_sharedClass_eval
  exact ⟨rfl, hcount, fun _ hfiles => (sharedClass_merged hfiles).1, hholder⟩

end ViewHolder
