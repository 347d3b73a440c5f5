import ViewHolder.Proofs.AffectedSet
import ViewHolder.Proofs.ListedReport
import ViewHolder.Watch.Session

/-!
# Affected files that are hidden

The files of some resource roots are listed without the hidden ones, and a watch passes over hidden
files.  Looking for affected files does neither: a hidden file that is reported is affected, with
the hidden files of its name in the other variant directories.  These are the only affected files
that no listing shows, so that all affected files are listed where no hidden file is reported.

## Main definitions

* `Path.LiesInVariant` : paths that lie directly in a variant directory of some root.

## Main results

* `exists_affectedFiles_of_listable` : where the roots can be listed, there are affected files.
* `affectedFiles_listed_iff` : an affected file is listed unless it is hidden, like a reported file
  of its name.
* `affectedFiles_classifyChanges` : all files that a batch of a watch affects are listed.
* `affectedFiles_hidden` : a hidden file that is affected, and what becomes of a holder.
-/

namespace ViewHolder

/-- The path lies directly in a variant directory of one of the roots. -/
def Path.LiesInVariant (roots : List Path) (p : Path) : Prop :=
  ∃ r ∈ roots, ∃ v s, isVariantName v = true ∧ p.location = r.location ++ [.name v, s]

/-- A layout file lies in a variant directory of the root to which it belongs. -/
theorem LayoutFile.exists_root_of_liesInVariant {roots : List Path} {p : Path} {f : LayoutFile}
    (hp : p.LiesInVariant roots) (hf : ofPath? p = some f) :
    ∃ r ∈ roots, f.root.location = r.location := by
  obtain ⟨r, hr, v, s, -, hloc⟩ := hp
  rw [location_of_ofPath? hf] at hloc
  exact ⟨r, hr, (List.append_inj' hloc rfl).1⟩

theorem LayoutFile.fileName?_of_ofPath? {p : Path} {f : LayoutFile} (hf : ofPath? p = some f) :
    p.fileName? = some f.fileName := by
  refine Path.fileName?_eq_some.2 ⟨f.root.steps ++ [.name f.variant], ?_⟩
  rw [(steps_of_ofPath? hf).2, List.append_assoc, List.singleton_append]

theorem LayoutFile.isCandidate_eq {p : Path} {f : LayoutFile} (hf : ofPath? p = some f) :
    isCandidate p = !isHiddenName f.fileName := by
  rw [isCandidate, hf]

/-! ### The listed files of a root -/

section

variable {t : Tree} (ht : t.Spelled) (hproper : t.Proper) {roots : List Path} {all : PathSet}
  (hall : allLayoutFiles t roots = .ok all)
include ht hproper hall

/-- A file in a variant directory of a root is listed unless it is hidden. -/
theorem exists_listed_iff {p r : Path} (hr : r ∈ roots) {v x : String}
    (hv : isVariantName v = true) (hloc : p.location = r.location ++ [.name v, .name x])
    (hfile : t.hasFile p.location = true) :
    (∃ q, all.contains q = true ∧ q.location = p.location) ↔ isHiddenName x = false := by
  constructor
  · rintro ⟨q, hq, hsame⟩
    obtain ⟨r', -, v', s, -, hsteps, hthere, -, hshown⟩ :=
      (mem_places_allLayoutFiles ht hall).1 (PathSet.contains_iff_mem_places.1 hq)
    have hqloc : q.location = r'.location ++ [.name v', s] := by
      rw [Path.location, hsteps, ht.filter_place hthere]
    have hlast : [Step.name v', s] = [.name v, .name x] :=
      (List.append_inj' (hqloc.symm.trans (hsame.trans hloc)) rfl).2
    have hs : s = .name x := (List.cons.inj (List.cons.inj hlast).2).1
    exact hshown x hs
  · intro hshown
    have hname {y : String} (hy : .name y ∈ p.location) : IsEntryName y :=
      ht.isEntryName hfile hy
    have hsteps : ((r.join ⟨v⟩).join ⟨x⟩).steps = r.steps ++ [.name v, .name x] := by
      rw [Path.steps_join_name (hname (by simp [hloc])), Path.steps_join_name
        (hname (by simp [hloc])), List.append_assoc, List.singleton_append]
    have hsame : ((r.join ⟨v⟩).join ⟨x⟩).location = p.location :=
      (Path.location_eq_of_steps hsteps (by simp)).trans hloc.symm
    refine ⟨_, PathSet.contains_iff_mem_places.2 ((mem_places_allLayoutFiles ht hall).2
      ⟨r, hr, v, .name x, hv, hsteps, hloc ▸ hfile, ?_, fun y hy => Step.name.inj hy ▸ hshown⟩),
      hsame⟩
    exact hloc ▸ hproper _ hfile

end

/-! ### Affected files -/

section

variable {t : Tree} {changed removed : List Path}

/-- Affected files are there if the files that changed are. -/
theorem hasFile_of_affected (hchanged : ∀ p ∈ changed, t.hasFile p.location = true) {files : PathSet}
    (h : affectedFiles t changed removed = .ok files) {p : Path} (hp : files.contains p = true) :
    t.hasFile p.location = true := by
  obtain ⟨-, ⟨hmem, -⟩ | ⟨f, -, hfile, -⟩⟩ := (contains_affectedFiles_iff h p).1 hp
  · obtain ⟨q, hq, hsame⟩ := List.mem_map.1 hmem
    rw [← Path.location_eq_of_steps_eq hsame]
    exact hchanged q hq
  · exact hfile

variable {roots : List Path} (hin : ∀ p ∈ changed ++ removed, p.LiesInVariant roots)
include hin

/-- Where the roots of the reported files can be listed, the affected files are found. -/
theorem exists_affectedFiles_of_listable (hroots : ∀ r ∈ roots, t.isListable r.location = true) :
    ∃ files, affectedFiles t changed removed = .ok files := by
  refine exists_affectedFiles_iff.2 fun f hf => ?_
  obtain ⟨p, hp, hfp⟩ := List.mem_filterMap.1 hf
  obtain ⟨r, hr, hroot⟩ := LayoutFile.exists_root_of_liesInVariant (hin p hp) hfp
  rw [Tree.refusesListing_iff, hroot, hroots r hr]
  nofun

variable (ht : t.Spelled) (hproper : t.Proper)
  (hchanged : ∀ p ∈ changed, t.hasFile p.location = true) {all : PathSet}
  (hall : allLayoutFiles t roots = .ok all)
include ht hproper hchanged hall

/-- An affected file has the name of a reported one, and unless this is hidden it is listed. -/
theorem exists_reported_of_affected {files : PathSet}
    (h : affectedFiles t changed removed = .ok files) {p : Path} (hp : files.contains p = true) :
    ∃ q ∈ changed ++ removed, q.fileName? = p.fileName? ∧
      LayoutFile.isCandidate q = LayoutFile.isCandidate p ∧
      ((∃ listed, all.contains listed = true ∧ listed.location = p.location) ↔
        LayoutFile.isCandidate p = true) := by
  obtain ⟨q, hq, f, hfq, v, hv, hsteps⟩ := exists_touched_of_affected h hp
  obtain ⟨g, hgp, -, hname, -⟩ := LayoutFile.exists_ofPath? hsteps hv
  obtain ⟨r, hr, hroot⟩ := LayoutFile.exists_root_of_liesInVariant (hin q hq) hfq
  have hloc : p.location = r.location ++ [.name v, .name f.fileName] := by
    rw [← hroot]
    exact Path.location_eq_of_steps hsteps (by simp)
  have hlisted := exists_listed_iff ht hproper hall hr hv hloc (hasFile_of_affected hchanged h hp)
  refine ⟨q, hq, ?_, ?_, ?_⟩
  · rw [LayoutFile.fileName?_of_ofPath? hfq, LayoutFile.fileName?_of_ofPath? hgp, hname]
  · rw [LayoutFile.isCandidate_eq hfq, LayoutFile.isCandidate_eq hgp, hname]
  · rw [hlisted, LayoutFile.isCandidate_eq hgp, hname, Bool.not_eq_true']

/-- **Which affected files are listed.**  If files of some roots are reported that can be listed,
the affected files are found.  Each of them has the name of a reported file, and it is listed unless
that file is hidden; so all affected files are listed if no reported file is hidden. -/
theorem affectedFiles_listed_iff : ∃ files, affectedFiles t changed removed = .ok files ∧
    (∀ p, files.contains p = true → ∃ q ∈ changed ++ removed, q.fileName? = p.fileName? ∧
      LayoutFile.isCandidate q = LayoutFile.isCandidate p ∧
      ((∃ listed, all.contains listed = true ∧ listed.location = p.location) ↔
        LayoutFile.isCandidate p = true)) ∧
    ((∀ q ∈ changed ++ removed, LayoutFile.isCandidate q = true) →
      ∀ p, files.contains p = true →
        ∃ listed, all.contains listed = true ∧ listed.location = p.location) := by
  obtain ⟨files, h⟩ := exists_affectedFiles_of_listable hin fun r hr =>
    isListable_of_allLayoutFiles hall hr
  have hreported {p : Path} (hp : files.contains p = true) :=
    exists_reported_of_affected hin ht hproper hchanged hall h hp
  refine ⟨files, h, fun p hp => hreported hp, fun hshown p hp => ?_⟩
  obtain ⟨q, hq, -, hsame, hlisted⟩ := hreported hp
  exact hlisted.2 (hsame ▸ hshown q hq)

end

/-- A layout file and a hidden file whose holder has the same place. -/
def hiddenTwin : Tree :=
  .ofFiles [(sampleFile "layout" "main", sampleText "a"),
    (sampleFile "layout" ".main", sampleText "b")]

theorem liesInVariant_hiddenTwin {name : String} (h : name ∈ ["main", ".main"]) :
    (sampleFile "layout" name).LiesInVariant [⟨"res"⟩] := by
  refine ⟨⟨"res"⟩, List.mem_singleton_self _, "layout", .name (sourceName name),
    by decide +kernel, ?_⟩
  have hboth : ∀ name ∈ ["main", ".main"], (sampleFile "layout" name).location =
      Path.location ⟨"res"⟩ ++ [.name "layout", .name (sourceName name)] := by decide +kernel
  exact hboth name h

theorem affectedFiles_listed_iff_hiddenTwin : ∃ all files,
    allLayoutFiles hiddenTwin [⟨"res"⟩] = .ok all ∧
    affectedFiles hiddenTwin [sampleFile "layout" ".main", sampleFile "layout" "main"] [] =
      .ok files ∧
    (∃ listed, all.contains listed = true ∧
      listed.location = (sampleFile "layout" "main").location) ∧
    files.contains (sampleFile "layout" ".main") = true ∧
    ¬ ∃ listed, all.contains listed = true ∧
      listed.location = (sampleFile "layout" ".main").location := by
  obtain ⟨all, hall⟩ := exists_eq_ok
    (by decide +kernel : (allLayoutFiles hiddenTwin [⟨"res"⟩]).isOk = true)
  have hreported (name : String) : name ∈ ["main", ".main"] → sampleFile "layout" name ∈
      [sampleFile "layout" ".main", sampleFile "layout" "main"] := fun hname => by
    rcases List.mem_pair.1 hname with rfl | rfl <;> simp
  have hin : ∀ p ∈ [sampleFile "layout" ".main", sampleFile "layout" "main"] ++ [],
      p.LiesInVariant [⟨"res"⟩] := fun p hp => by
    rcases List.mem_pair.1 hp with rfl | rfl <;> exact liesInVariant_hiddenTwin (by decide)
  have hthere : ∀ p ∈ [sampleFile "layout" ".main", sampleFile "layout" "main"],
      hiddenTwin.hasFile p.location = true := by decide +kernel
  obtain ⟨files, h, hlisted, -⟩ := affectedFiles_listed_iff hin (Tree.spelled_ofFiles _)
    (by decide +kernel) hthere hall
  have hmember (name : String) (hname : name ∈ ["main", ".main"]) :
      files.contains (sampleFile "layout" name) = true := by
    have hlayout : ∀ name ∈ ["main", ".main"],
        (LayoutFile.ofPath? (sampleFile "layout" name)).isSome = true := by decide +kernel
    exact (contains_affectedFiles_iff h _).2
      ⟨List.not_mem_nil, .inl ⟨List.mem_map_of_mem (hreported name hname), hlayout name hname⟩⟩
  obtain ⟨-, -, -, -, hmain⟩ := hlisted _ (hmember "main" (by decide))
  obtain ⟨-, -, -, -, hhidden⟩ := hlisted _ (hmember ".main" (by decide))
  exact ⟨all, files, hall, h, hmain.2 (by decide +kernel), hmember _ (by decide),
    fun hall => absurd (hhidden.1 hall) (by decide +kernel)⟩

/-- The same files with the holder of the listed one. -/
def heldTwin : Tree :=
  .ofFiles [(sampleFile "layout" "main", sampleText "a"),
    (sampleFile "layout" ".main", sampleText "b"),
    (holderPath sampleOptions "main", Holder.source "com.example" ⟨"main", [sampleView "a"]⟩)]

/-- A hidden file that is reported is read again though no listing shows it: its holder replaces
that of a listed file, and when it has disappeared that holder is pruned. -/
theorem affectedFiles_hidden :
    (heldTwin.Spelled ∧ heldTwin.Proper ∧
      (sampleFile "layout" ".main").LiesInVariant [⟨"res"⟩]) ∧
    ((allLayoutFiles heldTwin [⟨"res"⟩]).toOption.map PathSet.toList =
        some [sampleFile "layout" "main"] ∧
      (affectedFiles heldTwin [sampleFile "layout" ".main"] []).toOption.map PathSet.toList =
        some [sampleFile "layout" ".main"]) ∧
    (compileIncremental sampleOptions [sampleFile "layout" ".main"] [] heldTwin).store.textAt?
      (holderLocation sampleOptions "main") =
        some (Holder.source "com.example" ⟨".main", [sampleView "b"]⟩) ∧
    (compileIncremental sampleOptions [] [sampleFile "layout" ".main"]
      (heldTwin.dropFile (sampleFile "layout" ".main").location)).result.toOption.map
        Report.pruned = some [holderPath sampleOptions "main"] := by
  refine ⟨⟨Tree.spelled_ofFiles _, by decide +kernel, liesInVariant_hiddenTwin (by decide)⟩, ?_⟩
  decide +kernel

/-! ### Batches of a watch -/

/-- The files into which a batch is split are files of the batch that are not hidden. -/
theorem isCandidate_of_mem_classifyChanges {isFile : Path → Bool} {paths : List Path} {p : Path}
    (hp : p ∈ (classifyChanges isFile paths).1 ++ (classifyChanges isFile paths).2) :
    p ∈ paths ∧ LayoutFile.isCandidate p = true := by
  rw [classifyChanges, List.partition_eq_filter_filter] at hp
  rcases List.mem_append.1 hp with hp | hp
  · exact List.mem_filter.1 (List.mem_filter.1 hp).1
  · exact List.mem_filter.1 (List.mem_filter.1 hp).1

/-- **All files that a batch of a watch affects are listed**: the batch is split without its hidden
files. -/
theorem affectedFiles_classifyChanges {t : Tree} (ht : t.Spelled) (hproper : t.Proper)
    {roots paths : List Path} {all : PathSet} (hall : allLayoutFiles t roots = .ok all)
    (hin : ∀ p ∈ paths, LayoutFile.isCandidate p = true → p.LiesInVariant roots) :
    ∃ files, affectedFiles t (classifyChanges (Store.isFile t) paths).1
        (classifyChanges (Store.isFile t) paths).2 = .ok files ∧
      ∀ p, files.contains p = true →
        ∃ listed, all.contains listed = true ∧ listed.location = p.location := by
  have hreported {p : Path} (hp : p ∈ (classifyChanges (Store.isFile t) paths).1 ++
      (classifyChanges (Store.isFile t) paths).2) := isCandidate_of_mem_classifyChanges hp
  have hthere : ∀ p ∈ (classifyChanges (Store.isFile t) paths).1,
      t.hasFile p.location = true := fun p hp => by
    rw [classifyChanges, List.partition_eq_filter_filter] at hp
    exact (List.mem_filter.1 hp).2
  have hlies : ∀ p ∈ (classifyChanges (Store.isFile t) paths).1 ++
      (classifyChanges (Store.isFile t) paths).2, p.LiesInVariant roots :=
    fun p hp => hin p (hreported hp).1 (hreported hp).2
  obtain ⟨files, h⟩ := exists_affectedFiles_of_listable hlies fun r hr =>
    isListable_of_allLayoutFiles hall hr
  refine ⟨files, h, fun p hp => ?_⟩
  obtain ⟨q, hq, -, hsame, hlisted⟩ :=
    exists_reported_of_affected hlies ht hproper hthere hall h hp
  exact hlisted.2 (hsame ▸ (hreported hq).2)

end ViewHolder
