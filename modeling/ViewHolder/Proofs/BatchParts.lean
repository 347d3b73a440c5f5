import ViewHolder.Proofs.CompileFrame
import ViewHolder.Proofs.RunParts

/-!
# Parts of a batch

A batch of reported files may report the files of several layouts.  Those that concern some layouts
only make up a batch of their own, and an incremental run after the whole batch does about these
layouts what a run after the smaller batch does: it reads the same files in the same order, and the
same files outside the run back a layout.

## Main definitions

* `reportedFiles` : the layout files among some paths.
* `reachedPlaces` : the places of the files to read, before those that disappeared are taken out.
* `IsVariantPlace` : a place in a variant directory.

## Main results

* `places_affectedFiles` : the files to read are those at the reached places.
* `filter_places_affectedFiles` : the files to read that concern some layouts.
* `runPart_of_batch` : a run after a smaller batch is a part of the run after the whole.
-/

namespace ViewHolder

/-! ### Reported files -/

/-- The layout files among some paths. -/
def reportedFiles (ps : List Path) : List LayoutFile := ps.filterMap LayoutFile.ofPath?

theorem mem_reportedFiles {ps : List Path} {f : LayoutFile} :
    f ∈ reportedFiles ps ↔ f.path ∈ ps ∧ LayoutFile.ofPath? f.path = some f := by
  rw [reportedFiles, List.mem_filterMap]
  constructor
  · rintro ⟨p, hp, hf⟩
    rw [LayoutFile.path_of_ofPath? hf]
    exact ⟨hp, hf⟩
  · rintro ⟨hp, hf⟩
    exact ⟨_, hp, hf⟩

theorem reportedFiles_append (ps qs : List Path) :
    reportedFiles (ps ++ qs) = reportedFiles ps ++ reportedFiles qs :=
  List.filterMap_append

theorem touchedFiles_eq (changed removed : List Path) :
    touchedFiles changed removed = reportedFiles changed ++ reportedFiles removed :=
  reportedFiles_append changed removed

theorem mem_touchedFiles_append {c₁ c₂ r₁ r₂ : List Path} {f : LayoutFile} :
    f ∈ touchedFiles (c₁ ++ c₂) (r₁ ++ r₂) ↔ f ∈ touchedFiles c₁ r₁ ∨ f ∈ touchedFiles c₂ r₂ := by
  simp only [touchedFiles_eq, reportedFiles_append, List.mem_append]
  exact or_or_or_comm

/-- A touched file is what its path is read as. -/
theorem ofPath?_of_touched {changed removed : List Path} {f : LayoutFile}
    (hf : f ∈ touchedFiles changed removed) : LayoutFile.ofPath? f.path = some f :=
  (mem_reportedFiles.1 (show f ∈ reportedFiles (changed ++ removed) from hf)).2

/-- The variants of a layout file have its layout name. -/
theorem stemAt_of_touched {changed removed : List Path} {f : LayoutFile}
    (hf : f ∈ touchedFiles changed removed) (l : List Step) (v : Step) :
    Path.stemAt (l ++ [v, .name f.fileName]) = f.layoutName :=
  LayoutFile.stemAt_variant (ofPath?_of_touched hf) l v

/-- A place in a variant directory. -/
def IsVariantPlace (k : List Step) : Prop :=
  ∃ l v x, isVariantName v = true ∧ k = l ++ [.name v, .name x]

/-- A place in a variant directory is reported if the layout file there is. -/
theorem mem_steps_iff {ps : List Path} {k : List Step} (hk : IsVariantPlace k) :
    k ∈ ps.map Path.steps ↔ ∃ f ∈ reportedFiles ps, f.path.steps = k := by
  rw [List.mem_map]
  constructor
  · rintro ⟨p, hp, rfl⟩
    obtain ⟨l, v, x, hv, hsteps⟩ := hk
    obtain ⟨f, hf, -⟩ := LayoutFile.exists_ofPath? hsteps hv
    exact ⟨f, List.mem_filterMap.2 ⟨p, hp, hf⟩, by rw [LayoutFile.path_of_ofPath? hf]⟩
  · rintro ⟨f, hf, rfl⟩
    exact ⟨f.path, (mem_reportedFiles.1 hf).1, rfl⟩

/-- The names of the layouts that a report touches. -/
def touchedNames (changed removed : List Path) : List String :=
  (touchedFiles changed removed).map (·.layoutName)

theorem mem_touchedNames_append {c₁ c₂ r₁ r₂ : List Path} {n : String} :
    n ∈ touchedNames (c₁ ++ c₂) (r₁ ++ r₂) ↔ n ∈ touchedNames c₁ r₁ ∨ n ∈ touchedNames c₂ r₂ := by
  simp only [touchedNames, List.mem_map, mem_touchedFiles_append, or_and_right, exists_or]

theorem slash_notMem_touchedNames {changed removed : List Path} {n : String}
    (hn : n ∈ touchedNames changed removed) : '/' ∉ n.toList := by
  obtain ⟨f, -, rfl⟩ := List.mem_map.1 hn
  exact f.path.slash_notMem_stem

/-- An incremental run is about the layouts that are touched. -/
theorem runNames_subset_touched {t : Tree} {changed removed : List Path} {files : PathSet}
    (h : affectedFiles t changed removed = .ok files) :
    runNames files removed ⊆ touchedNames changed removed := by
  intro n hn
  have hnames : n ∈ (CompileRequest.incremental changed removed).names t := by
    rw [CompileRequest.names, CompileRequest.candidates, h]
    exact hn
  obtain ⟨p, hp, f, hf, rfl⟩ := CompileRequest.exists_reported_of_mem_names hnames
  exact List.mem_map_of_mem (List.mem_filterMap.2 ⟨p, hp, hf⟩)

/-! ### Reached places -/

/-- The places that a report reaches: those of the layout files that changed, then the other
variants of all touched files. -/
def reachedPlaces (t : Tree) (changed removed : List Path) : List (List Step) :=
  (reportedFiles changed).map (·.path.steps) ++ (touchedFiles changed removed).flatMap fun f =>
    (t.variantPlaces f.root f.fileName).filter (· != f.path.steps)

/-- The files to read are those at the reached places, each where it is reached first, less the
files that disappeared. -/
theorem places_affectedFiles {t : Tree} (ht : t.Spelled) {changed removed : List Path}
    {files : PathSet} (h : affectedFiles t changed removed = .ok files) :
    files.places = (reachedPlaces t changed removed).eraseDups.filter
      (· ∉ removed.map Path.steps) := by
  have hdirect : (changed.filter fun p => (LayoutFile.ofPath? p).isSome).map Path.steps =
      (reportedFiles changed).map (·.path.steps) := by
    rw [reportedFiles, List.map_filterMap, ← List.filterMap_eq_filter, List.map_filterMap]
    refine List.filterMap_congr fun p _ => ?_
    cases hf : LayoutFile.ofPath? p with
    | none => simp [hf]
    | some f => simp [hf, LayoutFile.path_of_ofPath? hf]
  rw [affectedFiles_eq ht h, hdirect]
  rfl

theorem isVariantPlace_of_reached {t : Tree} (ht : t.Spelled) {changed removed : List Path}
    {k : List Step} (hk : k ∈ reachedPlaces t changed removed) : IsVariantPlace k := by
  rcases List.mem_append.1 hk with hk | hk
  · obtain ⟨f, hf, rfl⟩ := List.mem_map.1 hk
    obtain ⟨hv, hsteps⟩ := LayoutFile.steps_of_ofPath? (mem_reportedFiles.1 hf).2
    exact ⟨_, _, _, hv, hsteps⟩
  · obtain ⟨f, -, hk⟩ := List.mem_flatMap.1 hk
    obtain ⟨v, hv, hsteps, -⟩ := (Tree.mem_variantPlaces ht).1 (List.mem_filter.1 hk).1
    exact ⟨_, v, _, hv, hsteps⟩

/-- Every file to read lies in a variant directory. -/
theorem isVariantPlace_of_affected {t : Tree} (ht : t.Spelled) {changed removed : List Path}
    {files : PathSet} (h : affectedFiles t changed removed = .ok files) {k : List Step}
    (hk : k ∈ files.places) : IsVariantPlace k := by
  rw [places_affectedFiles ht h, List.mem_filter, List.mem_eraseDups] at hk
  exact isVariantPlace_of_reached ht hk.1

/-- What the members of a list yield, if a property of what they yield is one of theirs. -/
theorem filter_flatMap_of_forall {α β : Type} {l : List α} {g : α → List β} {p : α → Bool}
    {q : β → Bool} (h : ∀ a ∈ l, ∀ b ∈ g a, q b = p a) :
    (l.flatMap g).filter q = (l.filter p).flatMap g := by
  induction l with
  | nil => rfl
  | cons a l ih =>
    obtain ⟨ha, hl⟩ := List.forall_mem_cons.1 h
    rw [List.flatMap_cons, List.filter_append, ih hl]
    cases hp : p a with
    | true =>
      rw [List.filter_cons_of_pos hp, List.flatMap_cons,
        List.filter_eq_self.2 fun b hb => (ha b hb).trans hp]
    | false =>
      rw [List.filter_cons_of_neg (Bool.not_eq_true _ ▸ hp),
        List.filter_eq_nil_iff.2 fun b hb => by rw [ha b hb, hp]; exact Bool.false_ne_true,
        List.nil_append]

section

variable {t : Tree} (ht : t.Spelled) {p : String → Bool} {changed removed changed' removed' : List Path}
  (hchanged : ((reportedFiles changed').filter fun f => p f.layoutName) = reportedFiles changed)
  (hremoved : ((reportedFiles removed').filter fun f => p f.layoutName) = reportedFiles removed)

include hremoved in
/-- The files of some layouts that are reported as removed. -/
theorem mem_removed_iff {k : List Step} (hk : IsVariantPlace k) (hp : p (Path.stemAt k) = true) :
    k ∈ removed'.map Path.steps ↔ k ∈ removed.map Path.steps := by
  rw [mem_steps_iff hk, mem_steps_iff hk, ← hremoved]
  refine exists_congr fun f => and_congr_left fun hf => ?_
  rw [List.mem_filter, LayoutFile.layoutName, Path.stem_eq_stemAt, hf, and_iff_left hp]

include ht hchanged hremoved

/-- The places of some layouts that a report reaches. -/
theorem filter_reachedPlaces : ((reachedPlaces t changed' removed').filter fun k =>
    p (Path.stemAt k)) = reachedPlaces t changed removed := by
  rw [reachedPlaces, reachedPlaces, List.filter_append, List.filter_map,
    filter_flatMap_of_forall (p := fun f => p f.layoutName) fun f hf k hk => ?_,
    touchedFiles_eq, touchedFiles_eq, List.filter_append, hchanged, hremoved, ← hchanged]
  · refine congrArg₂ _ (congrArg _ (List.filter_congr fun f _ => ?_)) rfl
    rw [Function.comp_apply, LayoutFile.layoutName, Path.stem_eq_stemAt]
  · obtain ⟨v, -, rfl, -⟩ := (Tree.mem_variantPlaces ht).1 (List.mem_filter.1 hk).1
    rw [stemAt_of_touched hf]

variable {files files' : PathSet} (hfiles : affectedFiles t changed removed = .ok files)
  (hfiles' : affectedFiles t changed' removed' = .ok files')
include hfiles hfiles'

/-- **The files to read that concern some layouts** are the files to read of the smaller batch, in
the same order. -/
theorem filter_places_affectedFiles :
    (files'.places.filter fun k => p (Path.stemAt k)) = files.places := by
  rw [places_affectedFiles ht hfiles, places_affectedFiles ht hfiles', List.filter_comm,
    filter_eraseDups, filter_reachedPlaces ht hchanged hremoved]
  refine List.filter_congr fun k hk => ?_
  rw [List.mem_eraseDups] at hk
  have hp : p (Path.stemAt k) = true := by
    rw [← filter_reachedPlaces ht hchanged hremoved] at hk
    exact (List.mem_filter.1 hk).2
  exact decide_eq_decide.2 (not_congr
    (mem_removed_iff hremoved (isVariantPlace_of_reached ht hk) hp))

/-- The listed files back the same layouts of the smaller batch. -/
theorem mem_backedNames_batch {listed : PathSet}
    (hlisted : ∀ k ∈ listed.places, Path.stemAt k ≠ "" → IsVariantPlace k) {n : String}
    (hn : n ∈ runNames files removed) :
    n ∈ backedNames listed files' removed' ↔ n ∈ backedNames listed files removed := by
  obtain ⟨f, hf, rfl⟩ := List.mem_map.1 (runNames_subset_touched hfiles hn)
  have hp : p f.layoutName = true := by
    rw [touchedFiles_eq, ← hchanged, ← hremoved, ← List.filter_append] at hf
    exact (List.mem_filter.1 hf).2
  have hne : f.layoutName ≠ "" := LayoutFile.stem_ne_empty (ofPath?_of_touched hf)
  rw [mem_backedNames_iff, mem_backedNames_iff]
  refine exists_congr fun k => and_congr_right fun hk => and_congr_right fun hstem => ?_
  rw [← hstem] at hp hne
  rw [← filter_places_affectedFiles ht hchanged hremoved hfiles hfiles', List.mem_filter,
    mem_removed_iff hremoved (hlisted k hk hne) hp, and_iff_left hp]

/-- **A run after a smaller batch is a part of the run after the whole**, as long as the other
layouts of the whole have other holders and no holder lies in the resource roots of the project. -/
theorem runPart_of_batch {opts : CompileOptions}
    (hapart : HoldersApart opts (runNames files removed) opts.resDirs)
    (hapart' : HoldersApart opts (runNames files' removed') opts.resDirs)
    (hother : ∀ m ∈ runNames files removed, ∀ n ∈ runNames files' removed',
      holderLocation opts m = holderLocation opts n → p n = true) :
    RunPart opts p t files removed t files' removed' where
  places := filter_places_affectedFiles ht hchanged hremoved hfiles hfiles'
  gone := by
    rw [removedNames, removedNames, List.filter_map]
    exact congrArg _ hremoved
  apart := hother
  layouts _ _ := rfl
  holders _ _ := ⟨rfl, rfl⟩
  frozen := rfl
  listed := by
    rw [(run_listed ht hapart .incremental).1, (run_listed ht hapart' .incremental).1]
  backed listed hlisted n hn := by
    rw [(run_listed ht hapart .incremental).1] at hlisted
    refine mem_backedNames_batch ht hchanged hremoved hfiles hfiles' (fun k hk hne => ?_) hn
    obtain ⟨r, -, v, x, hv, hsteps, -⟩ := (mem_allLayoutFiles ht hlisted hne).1 hk
    exact ⟨_, v, x, hv, hsteps⟩

end

end ViewHolder
