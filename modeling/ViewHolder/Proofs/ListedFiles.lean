import Mathlib.Data.List.Flatten
import ViewHolder.Proofs.HiddenFiles

/-!
# Which files a listing shows, and in which order

The listing of resource roots finds files by looking into directories, while a watch judges a path
by its steps.  Both agree on the files that are layout files, except for files whose path ends in a
step to the directory above: they have no name, so that nothing but a listing shows them.

## Main definitions

* `Tree.HoldsLayout`, `Tree.HoldsUnnamed` : the files of the roots that a listing shows.
* `rootRank` : the number of the first root with given steps.
* `ListedBefore` : the order of a listing.

## Main results

* `contains_allLayoutFiles_iff` : the files that a listing shows.
* `pairwise_allLayoutFiles` : the order in which it shows them.
* `allLayoutFiles_listing` : both of them, and that no file is shown twice.
* `allLayoutFiles_unnamed` : a file without a name that is shown.
-/

namespace ViewHolder

/-! ### The files of a listing -/

namespace Tree

/-- The path is that of a file which a watch would take for a layout file, and the resource root to
which it belongs is one of the given ones. -/
structure HoldsLayout (t : Tree) (roots : List Path) (p : Path) : Prop where
  file : t.hasFile p.location = true
  candidate : LayoutFile.isCandidate p = true
  root : ∃ f, LayoutFile.ofPath? p = some f ∧ ∃ r ∈ roots, f.root.steps = r.steps

/-- The path is that of a file directly in a variant directory of a root, and ends in a step to the
directory above. -/
structure HoldsUnnamed (t : Tree) (roots : List Path) (p : Path) : Prop where
  file : t.hasFile p.location = true
  place : ∃ r ∈ roots, ∃ v, isVariantName v = true ∧ p.steps = r.steps ++ [.name v, .up]

end Tree

section

variable {t : Tree} (ht : t.Spelled) {roots : List Path} {files : PathSet}
  (hfiles : allLayoutFiles t roots = .ok files)
include ht hfiles

/-- What is listed is a layout file, or has no name. -/
theorem holds_of_listed {p : Path} (hp : files.contains p = true) :
    t.HoldsLayout roots p ∨ t.HoldsUnnamed roots p := by
  obtain ⟨r, hr, v, s, hv, hsteps, hfile, -, hshown⟩ :=
    (mem_places_allLayoutFiles ht hfiles).1 (PathSet.contains_iff_mem_places.1 hp)
  have hloc : p.location = r.location ++ [.name v, s] := by
    rw [Path.location, hsteps, ht.filter_place hfile]
  have hseg : s.IsSegment :=
    ht.isSegment (l := r.location ++ [.name v]) (by simp) (by simpa using hfile)
  rw [← hloc] at hfile
  cases s with
  | root => exact absurd rfl hseg.ne_root
  | here => exact absurd rfl hseg.ne_here
  | up => exact Or.inr ⟨hfile, r, hr, v, hv, hsteps⟩
  | name x =>
    obtain ⟨f, hf, -, hname, hroot⟩ := LayoutFile.exists_ofPath? hsteps hv
    refine Or.inl ⟨hfile, ?_, f, hf, r, hr, hroot⟩
    rw [LayoutFile.isCandidate_eq hf, hname, hshown x rfl]
    rfl

/-- A file at the place of a shown step in a variant directory of a root is listed, unless its place
is a directory as well. -/
theorem contains_of_steps {p r : Path} (hr : r ∈ roots) {v : String} {s : Step}
    (hv : isVariantName v = true) (hsteps : p.steps = r.steps ++ [.name v, s])
    (hs : s ≠ .here) (hshown : s.IsShown) (hfile : t.hasFile p.location = true)
    (hdir : t.hasDir p.location = false) : files.contains p = true := by
  have hloc : p.location = r.location ++ [.name v, s] :=
    Path.location_eq_of_steps hsteps (by simp [hs])
  exact PathSet.contains_iff_mem_places.2 ((mem_places_allLayoutFiles ht hfiles).2
    ⟨r, hr, v, s, hv, hsteps, hloc ▸ hfile, hloc ▸ hdir, hshown⟩)

theorem contains_of_holdsLayout {p : Path} (hp : t.HoldsLayout roots p)
    (hdir : t.hasDir p.location = false) : files.contains p = true := by
  obtain ⟨hfile, hcandidate, f, hf, r, hr, hroot⟩ := hp
  obtain ⟨hv, hsteps⟩ := LayoutFile.steps_of_ofPath? hf
  rw [LayoutFile.isCandidate_eq hf, Bool.not_eq_true'] at hcandidate
  rw [hroot] at hsteps
  have hshown : (Step.name f.fileName).IsShown := fun x hx => Step.name.inj hx ▸ hcandidate
  exact contains_of_steps ht hfiles hr hv hsteps nofun hshown hfile hdir

/-- **The files that a listing shows** are the layout files of the roots, and the files without a
name in their variant directories. -/
theorem contains_allLayoutFiles_iff (hproper : t.Proper) {p : Path} :
    files.contains p = true ↔ t.HoldsLayout roots p ∨ t.HoldsUnnamed roots p := by
  refine ⟨holds_of_listed ht hfiles, ?_⟩
  rintro (hlayout | ⟨hfile, r, hr, v, hv, hsteps⟩)
  · exact contains_of_holdsLayout ht hfiles hlayout (hproper _ hlayout.file)
  · exact contains_of_steps ht hfiles hr hv hsteps nofun nofun hfile (hproper _ hfile)

end

/-! ### The order of a listing -/

/-- The number of the first root with the given steps. -/
def rootRank (roots : List Path) (k : List Step) : Nat := (roots.map Path.steps).idxOf k

/-- The order of a listing: first by the roots, then by the names of the variant directories, then
by the names of the files.  Names are compared character by character, which is the order of their
bytes in UTF-8. -/
inductive ListedBefore (roots : List Path) : List Step → List Step → Prop
  | root {r r' : List Step} {v v' : String} {s s' : Step}
      (h : rootRank roots r < rootRank roots r') :
    ListedBefore roots (r ++ [.name v, s]) (r' ++ [.name v', s'])
  | variant {r : List Step} {v v' : String} {s s' : Step} (h : v < v') :
    ListedBefore roots (r ++ [.name v, s]) (r ++ [.name v', s'])
  | file {r : List Step} {v : String} {s s' : Step} (h : s.text < s'.text) :
    ListedBefore roots (r ++ [.name v, s]) (r ++ [.name v, s'])

/-- Dropping repetitions keeps the order. -/
theorem eraseDups_sublist {α : Type} [BEq α] [LawfulBEq α] (l : List α) :
    l.eraseDups.Sublist l := by
  classical
  induction l using List.reverseRecOn with
  | nil => exact .slnil
  | append_singleton l a ih =>
    rw [eraseDups_concat]
    split
    · exact ih.trans (List.sublist_append_left l [a])
    · exact ih.append_right [a]

/-- Lists put behind each other without repetitions are in order if each of them is, and if each
list has nothing new or stands behind all lists before. -/
theorem pairwise_eraseDups_flatMap {α β : Type} [BEq β] [LawfulBEq β] {R : β → β → Prop}
    {block : α → List β} {as : List α} (hblock : ∀ a ∈ as, (block a).Pairwise R)
    (hnext : ∀ front a, front ++ [a] <+: as → (∀ y ∈ block a, y ∈ front.flatMap block) ∨
      ∀ x ∈ front.flatMap block, ∀ y ∈ block a, R x y) :
    (as.flatMap block).eraseDups.Pairwise R := by
  induction as using List.reverseRecOn with
  | nil => exact List.Pairwise.nil
  | append_singleton front a ih =>
    have hfront : (front.flatMap block).eraseDups.Pairwise R :=
      ih (fun b hb => hblock b (List.mem_append_left _ hb)) fun front' b hpre =>
        hnext front' b (hpre.trans (List.prefix_append front [a]))
    have hback : ((block a).removeAll (front.flatMap block)).eraseDups.Sublist (block a) :=
      (eraseDups_sublist _).trans (List.filter_sublist)
    rw [List.flatMap_append, List.flatMap_singleton, List.eraseDups_append]
    refine List.pairwise_append.2 ⟨hfront,
      (hblock a (by simp)).sublist hback, fun x hx y hy => ?_⟩
    rcases hnext front a List.prefix_rfl with hold | hbehind
    · have hnew : y ∉ front.flatMap block := by
        have := (eraseDups_sublist _).subset hy
        simpa [List.removeAll] using (List.mem_filter.1 this).2
      exact absurd (hold y (hback.subset hy)) hnew
    · exact hbehind x (List.mem_eraseDups.1 hx) y (hback.subset hy)

/-- The places that a listing of one root shows. -/
def Tree.rootPlaces (t : Tree) (r : Path) : List (List Step) :=
  (t.variantNames r.location).flatMap fun v => (t.shownFiles (r.join ⟨v⟩)).map Path.steps

section

variable {t : Tree} (ht : t.Spelled)
include ht

theorem places_allLayoutFiles {roots : List Path} {files : PathSet}
    (hfiles : allLayoutFiles t roots = .ok files) :
    files.places = (roots.flatMap t.rootPlaces).eraseDups := by
  rw [allLayoutFiles_eq ht hfiles, PathSet.places_ofList]
  simp only [List.map_flatMap]
  rfl

/-- The steps of a variant directory. -/
theorem steps_variant {r : Path} {v : String} (hv : v ∈ t.variantNames r.location) :
    (r.join ⟨v⟩).steps = r.steps ++ [.name v] :=
  Path.steps_join_name ((Tree.mem_variantNames ht).1 hv).2.1 r

theorem location_variant_ne_nil {r : Path} {v : String} (hv : v ∈ t.variantNames r.location) :
    (r.join ⟨v⟩).location ≠ [] := by
  rw [Path.location_join_name ((Tree.mem_variantNames ht).1 hv).2.1]
  simp

/-- The files of a directory below the top are spelled as their names say. -/
theorem exists_text_of_child {dir : Path} (hdir : dir.location ≠ []) {c : String × Bool}
    (hc : c ∈ t.children dir.location) :
    ∃ s : Step, s.text = c.1 ∧ (dir.join ⟨c.1⟩).steps = dir.steps ++ [s] := by
  obtain ⟨s, hs, hseg | ⟨htop, -⟩⟩ := t.exists_step_of_mem_children ht hc
  · exact ⟨s, hs, by rw [← hs, Path.steps_join hseg]⟩
  · exact absurd htop hdir

theorem exists_steps_of_mem_rootPlaces {r : Path} {k : List Step} (hk : k ∈ t.rootPlaces r) :
    ∃ v s, k = r.steps ++ [.name v, s] := by
  obtain ⟨v, hv, hk⟩ := List.mem_flatMap.1 hk
  obtain ⟨s, rfl, -⟩ := (mem_shownFiles ht (location_variant_ne_nil ht hv)).1 hk
  exact ⟨v, s, by rw [steps_variant ht hv, List.append_assoc, List.singleton_append]⟩

/-- Roots with the same steps show the same places. -/
theorem rootPlaces_subset {r r' : Path} (h : r.steps = r'.steps) :
    t.rootPlaces r ⊆ t.rootPlaces r' := by
  intro k hk
  obtain ⟨v, hv, hk⟩ := List.mem_flatMap.1 hk
  have hv' : v ∈ t.variantNames r'.location := Path.location_eq_of_steps_eq h ▸ hv
  have hdir : (r.join ⟨v⟩).steps = (r'.join ⟨v⟩).steps := by
    rw [steps_variant ht hv, steps_variant ht hv', h]
  refine List.mem_flatMap.2 ⟨v, hv', ?_⟩
  rw [mem_shownFiles ht (location_variant_ne_nil ht hv)] at hk
  rw [mem_shownFiles ht (location_variant_ne_nil ht hv')]
  rwa [← hdir, ← Path.location_eq_of_steps_eq hdir]

/-- The places of one root are in order. -/
theorem pairwise_rootPlaces (roots : List Path) (r : Path) :
    (t.rootPlaces r).Pairwise (ListedBefore roots) := by
  refine List.pairwise_flatMap.2 ⟨fun v hv => ?_, ?_⟩
  · have hsteps := steps_variant ht hv
    rw [Tree.shownFiles, List.map_map, List.pairwise_map]
    refine ((t.children_ascending _).filter _).imp_of_mem fun hc hc' hlt => ?_
    obtain ⟨s, hs, hjoin⟩ :=
      exists_text_of_child ht (location_variant_ne_nil ht hv) (List.mem_filter.1 hc).1
    obtain ⟨s', hs', hjoin'⟩ :=
      exists_text_of_child ht (location_variant_ne_nil ht hv) (List.mem_filter.1 hc').1
    rw [Function.comp_apply, Function.comp_apply, hjoin, hjoin', hsteps, List.append_assoc,
      List.append_assoc]
    exact .file (by rwa [hs, hs'])
  · refine (t.variantNames_ascending _).imp_of_mem fun hv hv' hlt k hk k' hk' => ?_
    obtain ⟨s, rfl, -⟩ := (mem_shownFiles ht (location_variant_ne_nil ht hv)).1 hk
    obtain ⟨s', rfl, -⟩ := (mem_shownFiles ht (location_variant_ne_nil ht hv')).1 hk'
    rw [steps_variant ht hv, steps_variant ht hv', List.append_assoc, List.append_assoc]
    exact .variant hlt

omit ht in
/-- A root that is new comes behind all roots before. -/
theorem rootRank_lt {front : List Path} {r r' : Path} {roots : List Path}
    (hpre : front ++ [r'] <+: roots) (hr : r ∈ front) (hnew : r'.steps ∉ front.map Path.steps) :
    rootRank roots r.steps < rootRank roots r'.steps := by
  obtain ⟨back, rfl⟩ := hpre
  have hmem : r.steps ∈ front.map Path.steps := List.mem_map_of_mem hr
  rw [rootRank, rootRank, List.append_assoc, List.map_append, List.idxOf_append_of_mem hmem,
    List.idxOf_append, if_neg hnew]
  exact Nat.lt_add_left _ (List.idxOf_lt_length_iff.2 hmem)

/-- **The order in which a listing shows files**: by the first root with their steps, then by
variant directory, then by name. -/
theorem pairwise_allLayoutFiles {roots : List Path} {files : PathSet}
    (hfiles : allLayoutFiles t roots = .ok files) :
    files.places.Pairwise (ListedBefore roots) := by
  rw [places_allLayoutFiles ht hfiles]
  refine pairwise_eraseDups_flatMap (fun r _ => pairwise_rootPlaces ht roots r)
    fun front r hpre => ?_
  by_cases hold : r.steps ∈ front.map Path.steps
  · obtain ⟨r', hr', hsame⟩ := List.mem_map.1 hold
    exact Or.inl fun k hk => List.mem_flatMap.2 ⟨r', hr', rootPlaces_subset ht hsame.symm hk⟩
  · refine Or.inr fun k hk k' hk' => ?_
    obtain ⟨r', hr', hk⟩ := List.mem_flatMap.1 hk
    obtain ⟨v, s, rfl⟩ := exists_steps_of_mem_rootPlaces ht hk
    obtain ⟨v', s', rfl⟩ := exists_steps_of_mem_rootPlaces ht hk'
    exact .root (rootRank_lt hpre hr' hold)

end

/-- **The listing of resource roots.**  It shows the files that a watch would take for layout files
of these roots, and besides them only files without a name.  No file is shown twice, and the order
is that of the roots, of the variant directories and of the names. -/
theorem allLayoutFiles_listing {t : Tree} (ht : t.Spelled) (hproper : t.Proper) {roots : List Path}
    {files : PathSet} (hfiles : allLayoutFiles t roots = .ok files) :
    (∀ p, files.contains p = true ↔ t.HoldsLayout roots p ∨ t.HoldsUnnamed roots p) ∧
      files.places.Nodup ∧ files.places.Pairwise (ListedBefore roots) :=
  ⟨fun _ => contains_allLayoutFiles_iff ht hfiles hproper, files.places_nodup,
    pairwise_allLayoutFiles ht hfiles⟩

/-- Two resource roots, the first of them with a hidden file. -/
def rootsWithHidden : Tree :=
  .ofFiles [(⟨"lib/layout/a.xml"⟩, sampleText "a"), (⟨"app/layout-land/a.xml"⟩, sampleText "a"),
    (⟨"app/layout/b.xml"⟩, sampleText "b"), (⟨"app/layout/.b.xml"⟩, sampleText "b")]

theorem allLayoutFiles_listing_rootsWithHidden : ∃ files,
    allLayoutFiles rootsWithHidden [⟨"lib"⟩, ⟨"app"⟩, ⟨"lib"⟩] = .ok files ∧
      files.contains ⟨"app/layout/b.xml"⟩ = true ∧ ¬ files.contains ⟨"app/layout/.b.xml"⟩ = true ∧
      files.places.Nodup ∧ files.places.Pairwise (ListedBefore [⟨"lib"⟩, ⟨"app"⟩, ⟨"lib"⟩]) := by
  obtain ⟨files, hfiles⟩ := exists_eq_ok (by decide +kernel :
    (allLayoutFiles rootsWithHidden [⟨"lib"⟩, ⟨"app"⟩, ⟨"lib"⟩]).isOk = true)
  obtain ⟨hmem, hdistinct, horder⟩ :=
    allLayoutFiles_listing (Tree.spelled_ofFiles _) (by decide +kernel) hfiles
  refine ⟨files, hfiles, (hmem _).2 (Or.inl ?_), fun h => ?_, hdistinct, horder⟩
  · obtain ⟨f, hf⟩ := Option.isSome_iff_exists.1
      (by decide +kernel : (LayoutFile.ofPath? ⟨"app/layout/b.xml"⟩).isSome = true)
    have hroot : (LayoutFile.ofPath? ⟨"app/layout/b.xml"⟩).map (·.root.steps) =
        some (Path.steps ⟨"app"⟩) := by decide +kernel
    rw [hf] at hroot
    exact ⟨by decide +kernel, by decide +kernel, f, hf, ⟨"app"⟩, by simp, Option.some.inj hroot⟩
  · rcases (hmem _).1 h with hlayout | hunnamed
    · exact absurd hlayout.candidate (by decide +kernel)
    · obtain ⟨r, -, v, -, hsteps⟩ := hunnamed.place
      have hlast : (Path.steps ⟨"app/layout/.b.xml"⟩).getLast? = some (.name ".b.xml") := by
        decide +kernel
      rw [hsteps] at hlast
      simp at hlast

/-- A listing shows a file whose path ends in a step to the directory above, though a watch would
not take it for a layout file. -/
theorem allLayoutFiles_unnamed :
    (unnamedFile.Spelled ∧ unnamedFile.Proper ∧
      unnamedFile.hasFile (Path.location ⟨"res/layout/.."⟩) = true) ∧
    (allLayoutFiles unnamedFile [⟨"res"⟩]).toOption.map PathSet.toList =
      some [⟨"res/layout/.."⟩] ∧
    LayoutFile.isCandidate ⟨"res/layout/.."⟩ = false ∧
    ¬ unnamedFile.HoldsLayout [⟨"res"⟩] ⟨"res/layout/.."⟩ := by
  refine ⟨⟨Tree.spelled_ofFiles _, by decide +kernel⟩, by decide +kernel, by decide +kernel,
    fun h => absurd h.candidate (by decide +kernel)⟩

end ViewHolder
