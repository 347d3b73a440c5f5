import ViewHolder.Proofs.SpelledReports

/-!
# Spellings of affected files

The set of affected files is told apart by steps, and two paths with different steps can lead to one
location, if one of them starts with a step to the current directory and the other does not.  The
variants of a touched file are spelled as the file itself.  So the set names an existing file twice
if variants of it were reported in both ways, and it still names a file that disappeared if the file
was reported in the other way.  Nothing else goes wrong: a file has at most two members, and only
one where the reports agree.

## Main definitions

* `LayoutFile.IsVariantOf` : layout files of one name in one resource root, in any spelling.
* `SpelledAlike` : touched variants agree on starting with a step to the current directory.

## Main results

* `exists_touched_spelling` : an affected file starts as some touched variant of it does.
* `exists_affected_spelling` : an existing variant is affected in the spelling of a touched file.
* `affectedFiles_spellings` : which files the set names twice.
* `affectedFiles_names_twice` : a set with two spellings of one file.
-/

namespace ViewHolder

/-! ### Variants in any spelling -/

namespace LayoutFile

/-- Two layout files have one name in one resource root, in whatever spelling. -/
def IsVariantOf (e f : LayoutFile) : Prop :=
  e.fileName = f.fileName ∧ e.root.location = f.root.location

instance (e f : LayoutFile) : Decidable (e.IsVariantOf f) :=
  inferInstanceAs (Decidable (_ ∧ _))

theorem IsVariantOf.symm {e f : LayoutFile} (h : e.IsVariantOf f) : f.IsVariantOf e :=
  ⟨h.1.symm, h.2.symm⟩

theorem IsVariantOf.trans {e f g : LayoutFile} (h : e.IsVariantOf f) (h' : f.IsVariantOf g) :
    e.IsVariantOf g :=
  ⟨h.1.trans h'.1, h.2.trans h'.2⟩

/-- Paths to one location are layout files of one name in one root. -/
theorem exists_ofPath?_of_location {p q : Path} {f : LayoutFile} (h : p.location = q.location)
    (hf : ofPath? p = some f) : ∃ g, ofPath? q = some g ∧ g.IsVariantOf f := by
  have hloc := h ▸ location_of_ofPath? hf
  obtain ⟨k, hk⟩ := Path.exists_steps_of_location hloc
  obtain ⟨g, hg, hvariant, hname, -⟩ := exists_ofPath? hk (steps_of_ofPath? hf).1
  have hlast := location_of_ofPath? hg
  rw [hvariant, hname, hloc] at hlast
  exact ⟨g, hg, hname, (List.append_cancel_right hlast).symm⟩

/-- A layout file starts as its resource root does. -/
theorem startsHere_root {p : Path} {f : LayoutFile} (h : ofPath? p = some f) :
    f.root.StartsHere ↔ f.path.StartsHere := by
  rw [path_of_ofPath? h]
  exact (Path.startsHere_of_steps (steps_of_ofPath? h).2).symm

end LayoutFile

/-- The touched variants of a layout agree on starting with a step to the current directory. -/
def SpelledAlike (changed removed : List Path) : Prop :=
  ∀ e ∈ touchedFiles changed removed, ∀ f ∈ touchedFiles changed removed, e.IsVariantOf f →
    (e.path.StartsHere ↔ f.path.StartsHere)

instance (changed removed : List Path) : Decidable (SpelledAlike changed removed) :=
  inferInstanceAs (Decidable (∀ e ∈ _, ∀ f ∈ _, _ → _))

/-! ### Members of the set -/

/-- Two members of a set at one location start in different ways. -/
theorem PathSet.pairwise_startsHere (s : PathSet) : s.toList.Pairwise fun p q =>
    p.location = q.location → ¬ (p.StartsHere ↔ q.StartsHere) :=
  s.distinct.imp fun hne hloc hstart => hne (Path.steps_eq_of_location hloc hstart)

section

variable {t : Tree} {changed removed : List Path} {files : PathSet}
  (h : affectedFiles t changed removed = .ok files)
include h

/-- An affected file starts as some touched variant of it does. -/
theorem exists_touched_spelling {p : Path} (hp : p ∈ files.toList) :
    ∃ f, LayoutFile.ofPath? p = some f ∧ ∃ e ∈ touchedFiles changed removed, e.IsVariantOf f ∧
      (e.path.StartsHere ↔ p.StartsHere) := by
  obtain ⟨f, hf, e, he, hname, hroot⟩ :=
    touchesName_of_affected h (PathSet.contains_iff.2 ⟨p, hp, rfl⟩)
  obtain ⟨q, -, hq⟩ := List.mem_filterMap.1 he
  refine ⟨f, hf, e, he, ⟨hname, Path.location_eq_of_steps_eq hroot⟩, ?_⟩
  rw [← LayoutFile.startsHere_root hq, Path.startsHere_of_steps (LayoutFile.steps_of_ofPath? hf).2,
    Path.StartsHere, Path.StartsHere, hroot]

/-- An existing variant of a touched file is affected in the spelling of that file, unless it is
reported as removed in some spelling. -/
theorem exists_affected_spelling {p : Path} {f : LayoutFile} (hf : LayoutFile.ofPath? p = some f)
    (hfile : t.hasFile p.location = true) (hstays : p.location ∉ removed.map Path.location)
    {e : LayoutFile} (he : e ∈ touchedFiles changed removed) (hvariant : e.IsVariantOf f) :
    ∃ q ∈ files.toList, q.location = p.location ∧ (q.StartsHere ↔ e.path.StartsHere) := by
  obtain ⟨r, -, her⟩ := List.mem_filterMap.1 he
  obtain ⟨hv, hsteps⟩ := LayoutFile.steps_of_ofPath? hf
  have hentry : IsEntryName f.variant := Path.isEntryName_of_mem_steps (p := p) (by simp [hsteps])
  have hspelled := LayoutFile.steps_inVariant her hentry
  obtain ⟨g, hg, -, hname, hroot⟩ := LayoutFile.exists_ofPath? hspelled hv
  have hloc : (e.inVariant f.variant).location = p.location := by
    rw [Path.location_eq_of_steps hspelled (by simp), LayoutFile.location_of_ofPath? hf,
      hvariant.1, hvariant.2]
  have hmem : files.contains (e.inVariant f.variant) = true := by
    refine affected_of_touchesName h hg (hloc ▸ hfile) (fun hgone => hstays ?_)
      ⟨e, he, hname.symm, hroot.symm⟩
    obtain ⟨r', hr', hsame⟩ := List.mem_map.1 hgone
    exact List.mem_map.2 ⟨r', hr', (Path.location_eq_of_steps_eq hsame).trans hloc⟩
  obtain ⟨q, hq, hsame⟩ := PathSet.contains_iff.1 hmem
  refine ⟨q, hq, (Path.location_eq_of_steps_eq hsame).symm.trans hloc, ?_⟩
  rw [Path.startsHere_of_steps (hsame ▸ hspelled), LayoutFile.startsHere_root her]

/-- An affected file and a removed one at its location start in different ways. -/
theorem affected_spelling_of_removed {p r : Path} (hp : p ∈ files.toList) (hr : r ∈ removed)
    (hloc : p.location = r.location) : ¬ (p.StartsHere ↔ r.StartsHere) := by
  intro hstart
  refine ((contains_affectedFiles_iff h p).1 (PathSet.contains_iff.2 ⟨p, hp, rfl⟩)).1 ?_
  exact List.mem_map.2 ⟨r, hr, (Path.steps_eq_of_location hloc hstart).symm⟩

/-- Where the reports agree, affected files at one location start in the same way. -/
theorem affected_startsHere_iff (halike : SpelledAlike changed removed) {p q : Path}
    (hp : p ∈ files.toList) (hq : q ∈ files.toList) (hloc : p.location = q.location) :
    p.StartsHere ↔ q.StartsHere := by
  obtain ⟨f, hf, e, he, hef, hep⟩ := exists_touched_spelling h hp
  obtain ⟨g, hg, d, hd, hdg, hdq⟩ := exists_touched_spelling h hq
  obtain ⟨g', hg', hfg⟩ := LayoutFile.exists_ofPath?_of_location hloc hf
  obtain rfl : g = g' := Option.some.inj (hg.symm.trans hg')
  rw [← hep, ← hdq]
  exact halike e he d hd ((hef.trans hfg.symm).trans hdg.symm)

/-- Where the reports agree, an affected file starts as a removed one at its location. -/
theorem affected_startsHere_iff_removed (halike : SpelledAlike changed removed) {p r : Path}
    (hp : p ∈ files.toList) (hr : r ∈ removed) (hloc : p.location = r.location) :
    p.StartsHere ↔ r.StartsHere := by
  obtain ⟨f, hf, e, he, hef, hep⟩ := exists_touched_spelling h hp
  obtain ⟨g, hg, hgf⟩ := LayoutFile.exists_ofPath?_of_location hloc hf
  have htouched : g ∈ touchedFiles changed removed :=
    List.mem_filterMap.2 ⟨r, List.mem_append_right _ hr, hg⟩
  rw [← hep, halike e he g htouched (hef.trans hgf.symm), LayoutFile.path_of_ofPath? hg]

end

/-- **Which files the set of affected files names twice.**  Two members at one location differ in
that just one of them starts with a step to the current directory, and so do a member and a removed
file at its location.  If the touched variants of every layout agree on that, no file is named
twice and no removed file is named.  But if two of them do not, every existing variant of them is
named in both spellings, unless it is reported as removed in one. -/
theorem affectedFiles_spellings {t : Tree} {changed removed : List Path} {files : PathSet}
    (h : affectedFiles t changed removed = .ok files) :
    (files.toList.Pairwise fun p q =>
      p.location = q.location → ¬ (p.StartsHere ↔ q.StartsHere)) ∧
    (∀ p ∈ files.toList, ∀ r ∈ removed,
      p.location = r.location → ¬ (p.StartsHere ↔ r.StartsHere)) ∧
    (SpelledAlike changed removed → (files.toList.map Path.location).Nodup ∧
      ∀ p ∈ files.toList, p.location ∉ removed.map Path.location) ∧
    ∀ e ∈ touchedFiles changed removed, ∀ e' ∈ touchedFiles changed removed, e.IsVariantOf e' →
      ¬ (e.path.StartsHere ↔ e'.path.StartsHere) →
      ∀ p f, LayoutFile.ofPath? p = some f → e.IsVariantOf f → t.hasFile p.location = true →
        p.location ∉ removed.map Path.location →
        ∃ q ∈ files.toList, ∃ q' ∈ files.toList, q.location = p.location ∧
          q'.location = p.location ∧ ¬ (q.StartsHere ↔ q'.StartsHere) := by
  refine ⟨files.pairwise_startsHere, fun p hp r hr => affected_spelling_of_removed h hp hr,
    fun halike => ⟨?_, fun p hp hgone => ?_⟩, ?_⟩
  · refine List.pairwise_map.2 (files.pairwise_startsHere.imp_of_mem ?_)
    exact fun hp hq hne hloc => hne hloc (affected_startsHere_iff h halike hp hq hloc)
  · obtain ⟨r, hr, hloc⟩ := List.mem_map.1 hgone
    exact affected_spelling_of_removed h hp hr hloc.symm
      (affected_startsHere_iff_removed h halike hp hr hloc.symm)
  · intro e he e' he' hee' hne p f hf hef hfile hstays
    obtain ⟨q, hq, hqloc, hqstart⟩ := exists_affected_spelling h hf hfile hstays he hef
    obtain ⟨q', hq', hqloc', hqstart'⟩ :=
      exists_affected_spelling h hf hfile hstays he' (hee'.symm.trans hef)
    exact ⟨q, hq, q', hq', hqloc, hqloc', by rwa [hqstart, hqstart']⟩

theorem affectedFiles_spellings_twoVariants :
    (∃ files, affectedFiles twoVariants [⟨"res/layout/main.xml"⟩] [⟨"res/layout-land/main.xml"⟩] =
        .ok files ∧ (files.toList.map Path.location).Nodup ∧
      ∀ p ∈ files.toList, p.location ≠ Path.location ⟨"res/layout-land/main.xml"⟩) ∧
    ∃ files, affectedFiles twoVariants [⟨"res/layout/main.xml"⟩] [⟨"./res/layout-v21/main.xml"⟩] =
        .ok files ∧ ∃ q ∈ files.toList, ∃ q' ∈ files.toList,
      q.location = Path.location ⟨"res/layout-land/main.xml"⟩ ∧
      q'.location = Path.location ⟨"res/layout-land/main.xml"⟩ ∧
      ¬ (q.StartsHere ↔ q'.StartsHere) := by
  constructor
  · obtain ⟨files, hfiles⟩ := exists_affectedFiles_iff.2 (by decide +kernel : ∀ f ∈
      touchedFiles [⟨"res/layout/main.xml"⟩] [⟨"res/layout-land/main.xml"⟩],
        ¬ twoVariants.RefusesListing f)
    obtain ⟨-, -, halike, -⟩ := affectedFiles_spellings hfiles
    obtain ⟨hnodup, hgone⟩ := halike (by decide +kernel)
    exact ⟨files, hfiles, hnodup, fun p hp => by simpa using hgone p hp⟩
  · obtain ⟨files, hfiles⟩ := exists_affectedFiles_iff.2 (by decide +kernel : ∀ f ∈
      touchedFiles [⟨"res/layout/main.xml"⟩] [⟨"./res/layout-v21/main.xml"⟩],
        ¬ twoVariants.RefusesListing f)
    obtain ⟨-, -, -, htwice⟩ := affectedFiles_spellings hfiles
    exact ⟨files, hfiles, htwice ⟨⟨"res/layout/main.xml"⟩, "main.xml", "layout", ⟨"res"⟩⟩
      (by decide +kernel) ⟨⟨"./res/layout-v21/main.xml"⟩, "main.xml", "layout-v21", ⟨"./res"⟩⟩
      (by decide +kernel) (by decide +kernel) (by decide +kernel)
      ⟨"res/layout-land/main.xml"⟩
      ⟨⟨"res/layout-land/main.xml"⟩, "main.xml", "layout-land", ⟨"res"⟩⟩
      (by decide +kernel) (by decide +kernel) (by decide +kernel) (by decide +kernel)⟩

/-- A file that is reported as changed in two spellings is affected twice, and so are its variants.
A file that is reported as changed in one spelling and as removed in another is still affected. -/
theorem affectedFiles_names_twice :
    Path.location ⟨"./res/layout/main.xml"⟩ = Path.location ⟨"res/layout/main.xml"⟩ ∧
    (affectedFiles twoVariants [⟨"res/layout/main.xml"⟩, ⟨"./res/layout/main.xml"⟩]
        []).toOption.map PathSet.toList =
      some [⟨"res/layout/main.xml"⟩, ⟨"./res/layout/main.xml"⟩, ⟨"res/layout-land/main.xml"⟩,
        ⟨"./res/layout-land/main.xml"⟩] ∧
    (affectedFiles twoVariants [⟨"res/layout/main.xml"⟩]
        [⟨"./res/layout/main.xml"⟩]).toOption.map PathSet.toList =
      some [⟨"res/layout/main.xml"⟩, ⟨"res/layout-land/main.xml"⟩,
        ⟨"./res/layout-land/main.xml"⟩] := by
  decide +kernel

end ViewHolder
