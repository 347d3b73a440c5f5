import ViewHolder.Proofs.Listing

/-!
# The set of affected files

The files to read again are determined by the places that changed and disappeared: they are the
layout files that changed and the existing variants of all touched layout files, less those that
disappeared.  Neither the order in which the files are reported nor how often matters, and the set
is closed under variants, but for the files that disappeared.  Looking for the files fails only
where the resource root of a touched layout file is there and cannot be listed.

## Main definitions

* `touchedFiles` : the layout files among the reported paths.
* `Tree.RefusesListing` : the resource root of a layout file is there and cannot be listed.
* `Tree.IsSibling` : an existing file that a listing shows as another variant of a layout file.
* `SamePlaces` : paths that lead to the same places, in any order and number.
* `TouchesName` : a touched file has a given name in a given resource root.

## Main results

* `Tree.isSibling_iff` : the siblings are the existing files of the name in other variant
  directories.
* `contains_affectedFiles_iff` : the members of the set.
* `affectedFiles_exact` : when there is a set, its members, its closure, and what it depends on.
-/

namespace ViewHolder

/-- The layout files among the paths that changed or disappeared. -/
def touchedFiles (changed removed : List Path) : List LayoutFile :=
  (changed ++ removed).filterMap LayoutFile.ofPath?

/-- Paths that lead to the same places, in any order and number. -/
def SamePlaces (ps qs : List Path) : Prop :=
  ∀ k, k ∈ ps.map Path.steps ↔ k ∈ qs.map Path.steps

theorem SamePlaces.append {ps ps' qs qs' : List Path} (hp : SamePlaces ps ps')
    (hq : SamePlaces qs qs') : SamePlaces (ps ++ qs) (ps' ++ qs') := by
  intro k
  rw [List.map_append, List.map_append, List.mem_append, List.mem_append, hp k, hq k]

/-- What a path is as a layout file depends on its place. -/
theorem LayoutFile.exists_ofPath?_of_steps {p q : Path} {f : LayoutFile} (h : p.steps = q.steps)
    (hf : ofPath? p = some f) : ∃ g, ofPath? q = some g ∧ g.variant = f.variant ∧
      g.fileName = f.fileName ∧ g.root.steps = f.root.steps := by
  obtain ⟨hv, hsteps⟩ := steps_of_ofPath? hf
  exact exists_ofPath? (h ▸ hsteps) hv

/-! ### Siblings -/

/-- The resource root of a layout file is there and cannot be listed. -/
def Tree.RefusesListing (t : Tree) (f : LayoutFile) : Prop :=
  ∃ e, t.list f.listingRoot = .error e ∧ e.isNotFound = false

/-- The file at a path exists, and it is what a layout file would be in another variant directory
that a listing of its resource root shows. -/
def Tree.IsSibling (t : Tree) (f : LayoutFile) (p : Path) : Prop :=
  t.hasFile p.location = true ∧ ∃ entries, t.list f.listingRoot = .ok entries ∧ ∃ e ∈ entries,
    e.isDir = true ∧ f.isSiblingVariant e.name = true ∧ p.steps = (f.inVariant e.name).steps

theorem Tree.refusesListing_iff {t : Tree} {f : LayoutFile} :
    t.RefusesListing f ↔ t.isListable f.root.location = false := by
  rw [RefusesListing, Tree.list, f.location_listingRoot, isListable]
  by_cases hdeny : t.unlistable.contains f.root.location = true
  · rw [if_pos hdeny, hdeny]
    exact iff_of_true ⟨_, rfl, rfl⟩ rfl
  rw [if_neg hdeny, Bool.eq_false_iff.2 hdeny]
  by_cases hfile : t.hasFile f.root.location = true
  · rw [if_pos hfile, hfile]
    exact iff_of_true ⟨_, rfl, rfl⟩ rfl
  rw [if_neg hfile, Bool.eq_false_iff.2 hfile]
  refine iff_of_false ?_ (by decide)
  rintro ⟨e, he, hkind⟩
  split at he
  · cases he
    cases hkind
  · cases he

instance (t : Tree) (f : LayoutFile) : Decidable (t.RefusesListing f) :=
  decidable_of_iff _ Tree.refusesListing_iff.symm

/-- Looking for siblings fails exactly where the listing is refused. -/
theorem exists_siblingVariants_iff {t : Tree} {f : LayoutFile} :
    (∃ ps, siblingVariants t f = .ok ps) ↔ ¬ t.RefusesListing f := by
  have hlist : (∃ es, listMembers t f.listingRoot
      (fun e => e.isDir && f.isSiblingVariant e.name) = .ok es) ↔ ¬ t.RefusesListing f := by
    rw [exists_listMembers_iff, f.location_listingRoot, Tree.refusesListing_iff,
      Bool.not_eq_false]
  rw [← hlist, siblingVariants]
  cases listMembers t f.listingRoot fun e => e.isDir && f.isSiblingVariant e.name <;> simp

/-- The variants that were found are the siblings. -/
theorem mem_siblingVariants {t : Tree} {f : LayoutFile} {ps : List Path}
    (h : siblingVariants t f = .ok ps) (p : Path) :
    p.steps ∈ ps.map Path.steps ↔ t.IsSibling f p := by
  have hlist : Store.list t f.listingRoot = t.list f.listingRoot := rfl
  rw [siblingVariants, listMembers, Store.listIfPresent, hlist] at h
  rw [Tree.IsSibling]
  cases hentries : t.list f.listingRoot with
  | error e =>
    cases hkind : e.isNotFound with
    | true =>
      simp only [hentries, hkind, if_true, List.map_nil, List.filter_nil, Except.ok.injEq] at h
      simp [← h]
    | false => simp [hentries, hkind] at h
  | ok entries =>
    rw [hentries] at h
    rw [← Except.ok.inj h]
    have hfile {q : Path} (hq : p.steps = q.steps) : Store.isFile t q = t.hasFile p.location :=
      congrArg t.hasFile (Path.location_eq_of_steps_eq hq.symm)
    simp only [List.mem_map, List.mem_filter, Bool.and_eq_true, Except.ok.injEq, exists_eq_left']
    constructor
    · rintro ⟨q, ⟨⟨e, ⟨he, hdir, hv⟩, rfl⟩, hq⟩, hsteps⟩
      exact ⟨hfile hsteps.symm ▸ hq, e, he, hdir, hv, hsteps.symm⟩
    · rintro ⟨hthere, e, he, hdir, hv, hsteps⟩
      exact ⟨_, ⟨⟨e, ⟨he, hdir, hv⟩, rfl⟩, (hfile hsteps).trans hthere⟩, hsteps.symm⟩

/-- The name of an entry is a name between separators unless it is empty. -/
theorem Entry.isEntryName_name {e : Entry} (h : e.name ≠ "") : IsEntryName e.name := by
  unfold name at h ⊢
  cases hname : e.path.fileName? with
  | none =>
    rw [hname] at h
    exact absurd rfl h
  | some x =>
    obtain ⟨l, hl⟩ := Path.fileName?_eq_some.1 hname
    exact Path.isEntryName_of_mem_steps (p := e.path) (by simp [hl])

section

variable {t : Tree} {p : Path} {f : LayoutFile} (hf : LayoutFile.ofPath? p = some f)
include hf

/-- **The siblings of a layout file** are the existing files of its name in the other variant
directories of its resource root. -/
theorem Tree.isSibling_iff (hlist : ¬ t.RefusesListing f) {q : Path} : t.IsSibling f q ↔
    t.hasFile q.location = true ∧ ∃ v, isVariantName v = true ∧ v ≠ f.variant ∧
      q.steps = f.root.steps ++ [.name v, .name f.fileName] := by
  refine and_congr_right fun hfile => ?_
  constructor
  · rintro ⟨entries, -, e, -, -, hv, hsteps⟩
    obtain ⟨hv, hother⟩ := Bool.and_eq_true_iff.1 hv
    have hname : IsEntryName e.name := Entry.isEntryName_name fun hempty => by
      rw [hempty] at hv
      exact absurd hv (by decide +kernel)
    exact ⟨e.name, hv, by simpa using hother, hsteps.trans (LayoutFile.steps_inVariant hf hname)⟩
  · rintro ⟨v, hv, hother, hsteps⟩
    have hname : IsEntryName v := Path.isEntryName_of_mem_steps (p := q) (by simp [hsteps])
    have hloc : q.location = f.root.location ++ [.name v, .name f.fileName] :=
      Path.location_eq_of_steps hsteps (by simp)
    rw [hloc] at hfile
    -- The file itself puts its directory into the listing.
    have hchild : (v, true) ∈ t.children f.root.location :=
      mem_children_true.2 (mem_members.2 ⟨.name v, [.name f.fileName], rfl, Or.inl ⟨hfile, rfl⟩⟩)
    have hdir : t.hasDir f.root.location = true := hasDir_of_hasFile hfile (List.cons_ne_nil _ _)
    rw [refusesListing_iff, Bool.not_eq_false, isListable, Bool.and_eq_true, Bool.not_eq_true',
      Bool.not_eq_true'] at hlist
    have hentries : t.list f.listingRoot =
        .ok ((t.children f.root.location).map (Entry.below f.listingRoot)) := by
      rw [Tree.list, f.location_listingRoot]
      simp only [hlist.1, hlist.2, hdir, Bool.not_true, Bool.false_eq_true, if_false]
      rfl
    have hentry : (Entry.below f.listingRoot (v, true)).name = v := by
      rw [Entry.name, Entry.below, Path.fileName?_eq_some.2 ⟨_, Path.steps_join_name hname _⟩]
      rfl
    refine ⟨_, hentries, _, List.mem_map_of_mem hchild, rfl, ?_, ?_⟩
    · rw [hentry, LayoutFile.isSiblingVariant, hv, bne_iff_ne.2 hother]
      rfl
    · rw [hentry, LayoutFile.steps_inVariant hf hname, hsteps]

end

/-! ### Affected files -/

/-- What a traversal collects is what its steps yield. -/
theorem mem_gather {ε α β : Type} {step : α → Except ε (List β)} {as : List α} {bs : List β}
    (h : gather step as = .ok bs) {b : β} :
    b ∈ bs ↔ ∃ a ∈ as, ∃ cs, step a = .ok cs ∧ b ∈ cs := by
  have hsteps := exists_gather_iff.1 ⟨bs, h⟩
  rw [gather_eq_flatMap (g := fun a => (step a).toOption.getD []) (fun a _ cs ha => by
    rw [ha]; rfl) h, List.mem_flatMap]
  refine exists_congr fun a => and_congr_right fun ha => ?_
  obtain ⟨cs, hcs⟩ := hsteps a ha
  simp [hcs, Except.toOption]

variable {t : Tree} {changed removed : List Path}

/-- Looking for the affected files succeeds unless some listing is refused. -/
theorem exists_affectedFiles_iff : (∃ files, affectedFiles t changed removed = .ok files) ↔
    ∀ f ∈ touchedFiles changed removed, ¬ t.RefusesListing f := by
  simp only [← exists_siblingVariants_iff, ← exists_gather_iff, affectedFiles, touchedFiles]
  cases gather (siblingVariants t) ((changed ++ removed).filterMap LayoutFile.ofPath?) <;> simp

/-- A path is a layout file that changed if it leads to the place of one. -/
private theorem mem_changed_iff (p : Path) :
    p.steps ∈ (changed.filter fun q => (LayoutFile.ofPath? q).isSome).map Path.steps ↔
      p.steps ∈ changed.map Path.steps ∧ (LayoutFile.ofPath? p).isSome = true := by
  have hsame {p q : Path} (h : p.steps = q.steps) (hp : (LayoutFile.ofPath? p).isSome = true) :
      (LayoutFile.ofPath? q).isSome = true := by
    obtain ⟨f, hf⟩ := Option.isSome_iff_exists.1 hp
    obtain ⟨g, hg, -⟩ := LayoutFile.exists_ofPath?_of_steps h hf
    exact Option.isSome_iff_exists.2 ⟨g, hg⟩
  simp only [List.mem_map, List.mem_filter]
  constructor
  · rintro ⟨q, ⟨hq, hlayout⟩, hsteps⟩
    exact ⟨⟨q, hq, hsteps⟩, hsame hsteps hlayout⟩
  · rintro ⟨⟨q, hq, hsteps⟩, hlayout⟩
    exact ⟨q, ⟨hq, hsame hsteps.symm hlayout⟩, hsteps⟩

/-- **The affected files** are the layout files that changed and the siblings of all touched layout
files, less the files that disappeared. -/
theorem contains_affectedFiles_iff {files : PathSet}
    (h : affectedFiles t changed removed = .ok files) (p : Path) :
    files.contains p = true ↔ p.steps ∉ removed.map Path.steps ∧
      ((p.steps ∈ changed.map Path.steps ∧ (LayoutFile.ofPath? p).isSome = true) ∨
        ∃ f ∈ touchedFiles changed removed, t.IsSibling f p) := by
  unfold affectedFiles at h
  dsimp only at h
  split at h
  · rename_i siblings hsiblings
    have hmem : p.steps ∈ siblings.map Path.steps ↔
        ∃ f ∈ touchedFiles changed removed, t.IsSibling f p := by
      have hsteps := exists_gather_iff.1 ⟨siblings, hsiblings⟩
      simp only [List.mem_map, mem_gather hsiblings]
      constructor
      · rintro ⟨q, ⟨f, hf, ps, hps, hq⟩, hsame⟩
        exact ⟨f, hf, (mem_siblingVariants hps p).1 (List.mem_map.2 ⟨q, hq, hsame⟩)⟩
      · rintro ⟨f, hf, hsibling⟩
        obtain ⟨ps, hps⟩ := hsteps f hf
        obtain ⟨q, hq, hsame⟩ := List.mem_map.1 ((mem_siblingVariants hps p).2 hsibling)
        exact ⟨q, ⟨f, hf, ps, hps, hq⟩, hsame⟩
    rw [← Except.ok.inj h, PathSet.contains_iff_mem_places, PathSet.places_foldl_erase,
      List.mem_filter, PathSet.mem_places_ofList, List.map_append, List.mem_append,
      mem_changed_iff, hmem, decide_eq_true_eq, and_comm]
  · cases h

/-- Every affected file is a variant of a touched layout file. -/
theorem exists_touched_of_affected {files : PathSet}
    (h : affectedFiles t changed removed = .ok files) {p : Path} (hp : files.contains p = true) :
    ∃ q ∈ changed ++ removed, ∃ f, LayoutFile.ofPath? q = some f ∧ ∃ v, isVariantName v = true ∧
      p.steps = f.root.steps ++ [.name v, .name f.fileName] := by
  obtain ⟨-, ⟨hchanged, hlayout⟩ | ⟨f, hf, hsibling⟩⟩ := (contains_affectedFiles_iff h p).1 hp
  · obtain ⟨q, hq, hsame⟩ := List.mem_map.1 hchanged
    obtain ⟨e, he⟩ := Option.isSome_iff_exists.1 hlayout
    obtain ⟨f, hf, -⟩ := LayoutFile.exists_ofPath?_of_steps hsame.symm he
    obtain ⟨hv, hsteps⟩ := LayoutFile.steps_of_ofPath? hf
    exact ⟨q, List.mem_append_left _ hq, f, hf, f.variant, hv, hsame.symm.trans hsteps⟩
  · obtain ⟨q, hq, hfq⟩ := List.mem_filterMap.1 hf
    have hlist := exists_affectedFiles_iff.1 ⟨files, h⟩ f hf
    obtain ⟨-, v, hv, -, hsteps⟩ := (Tree.isSibling_iff hfq hlist).1 hsibling
    exact ⟨q, hq, f, hfq, v, hv, hsteps⟩

/-- A touched file has the full name of a file in the resource root at the given steps. -/
def TouchesName (changed removed : List Path) (root : List Step) (name : String) : Prop :=
  ∃ e ∈ touchedFiles changed removed, e.fileName = name ∧ e.root.steps = root

section

variable {files : PathSet} (h : affectedFiles t changed removed = .ok files) {p : Path}
include h

/-- A file is affected only if a file of its full name was touched in its root. -/
theorem touchesName_of_affected (hp : files.contains p = true) : ∃ f,
    LayoutFile.ofPath? p = some f ∧ TouchesName changed removed f.root.steps f.fileName := by
  obtain ⟨r, hr, e, he, v, hv, hsteps⟩ := exists_touched_of_affected h hp
  obtain ⟨f, hf, -, hname, hroot⟩ := LayoutFile.exists_ofPath? hsteps hv
  exact ⟨f, hf, e, List.mem_filterMap.2 ⟨r, hr, he⟩, hname.symm, hroot.symm⟩

/-- An existing layout file of a touched name is affected unless it disappeared. -/
theorem affected_of_touchesName {f : LayoutFile} (hf : LayoutFile.ofPath? p = some f)
    (hfile : t.hasFile p.location = true) (hstays : p.steps ∉ removed.map Path.steps)
    (htouched : TouchesName changed removed f.root.steps f.fileName) : files.contains p = true := by
  obtain ⟨e, he, hname, hroot⟩ := htouched
  obtain ⟨r, hr, her⟩ := List.mem_filterMap.1 he
  obtain ⟨hv, hp⟩ := LayoutFile.steps_of_ofPath? hf
  rw [← hname, ← hroot] at hp
  refine (contains_affectedFiles_iff h p).2 ⟨hstays, ?_⟩
  by_cases hself : f.variant = e.variant
  · have hsame : p.steps = r.steps := by rw [hp, hself, (LayoutFile.steps_of_ofPath? her).2]
    refine Or.inl ⟨?_, Option.isSome_iff_exists.2 ⟨f, hf⟩⟩
    refine List.mem_map.2 ⟨r, (List.mem_append.1 hr).resolve_right fun hr => ?_, hsame.symm⟩
    exact hstays (List.mem_map.2 ⟨r, hr, hsame.symm⟩)
  · have hlist := exists_affectedFiles_iff.1 ⟨files, h⟩ e he
    exact Or.inr ⟨e, he, (Tree.isSibling_iff her hlist).2 ⟨hfile, f.variant, hv, hself, hp⟩⟩

/-- **The set of affected files is closed under variants**, but for the files that disappeared. -/
theorem affectedFiles_closed (hp : files.contains p = true) : ∃ f, LayoutFile.ofPath? p = some f ∧
    ∀ q g, LayoutFile.ofPath? q = some g → g.fileName = f.fileName →
      g.root.steps = f.root.steps → t.hasFile q.location = true →
        files.contains q = true ∨ q.steps ∈ removed.map Path.steps := by
  obtain ⟨f, hf, htouched⟩ := touchesName_of_affected h hp
  refine ⟨f, hf, fun q g hg hname hroot hfile => or_iff_not_imp_right.2 fun hstays => ?_⟩
  rw [← hname, ← hroot] at htouched
  exact affected_of_touchesName h hg hfile hstays htouched

end

/-! ### Other reports of the same places -/

section

variable {changed' removed' : List Path} (hchanged : SamePlaces changed changed')
  (hremoved : SamePlaces removed removed')
include hchanged hremoved

/-- Reports of the same places touch the same layout files, up to their spelling. -/
theorem exists_touchedFiles_of_samePlaces {f : LayoutFile}
    (hf : f ∈ touchedFiles changed removed) : ∃ q g, g ∈ touchedFiles changed' removed' ∧
      LayoutFile.ofPath? q = some g ∧ g.variant = f.variant ∧ g.fileName = f.fileName ∧
        g.root.steps = f.root.steps := by
  obtain ⟨p, hp, hf⟩ := List.mem_filterMap.1 hf
  obtain ⟨q, hq, hsame⟩ := List.mem_map.1
    ((hchanged.append hremoved p.steps).1 (List.mem_map_of_mem hp))
  obtain ⟨g, hg, hsame⟩ := LayoutFile.exists_ofPath?_of_steps hsame.symm hf
  exact ⟨q, g, List.mem_filterMap.2 ⟨q, hq, hg⟩, hg, hsame⟩

theorem exists_affectedFiles_of_samePlaces (h : ∃ files, affectedFiles t changed' removed' =
    .ok files) : ∃ files, affectedFiles t changed removed = .ok files := by
  rw [exists_affectedFiles_iff] at h ⊢
  intro f hf
  obtain ⟨q, g, hg, -, -, -, hroot⟩ := exists_touchedFiles_of_samePlaces hchanged hremoved hf
  have hlist := h g hg
  rwa [Tree.refusesListing_iff, Path.location_eq_of_steps_eq hroot, ← Tree.refusesListing_iff]
    at hlist

theorem contains_of_samePlaces {files files' : PathSet}
    (h : affectedFiles t changed removed = .ok files)
    (h' : affectedFiles t changed' removed' = .ok files') {p : Path}
    (hp : files.contains p = true) : files'.contains p = true := by
  have hlist := exists_affectedFiles_iff.1 ⟨files, h⟩
  have hlist' := exists_affectedFiles_iff.1 ⟨files', h'⟩
  obtain ⟨hstays, hwhy⟩ := (contains_affectedFiles_iff h p).1 hp
  refine (contains_affectedFiles_iff h' p).2 ⟨mt (hremoved p.steps).2 hstays, ?_⟩
  rcases hwhy with ⟨hmem, hlayout⟩ | ⟨f, hf, hsibling⟩
  · exact Or.inl ⟨(hchanged p.steps).1 hmem, hlayout⟩
  · obtain ⟨r, -, hfr⟩ := List.mem_filterMap.1 hf
    obtain ⟨q, g, hg, hgq, hvariant, hname, hroot⟩ :=
      exists_touchedFiles_of_samePlaces hchanged hremoved hf
    refine Or.inr ⟨g, hg, (Tree.isSibling_iff hgq (hlist' g hg)).2 ?_⟩
    rw [hvariant, hname, hroot]
    exact (Tree.isSibling_iff hfr (hlist f hf)).1 hsibling

end

/-- **The set of affected files, exactly.**  Looking for it fails exactly if the resource root of a
touched layout file is there and cannot be listed.  Otherwise no place occurs twice; the members
are the layout files that changed and the existing variants of touched files that a listing shows,
less the files that disappeared; with a member, every existing file of its name in a variant
directory of its root is a member or disappeared; and any report of the same places, in whatever
order and number, leads to the same members. -/
theorem affectedFiles_exact (t : Tree) (changed removed : List Path) :
    ((∃ e, affectedFiles t changed removed = .error e) ↔
      ∃ f ∈ touchedFiles changed removed, t.RefusesListing f) ∧
    ∀ files, affectedFiles t changed removed = .ok files →
      files.places.Nodup ∧
      (∀ p : Path, files.contains p = true ↔ p.steps ∉ removed.map Path.steps ∧
        ((p.steps ∈ changed.map Path.steps ∧ (LayoutFile.ofPath? p).isSome = true) ∨
          ∃ f ∈ touchedFiles changed removed, t.IsSibling f p)) ∧
      (∀ p, files.contains p = true → ∃ f, LayoutFile.ofPath? p = some f ∧
        ∀ q g, LayoutFile.ofPath? q = some g → g.fileName = f.fileName →
          g.root.steps = f.root.steps → t.hasFile q.location = true →
            files.contains q = true ∨ q.steps ∈ removed.map Path.steps) ∧
      ∀ changed' removed', SamePlaces changed changed' → SamePlaces removed removed' →
        ∃ files', affectedFiles t changed' removed' = .ok files' ∧
          ∀ p, files'.contains p = files.contains p := by
  have hfails : (∃ e, affectedFiles t changed removed = .error e) ↔
      ¬ ∃ files, affectedFiles t changed removed = .ok files := by
    cases affectedFiles t changed removed <;> simp
  refine ⟨?_, fun files h => ⟨files.places_nodup, contains_affectedFiles_iff h,
    fun p hp => affectedFiles_closed h hp, fun changed' removed' hchanged hremoved => ?_⟩⟩
  · rw [hfails, exists_affectedFiles_iff]
    simp only [not_forall, not_not, exists_prop]
  · have hchanged' : SamePlaces changed' changed := fun k => (hchanged k).symm
    have hremoved' : SamePlaces removed' removed := fun k => (hremoved k).symm
    obtain ⟨files', h'⟩ := exists_affectedFiles_of_samePlaces hchanged' hremoved' ⟨files, h⟩
    refine ⟨files', h', fun p => Bool.eq_iff_iff.2 ⟨?_, ?_⟩⟩
    · exact contains_of_samePlaces hchanged' hremoved' h' h
    · exact contains_of_samePlaces hchanged hremoved h h'

/-- A layout with three variants. -/
def threeVariants : Tree :=
  .ofFiles [(⟨"res/layout/main.xml"⟩, ""), (⟨"res/layout-land/main.xml"⟩, ""),
    (⟨"res/layout-v21/main.xml"⟩, "")]

theorem affectedFiles_exact_threeVariants : ∃ files,
    affectedFiles threeVariants [⟨"res/layout/main.xml"⟩] [⟨"res/layout-land/main.xml"⟩] =
      .ok files ∧
    files.contains ⟨"res/layout/main.xml"⟩ = true ∧
    files.contains ⟨"res/layout-v21/main.xml"⟩ = true ∧
    files.contains ⟨"res/layout-land/main.xml"⟩ = false ∧
    ∃ files', affectedFiles threeVariants [⟨"res//layout/main.xml"⟩, ⟨"res/layout/./main.xml"⟩]
        [⟨"res/layout-land/main.xml"⟩] = .ok files' ∧
      files'.contains ⟨"res/layout-v21/main.xml"⟩ = true := by
  obtain ⟨hfails, hset⟩ := affectedFiles_exact threeVariants [⟨"res/layout/main.xml"⟩]
    [⟨"res/layout-land/main.xml"⟩]
  have hlist : ¬ ∃ f ∈ touchedFiles [⟨"res/layout/main.xml"⟩] [⟨"res/layout-land/main.xml"⟩],
      threeVariants.RefusesListing f := by decide +kernel
  cases hfiles : affectedFiles threeVariants [⟨"res/layout/main.xml"⟩]
      [⟨"res/layout-land/main.xml"⟩] with
  | error e => exact absurd (hfails.1 ⟨e, hfiles⟩) hlist
  | ok files =>
    obtain ⟨-, hmem, hclosed, hsame⟩ := hset files hfiles
    have hmain : files.contains ⟨"res/layout/main.xml"⟩ = true :=
      (hmem _).2 ⟨by decide +kernel, Or.inl (by decide +kernel)⟩
    obtain ⟨f, hf, hvariants⟩ := hclosed _ hmain
    obtain rfl : f = ⟨⟨"res/layout/main.xml"⟩, "main.xml", "layout", ⟨"res"⟩⟩ :=
      Option.some.inj (hf.symm.trans (by decide +kernel))
    have hv21 : files.contains ⟨"res/layout-v21/main.xml"⟩ = true :=
      (hvariants _ ⟨⟨"res/layout-v21/main.xml"⟩, "main.xml", "layout-v21", ⟨"res"⟩⟩
        (by decide +kernel) rfl rfl (by decide +kernel)).resolve_right (by decide +kernel)
    have hland : files.contains ⟨"res/layout-land/main.xml"⟩ = false :=
      Bool.eq_false_iff.2 fun h => ((hmem _).1 h).1 (by decide +kernel)
    have hreport : SamePlaces [⟨"res/layout/main.xml"⟩]
        [⟨"res//layout/main.xml"⟩, ⟨"res/layout/./main.xml"⟩] := by
      have hspelled : [⟨"res//layout/main.xml"⟩, ⟨"res/layout/./main.xml"⟩].map Path.steps =
          [Path.steps ⟨"res/layout/main.xml"⟩, Path.steps ⟨"res/layout/main.xml"⟩] := by
        decide +kernel
      intro k
      rw [hspelled]
      simp
    obtain ⟨files', hfiles', hboth⟩ := hsame _ _ hreport fun _ => Iff.rfl
    exact ⟨files, rfl, hmain, hv21, hland, files', hfiles', (hboth _).trans hv21⟩

end ViewHolder
