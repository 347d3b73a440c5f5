import ViewHolder.Compile.Affected
import ViewHolder.Proofs.LayoutFile
import ViewHolder.Proofs.PathSet
import ViewHolder.Proofs.Tree

/-!
# Listed and affected layout files

The layout files of resource roots, and the files to read again after some changes, are described
by their places: a resource root, the name of a variant directory, and the name of a file.

## Main definitions

* `Tree.isListable` : listing a place does not fail, though nothing need be there.
* `Tree.variantNames` : the variant directories below a location, in ascending order.
* `Tree.shownFiles` : the files of a directory that are not hidden, in ascending order.

## Main results

* `allLayoutFiles_eq`, `mem_places_allLayoutFiles` : the layout files of resource roots.
* `affectedFiles_eq`, `mem_affectedFiles` : the files to read again.
-/

namespace ViewHolder

/-! ### Listings -/

/-- The entry of a name below a directory. -/
def Entry.below (dir : Path) (c : String × Bool) : Entry := ⟨dir.join ⟨c.1⟩, c.2⟩

/-- The entry of a name that is no name between separators has an empty name. -/
theorem Entry.name_below {t : Tree} (ht : t.Spelled) {dir : Path} {c : String × Bool}
    (hc : c ∈ t.children dir.location) :
    (Entry.below dir c).name = if IsEntryName c.1 then c.1 else "" := by
  obtain ⟨s, hs, hkind⟩ := Tree.exists_step_of_mem_children ht hc
  simp only [Entry.name, Entry.below, ← hs]
  rcases hkind with hseg | ⟨-, rfl⟩
  · cases s with
    | root => exact absurd rfl hseg.ne_root
    | here => exact absurd rfl hseg.ne_here
    | up =>
      have hname : (dir.join ⟨Step.up.text⟩).fileName? = none := by
        rw [Path.fileName?, Path.steps_join hseg]
        simp
      rw [hname]
      decide +kernel
    | name x =>
      rw [Path.fileName?_eq_some.2 ⟨_, Path.steps_join hseg dir⟩]
      exact (if_pos (Step.isSegment_name.1 hseg)).symm
  · have hjoin : dir.join ⟨Step.root.text⟩ = ⟨"/"⟩ := rfl
    rw [hjoin]
    decide +kernel

/-- There is no name below a place that is neither a file nor a directory. -/
theorem Tree.children_eq_nil {t : Tree} {l : Location} (h : t.hasDir l = false) :
    t.children l = [] := by
  refine List.eq_nil_iff_forall_not_mem.2 fun c hc => ?_
  obtain ⟨b, hb⟩ := Tree.mem_children_name.1 ⟨c.2, hc⟩
  obtain ⟨s, rest, -, hfile⟩ := Tree.mem_members.1 hb
  have hdir : t.hasDir l = true := by
    rcases hfile with ⟨hfile, -⟩ | ⟨hd, -⟩
    · exact Tree.hasDir_of_hasFile hfile (List.cons_ne_nil s rest)
    · exact Tree.hasDir_iff.2 (Or.inr (Or.inl ⟨_, hd, List.prefix_append _ _⟩))
  exact absurd hdir (by simp [h])

/-- Listing a place does not fail: it is not denied, and no file is there. -/
def Tree.isListable (t : Tree) (l : Location) : Bool := !t.unlistable.contains l && !t.hasFile l

/-- A listing shows the names below the directory that satisfy the condition, if it does not
fail. -/
theorem listMembers_cases (t : Tree) (dir : Path) (p : Entry → Bool) :
    (t.isListable dir.location = true ∧ listMembers t dir p = .ok
      (((t.children dir.location).filter fun c => p (Entry.below dir c)).map (Entry.below dir))) ∨
    (t.isListable dir.location = false ∧ ∃ e, listMembers t dir p = .error e) := by
  have hlist : Store.list t dir = t.list dir := rfl
  rw [listMembers, Store.listIfPresent, hlist, Tree.list, Tree.isListable]
  by_cases hdeny : t.unlistable.contains dir.location = true
  · rw [if_pos hdeny, hdeny]
    exact Or.inr ⟨rfl, _, rfl⟩
  rw [if_neg hdeny, Bool.eq_false_iff.2 hdeny]
  by_cases hfile : t.hasFile dir.location = true
  · rw [if_pos hfile, hfile]
    exact Or.inr ⟨rfl, _, rfl⟩
  rw [if_neg hfile, Bool.eq_false_iff.2 hfile]
  cases hdir : t.hasDir dir.location with
  | true => exact Or.inl ⟨rfl, congrArg Except.ok List.filter_map⟩
  | false =>
    rw [Tree.children_eq_nil hdir]
    exact Or.inl ⟨rfl, rfl⟩

theorem listMembers_eq {t : Tree} {dir : Path} {p : Entry → Bool} {es : List Entry}
    (h : listMembers t dir p = .ok es) :
    es = ((t.children dir.location).filter fun c => p (Entry.below dir c)).map
      (Entry.below dir) := by
  rcases listMembers_cases t dir p with ⟨-, hok⟩ | ⟨-, e, he⟩
  · exact Except.ok.inj (h.symm.trans hok)
  · cases h.symm.trans he

/-- Whether a listing fails does not depend on what it is to show. -/
theorem exists_listMembers_iff {t : Tree} {dir : Path} {p : Entry → Bool} :
    (∃ es, listMembers t dir p = .ok es) ↔ t.isListable dir.location = true := by
  rcases listMembers_cases t dir p with ⟨hdir, hok⟩ | ⟨hdir, e, he⟩
  · rw [hok, hdir]
    exact ⟨fun _ => rfl, fun _ => ⟨_, rfl⟩⟩
  · rw [he, hdir]
    refine iff_of_false ?_ Bool.false_ne_true
    rintro ⟨es, hes⟩
    cases hes

/-- A traversal collects what its steps yield. -/
theorem gather_eq_flatMap {ε α β : Type} {step : α → Except ε (List β)} {g : α → List β}
    {as : List α} (hstep : ∀ a ∈ as, ∀ bs, step a = .ok bs → bs = g a) {bs : List β}
    (h : gather step as = .ok bs) : bs = as.flatMap g := by
  induction as generalizing bs with
  | nil => exact (Except.ok.inj h).symm
  | cons a as ih =>
    rw [gather] at h
    cases ha : step a with
    | error e =>
      rw [ha] at h
      cases h
    | ok front =>
      cases hrest : gather step as with
      | error e =>
        rw [ha, hrest] at h
        cases h
      | ok back =>
        rw [ha, hrest] at h
        rw [List.flatMap_cons, ← hstep a List.mem_cons_self front ha,
          ← ih (fun b hb => hstep b (List.mem_cons_of_mem a hb)) hrest, Except.ok.inj h]

/-- A traversal succeeds exactly if all its steps succeed. -/
theorem exists_gather_iff {ε α β : Type} {step : α → Except ε (List β)} {as : List α} :
    (∃ bs, gather step as = .ok bs) ↔ ∀ a ∈ as, ∃ bs, step a = .ok bs := by
  induction as with
  | nil => simp [gather]
  | cons a as ih =>
    rw [List.forall_mem_cons, ← ih, gather]
    cases step a with
    | error e => simp
    | ok front => cases gather step as <;> simp

/-! ### Variant directories -/

/-- The variant directories below a location, in ascending order. -/
def Tree.variantNames (t : Tree) (l : Location) : List String :=
  ((t.children l).filter fun c => c.2 && isVariantName c.1).map (·.1)

theorem Tree.variantNames_ascending (t : Tree) (l : Location) :
    (t.variantNames l).Pairwise (· < ·) :=
  List.pairwise_map.2 (List.Pairwise.filter _ (t.children_ascending l))

theorem Tree.variantNames_nodup (t : Tree) (l : Location) : (t.variantNames l).Nodup :=
  (t.variantNames_ascending l).imp fun h => String.ne_of_lt h

theorem isVariantName_entryName {t : Tree} (ht : t.Spelled) {l : Location} {c : String × Bool}
    (hc : c ∈ t.children l) (hv : isVariantName c.1 = true) : IsEntryName c.1 := by
  obtain ⟨s, hs, hseg | ⟨-, rfl⟩⟩ := t.exists_step_of_mem_children ht hc
  · cases s with
    | root => exact absurd rfl hseg.ne_root
    | here => exact absurd rfl hseg.ne_here
    | up =>
      rw [← hs] at hv
      exact absurd hv (by decide +kernel)
    | name x => exact hs ▸ Step.isSegment_name.1 hseg
  · rw [← hs] at hv
    exact absurd hv (by decide +kernel)

/-- The variant directories are the directories with the name of one. -/
theorem Tree.mem_variantNames {t : Tree} (ht : t.Spelled) {l : Location} {v : String} :
    v ∈ t.variantNames l ↔
      isVariantName v = true ∧ IsEntryName v ∧ t.hasDir (l ++ [.name v]) = true := by
  simp only [variantNames, List.mem_map, List.mem_filter, Bool.and_eq_true]
  constructor
  · rintro ⟨⟨x, b⟩, ⟨hc, hdir, hv⟩, rfl⟩
    obtain rfl : b = true := hdir
    have hx : IsEntryName x := isVariantName_entryName ht hc hv
    exact ⟨hv, hx, (mem_children_dir ht (Step.isSegment_name.2 hx)).1 hc⟩
  · rintro ⟨hv, hx, hdir⟩
    exact ⟨(v, true), ⟨(mem_children_dir ht (Step.isSegment_name.2 hx)).2 hdir, rfl, hv⟩, rfl⟩

/-- The entries of variant directories that satisfy a further condition on their names. -/
private theorem filter_variants {t : Tree} (ht : t.Spelled) (dir : Path) (q : String → Bool) :
    ((t.children dir.location).filter fun c =>
        (Entry.below dir c).isDir && (isVariantName (Entry.below dir c).name &&
          q (Entry.below dir c).name)) =
      ((t.children dir.location).filter fun c => c.2 && isVariantName c.1).filter
        fun c => q c.1 := by
  have hempty : isVariantName "" = false := by decide +kernel
  rw [List.filter_filter]
  refine List.filter_congr fun c hc => ?_
  rw [Entry.name_below ht hc]
  change (c.2 && _) = _
  split
  · rw [Bool.and_comm (q c.1), Bool.and_assoc]
  · rename_i hx
    have hv : isVariantName c.1 = false :=
      Bool.eq_false_iff.2 fun hv => hx (isVariantName_entryName ht hc hv)
    simp [hempty, hv]

/-- The variant directories that a listing shows. -/
theorem listMembers_variants {t : Tree} (ht : t.Spelled) {dir : Path} {q : String → Bool}
    {es : List Entry}
    (h : listMembers t dir (fun e => e.isDir && (isVariantName e.name && q e.name)) = .ok es) :
    es.map (·.name) = (t.variantNames dir.location).filter q ∧
      es.map (·.path) = ((t.variantNames dir.location).filter q).map fun v => dir.join ⟨v⟩ := by
  rw [listMembers_eq h, filter_variants ht, Tree.variantNames, List.filter_map, List.map_map,
    List.map_map, List.map_map]
  refine ⟨List.map_congr_left fun c hc => ?_, rfl⟩
  have hmem := List.mem_filter.1 (List.mem_filter.1 hc).1
  have hv : isVariantName c.1 = true := (Bool.and_eq_true_iff.1 hmem.2).2
  exact (Entry.name_below ht hmem.1).trans (if_pos (isVariantName_entryName ht hmem.1 hv))

/-! ### The layout files of resource roots -/

/-- A step that is not the name of a hidden file. -/
def Step.IsShown (s : Step) : Prop := ∀ x, s = .name x → isHiddenName x = false

/-- What a segment is called in a listing is not hidden if the segment is not. -/
theorem Step.IsShown.of_text {s : Step} (h : s.IsShown) (hseg : s.IsSegment) :
    isHiddenName (if IsEntryName s.text then s.text else "") = false := by
  cases s with
  | root => exact absurd rfl hseg.ne_root
  | here => exact absurd rfl hseg.ne_here
  | up => decide +kernel
  | name x =>
    have hname : IsEntryName (Step.name x).text := Step.isSegment_name.1 hseg
    rw [if_pos hname]
    exact h x rfl

/-- The files of a directory that are not hidden, in ascending order. -/
def Tree.shownFiles (t : Tree) (dir : Path) : List Path :=
  ((t.children dir.location).filter fun c => !c.2 && !isHiddenName (Entry.below dir c).name).map
    fun c => dir.join ⟨c.1⟩

theorem filesOfVariant_eq {t : Tree} {dir : Path} {ps : List Path}
    (h : filesOfVariant t dir = .ok ps) : ps = t.shownFiles dir := by
  unfold filesOfVariant at h
  split at h
  · rename_i es hes
    rw [← Except.ok.inj h, listMembers_eq hes, List.map_map]
    rfl
  · cases h

theorem filesOfRoot_eq {t : Tree} (ht : t.Spelled) {r : Path} {ps : List Path}
    (h : filesOfRoot t r = .ok ps) :
    ps = (t.variantNames r.location).flatMap fun v => t.shownFiles (r.join ⟨v⟩) := by
  unfold filesOfRoot at h
  split at h
  · rename_i es hes
    have hpaths := (listMembers_variants (q := fun _ => true) ht (by simpa using hes)).2
    rw [List.filter_true] at hpaths
    rw [gather_eq_flatMap (fun e _ bs he => filesOfVariant_eq he) h, ← List.flatMap_map, hpaths,
      List.flatMap_map]
  · cases h

/-- The layout files of resource roots, by root and variant directory. -/
theorem allLayoutFiles_eq {t : Tree} (ht : t.Spelled) {roots : List Path} {files : PathSet}
    (h : allLayoutFiles t roots = .ok files) :
    files = PathSet.ofList (roots.flatMap fun r =>
      (t.variantNames r.location).flatMap fun v => t.shownFiles (r.join ⟨v⟩)) := by
  unfold allLayoutFiles at h
  split at h
  · rename_i ps hps
    rw [← Except.ok.inj h, gather_eq_flatMap (fun r _ bs hr => filesOfRoot_eq ht hr) hps]
  · cases h

section

variable {t : Tree} (ht : t.Spelled)
include ht

theorem Tree.Spelled.isEntryName {l : Location} {x : String} (hl : t.hasFile l = true)
    (hx : .name x ∈ l) : IsEntryName x := by
  obtain ⟨p, rfl⟩ := ht l (Or.inl hl)
  exact Path.isEntryName_of_mem_steps (List.mem_filter.1 hx).1

/-- A file below a place that is not the top ends in a segment. -/
theorem Tree.Spelled.isSegment {l : Location} {s : Step} (hl : l ≠ [])
    (hfile : t.hasFile (l ++ [s]) = true) : s.IsSegment := by
  obtain ⟨p, hp⟩ := ht _ (Or.inl hfile)
  obtain ⟨r, l, rfl⟩ := List.exists_cons_of_ne_nil hl
  exact Path.isSegment_of_mem_tail (p := p) (by simp [hp])

/-- Where the place of a file in a variant directory lies. -/
theorem Tree.Spelled.filter_place {r : Path} {v : String} {s : Step}
    (hfile : t.hasFile (r.location ++ [.name v, s]) = true) :
    (r.steps ++ [.name v, s]).filter (· != .here) = r.location ++ [.name v, s] := by
  have hseg : s.IsSegment := ht.isSegment (l := r.location ++ [.name v]) (by simp)
    (by simpa using hfile)
  rw [List.filter_append]
  simp [Path.location, hseg.ne_here]

/-- The files that a directory shows.  A directory that is not at the top has no other members than
segments. -/
theorem mem_shownFiles {dir : Path} (hdir : dir.location ≠ []) {k : List Step} :
    k ∈ (t.shownFiles dir).map Path.steps ↔ ∃ s : Step, k = dir.steps ++ [s] ∧
      t.hasFile (dir.location ++ [s]) = true ∧ t.hasDir (dir.location ++ [s]) = false ∧
      s.IsShown := by
  simp only [Tree.shownFiles, List.map_map, List.mem_map, List.mem_filter, Function.comp_apply,
    Bool.and_eq_true, Bool.not_eq_true']
  constructor
  · rintro ⟨⟨x, b⟩, ⟨hc, hb, hhidden⟩, rfl⟩
    obtain rfl : b = false := hb
    rw [Entry.name_below ht hc] at hhidden
    obtain ⟨s, hx, hkind⟩ := t.exists_step_of_mem_children ht hc
    obtain rfl : s.text = x := hx
    have hseg : s.IsSegment := hkind.resolve_right fun h => hdir h.1
    obtain ⟨hthere, hfile⟩ := (Tree.mem_children ht hseg).1 hc
    refine ⟨s, Path.steps_join hseg dir, hthere.resolve_right (by simp [← hfile]), hfile.symm, ?_⟩
    rintro y rfl
    simpa [Step.text, Step.isSegment_name.1 hseg] using hhidden
  · rintro ⟨s, rfl, hfile, hnodir, hshown⟩
    have hseg : s.IsSegment := ht.isSegment hdir hfile
    have hc : (s.text, false) ∈ t.children dir.location :=
      (Tree.mem_children ht hseg).2 ⟨Or.inl hfile, hnodir.symm⟩
    refine ⟨(s.text, false), ⟨hc, rfl, ?_⟩, Path.steps_join hseg dir⟩
    rw [Entry.name_below ht hc]
    exact hshown.of_text hseg

/-- **The layout files of resource roots** are the files in their variant directories that are not
hidden. -/
theorem mem_places_allLayoutFiles {roots : List Path} {files : PathSet}
    (h : allLayoutFiles t roots = .ok files) {k : List Step} :
    k ∈ files.places ↔ ∃ r ∈ roots, ∃ v s, isVariantName v = true ∧
      k = r.steps ++ [.name v, s] ∧ t.hasFile (r.location ++ [.name v, s]) = true ∧
      t.hasDir (r.location ++ [.name v, s]) = false ∧ s.IsShown := by
  rw [allLayoutFiles_eq ht h, PathSet.mem_places_ofList]
  simp only [List.map_flatMap, List.mem_flatMap]
  refine exists_congr fun r => and_congr_right fun _ => exists_congr fun v => ?_
  constructor
  · rintro ⟨hv, hk⟩
    obtain ⟨hvariant, hname, -⟩ := (Tree.mem_variantNames ht).1 hv
    have hloc : (r.join ⟨v⟩).location = r.location ++ [.name v] := Path.location_join_name hname r
    obtain ⟨s, rfl, hfile⟩ := (mem_shownFiles ht (by simp [hloc])).1 hk
    rw [Path.steps_join_name hname, List.append_assoc, List.singleton_append]
    rw [hloc, List.append_assoc, List.singleton_append] at hfile
    exact ⟨s, hvariant, rfl, hfile⟩
  · rintro ⟨s, hvariant, rfl, hfile, hrest⟩
    have hname : IsEntryName v := ht.isEntryName hfile (by simp)
    have hloc : (r.join ⟨v⟩).location = r.location ++ [.name v] := Path.location_join_name hname r
    have hdir : t.hasDir (r.location ++ [.name v]) = true :=
      Tree.hasDir_of_hasFile (m := [s]) (by simpa using hfile) (List.cons_ne_nil _ _)
    refine ⟨(Tree.mem_variantNames ht).2 ⟨hvariant, hname, hdir⟩,
      (mem_shownFiles ht (by simp [hloc])).2 ⟨s, ?_, ?_⟩⟩
    · rw [Path.steps_join_name hname, List.append_assoc, List.singleton_append]
    · rw [hloc, List.append_assoc, List.singleton_append]
      exact ⟨hfile, hrest⟩

/-- A listed file lies in a variant directory of a resource root. -/
theorem location_of_listed {roots : List Path} {files : PathSet}
    (h : allLayoutFiles t roots = .ok files) {k : List Step} (hk : k ∈ files.places) :
    ∃ r ∈ roots, ∃ v s, isVariantName v = true ∧
      k.filter (· != .here) = r.location ++ [.name v, s] := by
  obtain ⟨r, hr, v, s, hv, rfl, hfile, -⟩ := (mem_places_allLayoutFiles ht h).1 hk
  exact ⟨r, hr, v, s, hv, ht.filter_place hfile⟩

/-- The layout files that have a stem are those that end in a name. -/
theorem mem_allLayoutFiles {roots : List Path} {files : PathSet}
    (h : allLayoutFiles t roots = .ok files) {k : List Step} (hk : Path.stemAt k ≠ "") :
    k ∈ files.places ↔ ∃ r ∈ roots, ∃ v x, isVariantName v = true ∧
      k = r.steps ++ [.name v, .name x] ∧
      t.hasFile (r.location ++ [.name v, .name x]) = true ∧
      t.hasDir (r.location ++ [.name v, .name x]) = false ∧ isHiddenName x = false := by
  rw [mem_places_allLayoutFiles ht h]
  refine exists_congr fun r => and_congr_right fun _ => exists_congr fun v => ?_
  constructor
  · rintro ⟨s, hv, rfl, hfile, hnodir, hshown⟩
    cases s with
    | name x => exact ⟨x, hv, rfl, hfile, hnodir, hshown x rfl⟩
    | root => exact absurd (by simp [Path.stemAt]) hk
    | here => exact absurd (by simp [Path.stemAt]) hk
    | up => exact absurd (by simp [Path.stemAt]) hk
  · rintro ⟨x, hv, rfl, hfile, hnodir, hhidden⟩
    exact ⟨.name x, hv, rfl, hfile, hnodir, fun y hy => Step.name.inj hy ▸ hhidden⟩

end

/-! ### The variants of a layout -/

/-- The places of a file name in the variant directories of a root, in ascending order. -/
def Tree.variantPlaces (t : Tree) (root : Path) (x : String) : List (List Step) :=
  ((t.variantNames root.location).filter fun v =>
    t.hasFile (root.location ++ [.name v, .name x])).map fun v =>
      root.steps ++ [.name v, .name x]

theorem Tree.variantPlaces_congr (t : Tree) {r r' : Path} (h : r.steps = r'.steps) (x : String) :
    t.variantPlaces r x = t.variantPlaces r' x := by
  simp only [variantPlaces, Path.location, h]

theorem Tree.variantPlaces_nodup (t : Tree) (root : Path) (x : String) :
    (t.variantPlaces root x).Nodup := by
  refine List.pairwise_map.2 (List.Pairwise.filter _ ?_)
  exact (t.variantNames_nodup root.location).imp fun h => by simpa using h

theorem Tree.mem_variantPlaces {t : Tree} (ht : t.Spelled) {root : Path} {x : String}
    {k : List Step} : k ∈ t.variantPlaces root x ↔ ∃ v, isVariantName v = true ∧
      k = root.steps ++ [.name v, .name x] ∧
      t.hasFile (root.location ++ [.name v, .name x]) = true := by
  simp only [variantPlaces, List.mem_map, List.mem_filter]
  constructor
  · rintro ⟨v, ⟨hv, hfile⟩, rfl⟩
    exact ⟨v, ((mem_variantNames ht).1 hv).1, rfl, hfile⟩
  · rintro ⟨v, hv, rfl, hfile⟩
    have hname : IsEntryName v := ht.isEntryName hfile (by simp)
    have hdir : t.hasDir (root.location ++ [.name v]) = true :=
      hasDir_of_hasFile (m := [.name x]) (by simpa using hfile) (List.cons_ne_nil _ _)
    exact ⟨v, ⟨(mem_variantNames ht).2 ⟨hv, hname, hdir⟩, hfile⟩, rfl⟩

/-! ### Affected files -/

theorem siblingVariants_eq {t : Tree} (ht : t.Spelled) {f : LayoutFile} {ps : List Path}
    (h : siblingVariants t f = .ok ps) :
    ps = (((t.variantNames f.root.location).filter (· != f.variant)).map f.inVariant).filter
      (Store.isFile t) := by
  unfold siblingVariants at h
  split at h
  · rename_i es hes
    have hnames := (listMembers_variants (q := (· != f.variant)) ht hes).1
    rw [LayoutFile.location_listingRoot] at hnames
    rw [← Except.ok.inj h, ← hnames, List.map_map]
    rfl
  · cases h

/-- The other variants of a layout file are those at other places. -/
theorem places_siblingVariants {t : Tree} (ht : t.Spelled) {p : Path} {f : LayoutFile}
    (hf : LayoutFile.ofPath? p = some f) :
    ((((t.variantNames f.root.location).filter (· != f.variant)).map f.inVariant).filter
      (Store.isFile t)).map Path.steps =
        (t.variantPlaces f.root f.fileName).filter (· != f.path.steps) := by
  have hpath : f.path.steps = f.root.steps ++ [.name f.variant, .name f.fileName] := by
    rw [LayoutFile.path_of_ofPath? hf, (LayoutFile.steps_of_ofPath? hf).2]
  have hplace {v : String} (hv : v ∈ t.variantNames f.root.location) :
      (f.inVariant v).steps = f.root.steps ++ [.name v, .name f.fileName] :=
    LayoutFile.steps_inVariant hf ((Tree.mem_variantNames ht).1 hv).2.1
  rw [Tree.variantPlaces, List.filter_map, List.filter_map, List.map_map, List.filter_filter,
    List.filter_filter, List.filter_congr fun v hv => ?_]
  · exact List.map_congr_left fun v hv => hplace (List.mem_filter.1 hv).1
  · change (t.hasFile (f.inVariant v).location && _) = (f.root.steps ++ _ != _ && _)
    rw [Path.location_eq_of_steps (hplace hv) (by simp), hpath, Bool.and_comm]
    congr 1
    simp [bne]

/-- The places of the files to read again: the layout files that changed, then the other variants
of all files, less the files that disappeared. -/
theorem affectedFiles_eq {t : Tree} (ht : t.Spelled) {changed removed : List Path} {files : PathSet}
    (h : affectedFiles t changed removed = .ok files) :
    files.places =
      (((changed.filter fun p => (LayoutFile.ofPath? p).isSome).map Path.steps ++
        ((changed ++ removed).filterMap LayoutFile.ofPath?).flatMap fun f =>
          (t.variantPlaces f.root f.fileName).filter (· != f.path.steps)).eraseDups).filter
        (· ∉ removed.map Path.steps) := by
  unfold affectedFiles at h
  dsimp only at h
  split at h
  · rename_i ps hps
    have hmap : ps.map Path.steps = ((changed ++ removed).filterMap LayoutFile.ofPath?).flatMap
        fun f => (t.variantPlaces f.root f.fileName).filter (· != f.path.steps) := by
      rw [gather_eq_flatMap (fun f _ _ hf => siblingVariants_eq ht hf) hps, List.map_flatMap]
      refine List.flatMap_congr fun f hf => ?_
      obtain ⟨p, -, hp⟩ := List.mem_filterMap.1 hf
      exact places_siblingVariants ht hp
    rw [← Except.ok.inj h, PathSet.places_foldl_erase, PathSet.places_ofList, List.map_append, hmap]
  · cases h

/-- **The files to read again** after some files changed and others disappeared are the variants
of all of them. -/
theorem mem_affectedFiles {t : Tree} (ht : t.Spelled) {changed removed : List Path}
    (hchanged : ∀ p ∈ changed, t.hasFile p.location = true)
    (hremoved : ∀ p ∈ removed, t.hasFile p.location = false) {files : PathSet}
    (h : affectedFiles t changed removed = .ok files) {k : List Step} :
    k ∈ files.places ↔ ∃ p ∈ changed ++ removed, ∃ f, LayoutFile.ofPath? p = some f ∧
      k ∈ t.variantPlaces f.root f.fileName := by
  rw [affectedFiles_eq ht h, List.mem_filter, List.mem_eraseDups, List.mem_append]
  simp only [List.mem_map, List.mem_filter, List.mem_flatMap, List.mem_filterMap,
    decide_eq_true_eq, bne_iff_ne]
  constructor
  · rintro ⟨⟨p, ⟨hp, hlayout⟩, rfl⟩ | ⟨f, ⟨p, hp, hf⟩, hk, -⟩, -⟩
    · obtain ⟨f, hf⟩ := Option.isSome_iff_exists.1 hlayout
      obtain ⟨hv, hsteps⟩ := LayoutFile.steps_of_ofPath? hf
      have hfile := hchanged p hp
      rw [LayoutFile.location_of_ofPath? hf] at hfile
      exact ⟨p, List.mem_append_left _ hp, f, hf,
        (Tree.mem_variantPlaces ht).2 ⟨_, hv, hsteps, hfile⟩⟩
    · exact ⟨p, hp, f, hf, hk⟩
  · rintro ⟨p, hp, f, hf, hk⟩
    obtain ⟨v, hv, hsteps, hfile⟩ := (Tree.mem_variantPlaces ht).1 hk
    have hgone {q : Path} (hq : q ∈ removed) : q.steps ≠ k := fun h => by
      have hloc : q.location = f.root.location ++ [.name v, .name f.fileName] :=
        Path.location_eq_of_steps (h.trans hsteps) (by simp)
      rw [← hloc, hremoved q hq] at hfile
      cases hfile
    refine ⟨?_, fun ⟨q, hq, hqk⟩ => hgone hq hqk⟩
    by_cases hself : k = f.path.steps
    · have hpath : f.path = p := LayoutFile.path_of_ofPath? hf
      rw [hpath] at hself
      refine Or.inl ⟨p, ⟨?_, Option.isSome_iff_exists.2 ⟨f, hf⟩⟩, hself.symm⟩
      exact (List.mem_append.1 hp).resolve_right fun hp => hgone hp hself.symm
    · exact Or.inr ⟨f, ⟨p, hp, hf⟩, hk, hself⟩

end ViewHolder
