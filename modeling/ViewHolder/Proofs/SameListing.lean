import Mathlib.Data.List.Sort
import ViewHolder.Proofs.AffectedSet

/-!
# What a listing depends on

A listing, and the layout files that are found by listings, depend on the part of a tree at and
below the listed directories only.  Two trees that look the same there give the same answers, and
fail in the same way.

## Main definitions

* `Tree.SameBelow` : trees that look the same at and below a location.

## Main results

* `Tree.SameBelow.list_eq` : a directory at or below the location has the same listing.
* `allLayoutFiles_congr` : the same layout files are found in resource roots.
* `affectedFiles_congr` : the same files are affected by a report.
-/

namespace ViewHolder

/-! ### Names below a location -/

namespace Tree

variable {t t' : Tree} {dir : Location}

/-- The names below a location are told by the files and directories there. -/
theorem children_congr (hfile : ∀ s, t'.hasFile (dir ++ [s]) = t.hasFile (dir ++ [s]))
    (hdir : ∀ s, t'.hasDir (dir ++ [s]) = t.hasDir (dir ++ [s])) :
    t'.children dir = t.children dir := by
  have hname (x : String) : (∃ b, (x, b) ∈ t'.children dir) ↔ ∃ b, (x, b) ∈ t.children dir := by
    simp only [exists_mem_children_iff, hfile, hdir]
  have htrue (x : String) : (x, true) ∈ t'.children dir ↔ (x, true) ∈ t.children dir := by
    simp only [mem_children_true_iff, hdir]
  -- A name that is no directory in one tree is listed in the other, and no directory there either.
  have hsub {t t' : Tree} (hname : ∀ x, (∃ b, (x, b) ∈ t.children dir) → ∃ b, (x, b) ∈
      t'.children dir) (htrue : ∀ x, (x, true) ∈ t'.children dir ↔ (x, true) ∈ t.children dir) :
      t.children dir ⊆ t'.children dir := by
    rintro ⟨x, b⟩ hb
    cases b with
    | true => exact (htrue x).2 hb
    | false =>
      obtain ⟨b', hb'⟩ := hname x ⟨false, hb⟩
      cases b' with
      | false => exact hb'
      | true => cases children_unique hb ((htrue x).1 hb')
  have hirrefl : Std.Irrefl fun a b : String × Bool => a.1 < b.1 := ⟨fun a => String.lt_irrefl a.1⟩
  have hantisymm : Std.Antisymm fun a b : String × Bool => a.1 < b.1 :=
    ⟨fun a b h h' => absurd (String.lt_trans h h') (String.lt_irrefl a.1)⟩
  exact List.Subset.antisymm_of_pairwise (t'.children_ascending dir) (t.children_ascending dir)
    (hsub (fun x => (hname x).1) fun x => (htrue x).symm)
    (hsub (fun x => (hname x).2) htrue)

end Tree

/-! ### Trees that look the same -/

/-- Trees that look the same at and below a location: the same listings are denied, and the same
files, texts and directories are there. -/
structure Tree.SameBelow (l : Location) (t t' : Tree) : Prop where
  /-- The same listings are denied. -/
  unlistable : t'.unlistable = t.unlistable
  /-- The same files with the same texts are there. -/
  textAt : ∀ k, l <+: k → t'.textAt? k = t.textAt? k
  /-- The same directories are there. -/
  hasDir : ∀ k, l <+: k → t'.hasDir k = t.hasDir k

namespace Tree.SameBelow

variable {l : Location} {t t' : Tree}

theorem refl (l : Location) (t : Tree) : SameBelow l t t := ⟨rfl, fun _ _ => rfl, fun _ _ => rfl⟩

theorem symm (h : SameBelow l t t') : SameBelow l t' t :=
  ⟨h.unlistable.symm, fun k hk => (h.textAt k hk).symm, fun k hk => (h.hasDir k hk).symm⟩

theorem trans {t'' : Tree} (h : SameBelow l t t') (h' : SameBelow l t' t'') : SameBelow l t t'' :=
  ⟨h'.unlistable.trans h.unlistable, fun k hk => (h'.textAt k hk).trans (h.textAt k hk),
    fun k hk => (h'.hasDir k hk).trans (h.hasDir k hk)⟩

/-- Trees with the same files and the same created directories below a location look the same
there. -/
theorem of_dirs (hlist : t'.unlistable = t.unlistable)
    (htext : ∀ k, l <+: k → t'.textAt? k = t.textAt? k)
    (hdirs : ∀ d, l <+: d → (d ∈ t'.dirs ↔ d ∈ t.dirs)) : SameBelow l t t' := by
  refine ⟨hlist, htext, fun k hk => Bool.eq_iff_iff.2 ?_⟩
  rw [hasDir_iff, hasDir_iff]
  refine or_congr Iff.rfl (or_congr (exists_congr fun d => ?_) (exists_congr fun m => ?_))
  · exact and_congr_left fun hkd => hdirs d (hk.trans hkd)
  · rw [and_congr_left_iff]
    rintro ⟨-, hkm⟩
    rw [hasFile, hasFile, htext m (hk.trans hkm)]

variable (h : SameBelow l t t')
include h

theorem hasFile_eq {k : Location} (hk : l <+: k) : t'.hasFile k = t.hasFile k := by
  rw [hasFile, hasFile, h.textAt k hk]

/-- **The listing of a directory** at or below the location is the same. -/
theorem list_eq {dir : Path} (hdir : l <+: dir.location) : t'.list dir = t.list dir := by
  have hbelow (s : Step) : l <+: dir.location ++ [s] := hdir.trans (List.prefix_append _ _)
  have hchildren : t'.children dir.location = t.children dir.location :=
    children_congr (fun s => h.hasFile_eq (hbelow s)) fun s => h.hasDir _ (hbelow s)
  rw [list, list, h.unlistable, h.hasFile_eq hdir, h.hasDir _ hdir, hchildren]

theorem listMembers_eq {dir : Path} (hdir : l <+: dir.location) (p : Entry → Bool) :
    listMembers t' dir p = listMembers t dir p := by
  have hlist : Store.list t' dir = Store.list t dir := h.list_eq hdir
  rw [listMembers, listMembers, Store.listIfPresent, Store.listIfPresent, hlist]

theorem filesOfVariant_eq {dir : Path} (hdir : l <+: dir.location) :
    filesOfVariant t' dir = filesOfVariant t dir := by
  rw [filesOfVariant, filesOfVariant, h.listMembers_eq hdir]

end Tree.SameBelow

/-! ### Layout files -/

theorem gather_congr {ε α β : Type} {step step' : α → Except ε (List β)} {as : List α}
    (h : ∀ a ∈ as, step' a = step a) : gather step' as = gather step as := by
  induction as with
  | nil => rfl
  | cons a as ih =>
    obtain ⟨ha, has⟩ := List.forall_mem_cons.1 h
    rw [gather, gather, ha, ih has]

section

variable {t t' : Tree} (ht : t.Spelled)
include ht

/-- The variant directories that a listing shows lie below the listed directory. -/
theorem location_of_variant {dir : Path} {es : List Entry} {q : Entry → Bool}
    (hes : listMembers t dir (fun e => e.isDir && q e) = .ok es)
    (hq : ∀ e, q e = true → isVariantName e.name = true) {e : Entry} (he : e ∈ es) :
    IsEntryName e.name ∧ e.path.location = dir.location ++ [.name e.name] := by
  rw [listMembers_eq hes] at he
  obtain ⟨c, hc, rfl⟩ := List.mem_map.1 he
  obtain ⟨hmem, hkind⟩ := List.mem_filter.1 hc
  have hvariant := hq _ (Bool.and_eq_true_iff.1 hkind).2
  have hname : (Entry.below dir c).name = c.1 ∧ IsEntryName c.1 := by
    have hbelow := Entry.name_below ht hmem
    by_cases hc : IsEntryName c.1
    · exact ⟨hbelow.trans (if_pos hc), hc⟩
    · rw [hbelow.trans (if_neg hc)] at hvariant
      exact absurd hvariant (by decide +kernel)
  rw [hname.1]
  exact ⟨hname.2, Path.location_join_name hname.2 dir⟩

theorem filesOfRoot_congr {r : Path} (h : Tree.SameBelow r.location t t') :
    filesOfRoot t' r = filesOfRoot t r := by
  rw [filesOfRoot, filesOfRoot, h.listMembers_eq List.prefix_rfl]
  split
  · rename_i es hes
    refine gather_congr fun e he => h.filesOfVariant_eq ?_
    rw [(location_of_variant ht (q := fun e => isVariantName e.name) hes (fun _ => id) he).2]
    exact List.prefix_append _ _
  · rfl

/-- **The layout files of resource roots** depend on the tree at and below these roots only. -/
theorem allLayoutFiles_congr {roots : List Path}
    (h : ∀ r ∈ roots, Tree.SameBelow r.location t t') :
    allLayoutFiles t' roots = allLayoutFiles t roots := by
  rw [allLayoutFiles, allLayoutFiles, gather_congr fun r hr => filesOfRoot_congr ht (h r hr)]

theorem siblingVariants_congr {p : Path} {f : LayoutFile} (hf : LayoutFile.ofPath? p = some f)
    (h : Tree.SameBelow f.root.location t t') : siblingVariants t' f = siblingVariants t f := by
  have hroot : f.root.location <+: f.listingRoot.location := by
    rw [f.location_listingRoot]
  rw [siblingVariants, siblingVariants, h.listMembers_eq hroot]
  split
  · rename_i es hes
    refine congrArg Except.ok (List.filter_congr fun q hq => ?_)
    obtain ⟨e, he, rfl⟩ := List.mem_map.1 hq
    have hname := (location_of_variant ht (q := fun e => f.isSiblingVariant e.name) hes
      (fun _ hv => (Bool.and_eq_true_iff.1 hv).1) he).1
    have hloc : (f.inVariant e.name).location =
        f.root.location ++ [.name e.name, .name f.fileName] :=
      Path.location_eq_of_steps (LayoutFile.steps_inVariant hf hname) (by simp)
    refine h.hasFile_eq (k := (f.inVariant e.name).location) ?_
    rw [hloc]
    exact List.prefix_append _ _
  · rfl

/-- **The affected files** depend on the tree at and below the resource roots of the touched layout
files only. -/
theorem affectedFiles_congr {changed removed : List Path}
    (h : ∀ f ∈ touchedFiles changed removed, Tree.SameBelow f.root.location t t') :
    affectedFiles t' changed removed = affectedFiles t changed removed := by
  have hsame : gather (siblingVariants t') ((changed ++ removed).filterMap LayoutFile.ofPath?) =
      gather (siblingVariants t) ((changed ++ removed).filterMap LayoutFile.ofPath?) := by
    refine gather_congr fun f hf => ?_
    obtain ⟨p, -, hp⟩ := List.mem_filterMap.1 hf
    exact siblingVariants_congr ht hp (h f hf)
  rw [affectedFiles, affectedFiles, hsame]

end

end ViewHolder
