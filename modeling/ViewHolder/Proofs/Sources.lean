import Mathlib.Data.List.Count
import Mathlib.Data.List.Nodup
import ViewHolder.Compile.Options
import ViewHolder.Proofs.Listing

/-!
# The sources of one resource root

Where every file in the variant directories of a resource root is the source of a layout, the
variants of a layout are read in listing order by a full run, and the reported ones first by an
incremental run.

## Main definitions

* `Tree.OnlySources` : the variant directories of a root hold sources of layouts only.
* `IsListed` : a source of a layout, spelled as the listing of its root spells it.
* `IsReport` : a report of changed and of removed files, all of them listed.
* `reportedFirst` : the reported places in the order of the report, then the other listed ones.

## Main results

* `listed_variants` : the variants that a full run reads.
* `affected_variants` : the variants that an incremental run reads.
-/

namespace ViewHolder

/-! ### Trees of sources -/

namespace Tree

/-- The variant directories of a root hold sources of layouts only, none of them hidden and none of
them a directory as well: a listing would show the directory and not the source. -/
def OnlySources (t : Tree) (r : Path) : Prop :=
  ∀ v s, isVariantName v = true → t.hasFile (r.location ++ [.name v, s]) = true →
    t.hasDir (r.location ++ [.name v, s]) = false ∧
      ∃ n, s = .name (sourceName n) ∧ isHiddenName (sourceName n) = false

/-- Some variant of a layout is there. -/
def HasLayout (t : Tree) (r : Path) (n : String) : Prop :=
  ∃ v, isVariantName v = true ∧
    t.hasFile (r.location ++ [.name v, .name (sourceName n)]) = true

variable {t : Tree} {r : Path}

theorem OnlySources.not_hidden (h : t.OnlySources r) {n : String} (hn : t.HasLayout r n) :
    isHiddenName (sourceName n) = false := by
  obtain ⟨v, hv, hfile⟩ := hn
  obtain ⟨-, m, hm, hhidden⟩ := h v _ hv hfile
  rwa [Step.name.inj hm]

/-- A tree of sources of one layout has no other layout. -/
theorem HasLayout.eq_of_files {m n : String} (h : t.HasLayout r n)
    (hfiles : ∀ f ∈ t.files, f.1.getLast? = some (.name (sourceName m))) : n = m := by
  obtain ⟨v, -, hfile⟩ := h
  obtain ⟨f, hf, hl⟩ := hasFile_iff_mem.1 hfile
  have hlast := hfiles f hf
  simpa [hl, sourceName_injective.eq_iff] using hlast

theorem hasLayout_of_mem_variantPlaces (ht : t.Spelled) {n : String} {k : List Step}
    (hk : k ∈ t.variantPlaces r (sourceName n)) : t.HasLayout r n := by
  obtain ⟨v, hv, -, hfile⟩ := (mem_variantPlaces ht).1 hk
  exact ⟨v, hv, hfile⟩

/-- The variant directory and the step below it, if a location lies directly in a variant directory
of a root. -/
def variantStep? (r : Path) (l : Location) : Option (String × Step) :=
  if r.location.isPrefixOf l then
    match l.drop r.location.length with
    | [.name v, s] => if isVariantName v then some (v, s) else none
    | _ => none
  else none

theorem variantStep?_eq_some {l : Location} {v : String} {s : Step} :
    variantStep? r l = some (v, s) ↔ isVariantName v = true ∧ l = r.location ++ [.name v, s] := by
  unfold variantStep?
  constructor
  · intro h
    split at h
    · rename_i hpre
      obtain ⟨m, rfl⟩ := List.isPrefixOf_iff_prefix.1 hpre
      rw [List.drop_left] at h
      split at h
      · split at h
        · rename_i hv
          obtain ⟨rfl, rfl⟩ := Prod.ext_iff.1 (Option.some.inj h)
          exact ⟨hv, rfl⟩
        · cases h
      · cases h
    · cases h
  · rintro ⟨hv, rfl⟩
    rw [if_pos (List.isPrefixOf_iff_prefix.2 (List.prefix_append _ _)), List.drop_left]
    exact if_pos hv

/-- What holds of the files in variant directories can be read off the files of the tree. -/
theorem forall_variantFile_iff {P : String → Step → Prop} :
    (∀ v s, isVariantName v = true → t.hasFile (r.location ++ [.name v, s]) = true → P v s) ↔
      ∀ f ∈ t.files, ∀ x ∈ variantStep? r f.1, P x.1 x.2 := by
  constructor
  · rintro h f hf ⟨v, s⟩ hx
    obtain ⟨hv, hl⟩ := variantStep?_eq_some.1 hx
    exact h v s hv (hasFile_iff_mem.2 ⟨f, hf, hl⟩)
  · intro h v s hv hfile
    obtain ⟨f, hf, hl⟩ := hasFile_iff_mem.1 hfile
    exact h f hf (v, s) (variantStep?_eq_some.2 ⟨hv, hl⟩)

/-- A step is the source of a layout exactly if it is that of the layout of its stem. -/
theorem isSource_iff {s : Step} :
    (∃ n, s = .name (sourceName n) ∧ isHiddenName (sourceName n) = false) ↔
      s = .name (sourceName (Path.stemAt [s])) ∧
        isHiddenName (sourceName (Path.stemAt [s])) = false := by
  refine ⟨?_, fun h => ⟨_, h⟩⟩
  rintro ⟨n, rfl, hn⟩
  rw [show [Step.name (sourceName n)] = [] ++ [.name (sourceName n)] from rfl,
    Path.stemAt_sourceName hn]
  exact ⟨rfl, hn⟩

instance (s : Step) :
    Decidable (∃ n, s = .name (sourceName n) ∧ isHiddenName (sourceName n) = false) :=
  decidable_of_iff' _ isSource_iff

instance (t : Tree) (r : Path) : Decidable (t.OnlySources r) :=
  decidable_of_iff' _ forall_variantFile_iff

/-- A name below a location that is no directory is a file. -/
theorem exists_file_of_mem_children {l : Location} {x : String} (h : (x, false) ∈ t.children l) :
    ∃ s : Step, s.text = x ∧ t.hasFile (l ++ [s]) = true := by
  obtain ⟨b, hb⟩ := mem_children_name.1 ⟨false, h⟩
  cases b with
  | true => cases children_unique h (mem_children_true.2 hb)
  | false =>
    obtain ⟨s, rest, hs, hfile⟩ := mem_members.1 hb
    obtain ⟨hfile, hrest⟩ := hfile.resolve_right fun h => Bool.false_ne_true h.2
    obtain rfl : rest = [] := by simpa using hrest
    exact ⟨s, hs, hfile⟩

/-- The files that a variant directory shows are sources. -/
theorem OnlySources.of_mem_children (h : t.OnlySources r) {v x : String}
    (hv : isVariantName v = true) (hx : (x, false) ∈ t.children (r.location ++ [.name v])) :
    ∃ n, x = sourceName n ∧ isHiddenName (sourceName n) = false ∧
      t.hasFile (r.location ++ [.name v, .name (sourceName n)]) = true := by
  obtain ⟨s, rfl, hfile⟩ := exists_file_of_mem_children hx
  rw [List.append_assoc, List.singleton_append] at hfile
  obtain ⟨-, n, rfl, hhidden⟩ := h v s hv hfile
  exact ⟨n, rfl, hhidden, hfile⟩

end Tree

/-! ### Listed variants -/

/-- A list that is found once or several times is found once without repetitions. -/
theorem eraseDups_flatMap_eq {α β : Type} [BEq β] [LawfulBEq β] {l : List α} {g : α → List β}
    {w : List β} (hw : w.Nodup) (hg : ∀ a ∈ l, g a = w ∨ g a = []) (hl : ∃ a ∈ l, g a = w) :
    (l.flatMap g).eraseDups = w := by
  induction l with
  | nil =>
    obtain ⟨a, ha, -⟩ := hl
    cases ha
  | cons a l ih =>
    have hrest : ∀ b ∈ l, g b = w ∨ g b = [] := fun b hb => hg b (List.mem_cons_of_mem a hb)
    rw [List.flatMap_cons]
    rcases hg a List.mem_cons_self with ha | ha
    · have hgone : (l.flatMap g).removeAll w = [] := by
        refine List.filter_eq_nil_iff.2 fun c hc => ?_
        obtain ⟨b, hb, hcb⟩ := List.mem_flatMap.1 hc
        rcases hrest b hb with hgb | hgb
        · simpa [hgb] using hcb
        · simp [hgb] at hcb
      rw [ha, List.eraseDups_append, eraseDups_of_nodup hw, hgone, List.eraseDups_nil,
        List.append_nil]
    · rw [ha, List.nil_append]
      by_cases hex : ∃ b ∈ l, g b = w
      · exact ih hrest hex
      · obtain ⟨b, hb, hgb⟩ := hl
        obtain rfl : b = a := (List.mem_cons.1 hb).resolve_right fun hb => hex ⟨b, hb, hgb⟩
        obtain rfl : w = [] := hgb.symm.trans ha
        rw [List.flatMap_eq_nil_iff.2 fun c hc => (hrest c hc).elim id id, List.eraseDups_nil]

section

variable {t : Tree} {r : Path} {n : String}

/-- A variant directory shows one file of a layout, if it has one. -/
private theorem shown_variant (ht : t.Spelled) (hsources : t.OnlySources r) {v : String}
    (hv : v ∈ t.variantNames r.location) :
    ((t.shownFiles (r.join ⟨v⟩)).map Path.steps).filter (Path.stemAt · == n) =
      if t.hasFile (r.location ++ [.name v, .name (sourceName n)]) = true then
        [r.steps ++ [.name v, .name (sourceName n)]] else [] := by
  obtain ⟨hvariant, hname, -⟩ := (Tree.mem_variantNames ht).1 hv
  have hloc : (r.join ⟨v⟩).location = r.location ++ [.name v] := Path.location_join_name hname r
  have hnodup : (t.children (r.location ++ [.name v])).Nodup :=
    (t.children_ascending _).imp fun hlt heq => String.ne_of_lt hlt (congrArg Prod.fst heq)
  have hsteps : (r.join ⟨v⟩).steps = r.steps ++ [.name v] := Path.steps_join_name hname r
  generalize r.join ⟨v⟩ = dir at hloc hsteps ⊢
  have hpick : ((t.children (r.location ++ [.name v])).filter fun c =>
      !c.2 && !isHiddenName (Entry.below dir c).name).filter
        (fun c => Path.stemAt (dir.join ⟨c.1⟩).steps == n) =
      (t.children (r.location ++ [.name v])).filter (· == (sourceName n, false)) := by
    rw [List.filter_filter]
    refine List.filter_congr fun c hc => ?_
    obtain ⟨x, b⟩ := c
    cases b with
    | true => simp
    | false =>
      obtain ⟨m, rfl, hhidden, hfile⟩ := hsources.of_mem_children hvariant hc
      have hx : IsEntryName (sourceName m) := ht.isEntryName hfile (by simp)
      rw [← hloc] at hc
      rw [Entry.name_below ht hc, if_pos hx, hhidden, Path.steps_join_name hx,
        Path.stemAt_sourceName hhidden]
      simp [sourceName_injective.eq_iff]
  simp only [Tree.shownFiles, hloc, List.map_map, List.filter_map, Function.comp_def]
  rw [hpick, List.filter_beq, hnodup.count, List.map_replicate]
  by_cases hfile : t.hasFile (r.location ++ [.name v, .name (sourceName n)]) = true
  · have hx : IsEntryName (sourceName n) := ht.isEntryName hfile (by simp)
    have hmem : (sourceName n, false) ∈ t.children (r.location ++ [.name v]) := by
      have hnodir := (hsources v _ hvariant hfile).1
      rw [← List.singleton_append, ← List.append_assoc] at hfile hnodir
      exact (Tree.mem_children ht (Step.isSegment_name.2 hx)).2 ⟨Or.inl hfile, hnodir.symm⟩
    rw [if_pos hmem, if_pos hfile, List.replicate_one, Path.steps_join_name hx, hsteps,
      List.append_assoc, List.singleton_append]
  · have hmem : (sourceName n, false) ∉ t.children (r.location ++ [.name v]) := fun hmem => by
      obtain ⟨m, hm, -, hthere⟩ := hsources.of_mem_children hvariant hmem
      exact hfile (sourceName_injective hm ▸ hthere)
    rw [if_neg hmem, if_neg hfile, List.replicate_zero]

private theorem flatMap_ite_singleton {α β : Type} (p : α → Bool) (g : α → β) (l : List α) :
    (l.flatMap fun a => if p a = true then [g a] else []) = (l.filter p).map g := by
  induction l with
  | nil => rfl
  | cons a l ih =>
    rw [List.flatMap_cons, ih]
    cases ha : p a <;> simp [ha]

/-- **A full run reads the variants of a layout in listing order.** -/
theorem listed_variants (ht : t.Spelled) (hsources : t.OnlySources r) {files : PathSet}
    (h : allLayoutFiles t [r] = .ok files) :
    files.places.filter (Path.stemAt · == n) = t.variantPlaces r (sourceName n) := by
  have hshown : ((t.variantNames r.location).flatMap fun v =>
      ((t.shownFiles (r.join ⟨v⟩)).map Path.steps).filter (Path.stemAt · == n)) =
        t.variantPlaces r (sourceName n) := by
    rw [List.flatMap_congr fun v hv => shown_variant ht hsources hv, flatMap_ite_singleton]
    rfl
  rw [allLayoutFiles_eq ht h, PathSet.places_ofList, filter_eraseDups, List.flatMap_singleton,
    List.map_flatMap, List.filter_flatMap, hshown, eraseDups_of_nodup (t.variantPlaces_nodup r _)]

end

/-! ### Affected variants -/

/-- A source of a layout that is not hidden, spelled as the listing of its root spells it. -/
def IsListed (r p : Path) : Prop :=
  ∃ v n, isVariantName v = true ∧ isHiddenName (sourceName n) = false ∧
    p.steps = r.steps ++ [.name v, .name (sourceName n)]

/-- The reported places in the order of the report, then the other listed ones. -/
def reportedFirst (reported listed : List (List Step)) : List (List Step) :=
  (reported.filter (· ∈ listed)).eraseDups ++ listed.filter (· ∉ reported)

theorem mem_reportedFirst {reported listed : List (List Step)} {k : List Step} :
    k ∈ reportedFirst reported listed ↔ k ∈ listed := by
  simp only [reportedFirst, List.mem_append, List.mem_eraseDups, List.mem_filter,
    decide_eq_true_eq]
  tauto

/-- A report of changes: listed files, the changed ones there and the removed ones gone. -/
structure IsReport (t : Tree) (r : Path) (changed removed : List Path) : Prop where
  /-- The changed files are there. -/
  changed : ∀ p ∈ changed, IsListed r p ∧ t.hasFile p.location = true
  /-- The removed files are gone. -/
  removed : ∀ p ∈ removed, IsListed r p ∧ t.hasFile p.location = false

theorem IsReport.hasFile {t : Tree} {r : Path} {changed removed : List Path}
    (h : IsReport t r changed removed) : ∀ p ∈ changed, t.hasFile p.location = true :=
  fun p hp => (h.changed p hp).2

theorem IsReport.gone {t : Tree} {r : Path} {changed removed : List Path}
    (h : IsReport t r changed removed) : ∀ p ∈ removed, t.hasFile p.location = false :=
  fun p hp => (h.removed p hp).2

namespace IsListed

variable {r p : Path} (h : IsListed r p)
include h

/-- The last two steps of a listed path. -/
theorem steps_eq : isHiddenName (sourceName p.stem) = false ∧ ∃ v, isVariantName v = true ∧
    p.steps = r.steps ++ [.name v, .name (sourceName p.stem)] := by
  obtain ⟨v, n, hv, hn, hsteps⟩ := h
  have hsplit : p.steps = r.steps ++ [.name v] ++ [.name (sourceName n)] := by simpa using hsteps
  obtain rfl : p.stem = n := by
    rw [Path.stem_eq_stemAt, hsplit, Path.stemAt_sourceName hn]
  exact ⟨hn, v, hv, hsteps⟩

theorem exists_ofPath? : ∃ f, LayoutFile.ofPath? p = some f ∧
    f.root.steps = r.steps ∧ f.fileName = sourceName p.stem ∧ f.path = p := by
  obtain ⟨-, v, hv, hsteps⟩ := h.steps_eq
  obtain ⟨f, hf, -, hx, hroot⟩ := LayoutFile.exists_ofPath? hsteps hv
  exact ⟨f, hf, hroot, hx, LayoutFile.path_of_ofPath? hf⟩

end IsListed

theorem stemAt_of_mem_variantPlaces {t : Tree} {r : Path} {n : String} (ht : t.Spelled)
    (hn : isHiddenName (sourceName n) = false) {k : List Step}
    (hk : k ∈ t.variantPlaces r (sourceName n)) : Path.stemAt k = n := by
  obtain ⟨v, -, rfl, -⟩ := (Tree.mem_variantPlaces ht).1 hk
  have hsplit : r.steps ++ [.name v, .name (sourceName n)] =
      r.steps ++ [.name v] ++ [.name (sourceName n)] := by simp
  rw [hsplit, Path.stemAt_sourceName hn]

private theorem flatMap_filterMap {α β γ : Type} (f : α → Option β) (g : β → List γ)
    (l : List α) : (l.filterMap f).flatMap g = l.flatMap fun a => ((f a).map g).getD [] := by
  induction l with
  | nil => rfl
  | cons a l ih =>
    rw [List.flatMap_cons, ← ih]
    cases ha : f a with
    | none => rw [List.filterMap_cons_none ha]; rfl
    | some b => rw [List.filterMap_cons_some ha, List.flatMap_cons]; rfl

section

variable {t : Tree} {r p : Path} {changed removed : List Path} {files : PathSet} {n : String}
  (ht : t.Spelled)
include ht

/-- A listed file that is there is a variant of its layout. -/
theorem IsListed.mem_variantPlaces (h : IsListed r p) (hfile : t.hasFile p.location = true) :
    p.steps ∈ t.variantPlaces r (sourceName n) ↔ p.stem = n := by
  obtain ⟨-, v, hv, hsteps⟩ := h.steps_eq
  rw [Tree.mem_variantPlaces ht]
  constructor
  · rintro ⟨w, -, hw, -⟩
    have hlast := List.append_cancel_left (hsteps.symm.trans hw)
    exact sourceName_injective (by simpa using (List.cons.inj hlast).2)
  · rintro rfl
    refine ⟨v, hv, hsteps, ?_⟩
    rwa [← Path.location_eq_of_steps hsteps (by simp)]

/-- A file that is gone is no variant. -/
theorem notMem_variantPlaces (hfile : t.hasFile p.location = false) :
    p.steps ∉ t.variantPlaces r (sourceName n) := by
  intro hmem
  obtain ⟨w, -, hw, hthere⟩ := (Tree.mem_variantPlaces ht).1 hmem
  rw [← Path.location_eq_of_steps hw (by simp), hfile] at hthere
  cases hthere

variable (hreport : IsReport t r changed removed)
include hreport

omit ht in
theorem IsReport.isListed (hp : p ∈ changed ++ removed) : IsListed r p :=
  (List.mem_append.1 hp).elim (fun hp => (hreport.changed p hp).1) fun hp =>
    (hreport.removed p hp).1

/-- The places of affected files, when all reported files are listed. -/
private theorem places_affected (h : affectedFiles t changed removed = .ok files) :
    files.places = ((changed.map Path.steps ++ (changed ++ removed).flatMap fun p =>
      (t.variantPlaces r (sourceName p.stem)).filter (· != p.steps)).eraseDups).filter
        (· ∉ removed.map Path.steps) := by
  have hdirect : (changed.filter fun p => (LayoutFile.ofPath? p).isSome) = changed :=
    List.filter_eq_self.2 fun p hp => by
      obtain ⟨f, hf, -⟩ := (hreport.changed p hp).1.exists_ofPath?
      simp [hf]
  rw [affectedFiles_eq ht h, hdirect, flatMap_filterMap, List.flatMap_congr fun p hp => ?_]
  obtain ⟨f, hf, hroot, hname, hpath⟩ := (hreport.isListed hp).exists_ofPath?
  rw [hf, Option.map_some, Option.getD_some, t.variantPlaces_congr hroot, hname, hpath]

/-- **An incremental run reads the reported variants of a layout first**, in the order of the
report, and the others in listing order. -/
theorem affected_variants (h : affectedFiles t changed removed = .ok files)
    (hn : ∃ p ∈ changed ++ removed, p.stem = n) :
    files.places.filter (Path.stemAt · == n) =
      reportedFirst (changed.map Path.steps) (t.variantPlaces r (sourceName n)) := by
  have hhidden : isHiddenName (sourceName n) = false := by
    obtain ⟨p, hp, rfl⟩ := hn
    exact (hreport.isListed hp).steps_eq.1
  have hkept {k : List Step} {m : String} (hk : k ∈ t.variantPlaces r (sourceName m)) :
      k ∉ removed.map Path.steps := fun hmem => by
    obtain ⟨p, hp, rfl⟩ := List.mem_map.1 hmem
    exact notMem_variantPlaces ht (hreport.removed p hp).2 hk
  have hdirect : ((changed.map Path.steps).filter fun k =>
      Path.stemAt k == n && decide (k ∉ removed.map Path.steps)) =
        (changed.map Path.steps).filter (· ∈ t.variantPlaces r (sourceName n)) := by
    refine List.filter_congr fun k hk => ?_
    obtain ⟨p, hp, rfl⟩ := List.mem_map.1 hk
    obtain ⟨hp', hfile⟩ := hreport.changed p hp
    have hgone : p.steps ∉ removed.map Path.steps :=
      hkept ((hp'.mem_variantPlaces ht hfile).2 rfl)
    rw [← Path.stem_eq_stemAt, decide_eq_true hgone, Bool.and_true, Bool.eq_iff_iff, beq_iff_eq,
      decide_eq_true_eq, hp'.mem_variantPlaces ht hfile]
  have hothers : (((changed ++ removed).flatMap fun p =>
      (t.variantPlaces r (sourceName p.stem)).filter (· != p.steps)).filter fun k =>
        Path.stemAt k == n && decide (k ∉ removed.map Path.steps)).removeAll
          ((changed.map Path.steps).filter (· ∈ t.variantPlaces r (sourceName n))) =
      (changed ++ removed).flatMap fun p => if p.stem = n then
        (t.variantPlaces r (sourceName n)).filter (· ∉ changed.map Path.steps) else [] := by
    rw [List.removeAll, List.filter_filter, List.filter_flatMap]
    refine List.flatMap_congr fun p hp => ?_
    rw [List.filter_filter]
    split
    · rename_i hpn
      rw [hpn]
      refine List.filter_congr fun k hk => ?_
      have hself : k ∉ changed.map Path.steps → k ≠ p.steps := by
        rintro hnew rfl
        rcases List.mem_append.1 hp with hp | hp
        · exact hnew (List.mem_map_of_mem hp)
        · exact hkept hk (List.mem_map_of_mem hp)
      rw [Bool.eq_iff_iff]
      simp only [stemAt_of_mem_variantPlaces ht hhidden hk, beq_self_eq_true, hkept hk,
        not_false_eq_true, decide_true, Bool.and_true, List.elem_eq_mem, List.mem_filter, hk,
        and_true, Bool.and_eq_true, Bool.not_eq_true', decide_eq_false_iff_not, bne_iff_ne,
        decide_eq_true_eq]
      exact ⟨And.left, fun hnew => ⟨hnew, hself hnew⟩⟩
    · rename_i hpn
      refine List.filter_eq_nil_iff.2 fun k hk => ?_
      rw [stemAt_of_mem_variantPlaces ht (hreport.isListed hp).steps_eq.1 hk]
      simp [hpn]
  rw [places_affected ht hreport h, List.filter_filter, filter_eraseDups,
    List.filter_append, List.eraseDups_append, hdirect, hothers, reportedFirst]
  refine congrArg _ (eraseDups_flatMap_eq ((t.variantPlaces_nodup r _).filter _) ?_ ?_)
  · intro p _
    exact (em (p.stem = n)).imp (fun hp => if_pos hp) fun hp => if_neg hp
  · obtain ⟨p, hp, hpn⟩ := hn
    exact ⟨p, hp, if_pos hpn⟩

end

/-! ### A small project -/

/-- The text of a layout with one view. -/
def sampleText (id : String) : String :=
  "<a xmlns:n=\"http://schemas.android.com/apk/res/android\" n:id=\"@+id/" ++ id ++ "\"/>"

/-- The view of a layout with one view. -/
def sampleView (id : String) : View := ⟨"android.widget.a", id, false, none⟩

/-- The options of a project with one resource root. -/
def sampleOptions : CompileOptions :=
  { package := "com.example", outputDir := ⟨"out"⟩, resDirs := [⟨"res"⟩], pruneStale := true }

/-- A source in the resource root of the project. -/
def sampleFile (variant name : String) : Path :=
  ⟨"res/" ++ variant ++ "/" ++ sourceName name⟩

end ViewHolder
