import ViewHolder.Proofs.Run
import ViewHolder.Proofs.SameListing

/-!
# Successful runs

A run succeeds if it can read its files, if every holder that it makes is up to date or can be
written, and if every holder that it deletes is gone or can be deleted.  These are conditions on the
tree before the run, and each of them is about one file or one holder only.

## Main definitions

* `Tree.Accepts`, `Tree.Releases` : a holder can be made or deleted.
* `HoldersApart` : no holder of some layouts lies at or below some directories.
* `runStale` : the stale layouts of a run.

## Main results

* `exists_writeAll_iff`, `exists_pruneAll_iff` : when a stage succeeds.
* `run_sameBelow` : a run changes nothing at and below directories apart from its holders.
* `exists_run_iff` : when a run succeeds.
* `run_textAt?` : the texts after a successful run.
-/

namespace ViewHolder

section

variable {opts : CompileOptions} {t : Tree}

/-! ### Making holders -/

/-- Holders that are up to date are left alone. -/
theorem writeAll_of_upToDate {ls : List Layout} (h : ∀ l ∈ ls, t.UpToDate opts l) :
    (writeAll opts t ls).store = t ∧ (writeAll opts t ls).result =
      .ok (ls.map fun l => .unchanged (holderPath opts l.name)) := by
  induction ls with
  | nil => exact ⟨rfl, rfl⟩
  | cons l ls ih =>
    obtain ⟨⟨hlazy, htext⟩, hls⟩ := List.forall_mem_cons.1 h
    obtain ⟨hstore, hresult⟩ := ih hls
    have hskip : (!opts.writeUnchanged && holds t (holderPath opts l.name)
        (Holder.source opts.package l)) = true := by
      rw [hlazy, holds_iff.2 htext]
      rfl
    have hstep : writeHolder opts t l = ⟨t, [.unchanged l.name (holderPath opts l.name)],
        .ok (.unchanged (holderPath opts l.name))⟩ := if_pos hskip
    rw [writeAll_cons (by rw [hstep]) (by rw [hstep]; exact hresult), hstep]
    exact ⟨hstore, rfl⟩

/-- No holder lies in the place of the directory of holders. -/
theorem dropLast_holderLocation_ne {m n : String} (hm : '/' ∉ m.toList) (hn : '/' ∉ n.toList) :
    (holderLocation opts m).dropLast ≠ holderLocation opts n := by
  intro h
  have hlength := congrArg List.length h
  rw [holderLocation, holderLocation, location_holderPath hm, location_holderPath hn] at hlength
  simp at hlength

theorem Tree.isOpen_congr {t' : Tree} {l : Location} (hfrozen : t'.frozen = t.frozen)
    (hdir : t'.textAt? l.dropLast = t.textAt? l.dropLast) : t'.IsOpen l ↔ t.IsOpen l := by
  rw [IsOpen, IsOpen, hasFile, hasFile, isFrozen, isFrozen, hfrozen, hdir]

/-- The holder of a layout is made unless it is neither up to date nor can be written. -/
def Tree.Accepts (t : Tree) (opts : CompileOptions) (l : Layout) : Prop :=
  t.UpToDate opts l ∨ t.IsOpen (holderLocation opts l.name)

theorem exists_writeHolder_iff {l : Layout} (hl : '/' ∉ l.name.toList) :
    (∃ output, (writeHolder opts t l).result = .ok output) ↔ t.Accepts opts l := by
  rcases writeHolder_cases hl opts t with
    ⟨hsame, h⟩ | ⟨-, hopen, h⟩ | ⟨hnew, hclosed, e, t', h, -⟩
  · exact iff_of_true ⟨_, by rw [h]⟩ (Or.inl hsame)
  · exact iff_of_true ⟨_, by rw [h]⟩ (Or.inr hopen)
  · rw [h]
    exact iff_of_false (fun ⟨_, h⟩ => nomatch h) (not_or.2 ⟨hnew, hclosed⟩)

/-- Making a holder leaves open what was open, and keeps up to date what shares no holder. -/
private theorem accepts_writeHolder {l m : Layout} (hl : '/' ∉ l.name.toList)
    (hm : '/' ∉ m.name.toList) (haccepts : t.Accepts opts l) :
    (writeHolder opts t l).store.Accepts opts m ↔ t.Accepts opts m := by
  rcases writeHolder_cases hl opts t with ⟨-, h⟩ | ⟨-, hopen, h⟩ | ⟨hnew, hclosed, -⟩
  · rw [h]
  · rw [h]
    have hstill : (t.putHolder (holderLocation opts l.name) (Holder.source opts.package l)).IsOpen
        (holderLocation opts m.name) ↔ t.IsOpen (holderLocation opts m.name) := by
      refine Tree.isOpen_congr rfl ?_
      rw [Tree.textAt?_putHolder, Function.update_of_ne (dropLast_holderLocation_ne hm hl)]
    rw [Tree.Accepts, Tree.Accepts, hstill]
    by_cases hshare : holderLocation opts m.name = holderLocation opts l.name
    · rw [hshare]
      exact iff_of_true (Or.inr hopen) (Or.inr hopen)
    · rw [Tree.UpToDate, Tree.UpToDate, Tree.textAt?_putHolder, Function.update_of_ne hshare]
  · exact absurd haccepts (not_or.2 ⟨hnew, hclosed⟩)

/-- **Writing succeeds** exactly if every holder is up to date or can be written. -/
theorem exists_writeAll_iff {ls : List Layout} (hslash : ∀ l ∈ ls, '/' ∉ l.name.toList) :
    (∃ outputs, (writeAll opts t ls).result = .ok outputs) ↔ ∀ l ∈ ls, t.Accepts opts l :=
  (writeAll_isLoop opts).exists_ok_iff (P := fun t l => t.Accepts opts l)
    (fun l hl _ => exists_writeHolder_iff (hslash l hl))
    fun l hl m hm _ => accepts_writeHolder (hslash l hl) (hslash m hm)

/-! ### Deleting holders -/

/-- The holder of a layout is not there or can be deleted. -/
def Tree.Releases (t : Tree) (l : Location) : Prop := t.hasFile l = true → t.isFrozen l = false

theorem exists_pruneHolder_iff {n : String} :
    (∃ pruned, (pruneHolder opts t n).result = .ok pruned) ↔
      t.Releases (holderLocation opts n) := by
  rcases pruneHolder_cases opts t n with ⟨hgone, h⟩ | ⟨-, hopen, h⟩ | ⟨hfile, hfrozen, e, h⟩
  · rw [h]
    exact iff_of_true ⟨_, rfl⟩ fun hfile => Bool.noConfusion (hgone.symm.trans hfile)
  · rw [h]
    exact iff_of_true ⟨_, rfl⟩ fun _ => hopen
  · rw [h]
    refine iff_of_false (fun ⟨_, h⟩ => nomatch h) fun hopen => ?_
    exact Bool.noConfusion ((hopen hfile).symm.trans hfrozen)

private theorem releases_pruneHolder {m n : String} :
    (pruneHolder opts t n).store.Releases (holderLocation opts m) ↔
      t.Releases (holderLocation opts m) := by
  rcases pruneHolder_cases opts t n with ⟨-, h⟩ | ⟨hfile, hopen, h⟩ | ⟨-, -, e, h⟩
  · rw [h]
  · rw [h]
    by_cases hshare : holderLocation opts m = holderLocation opts n
    · rw [hshare]
      exact iff_of_true (fun _ => hopen) fun _ => hopen
    · rw [Tree.Releases, Tree.Releases, Tree.hasFile, Tree.textAt?_dropFile,
        Function.update_of_ne hshare]
      rfl
  · rw [h]

/-- **Deleting succeeds** exactly if every holder is gone or can be deleted. -/
theorem exists_pruneAll_iff {ns : List String} :
    (∃ pruned, (pruneAll opts t ns).result = .ok pruned) ↔
      ∀ n ∈ ns, t.Releases (holderLocation opts n) :=
  (pruneAll_isLoop opts).exists_ok_iff (P := fun t n => t.Releases (holderLocation opts n))
    (fun _ _ _ => exists_pruneHolder_iff) fun _ _ _ _ _ _ => releases_pruneHolder

/-- Holders that are not there need not be deleted. -/
theorem pruneAll_of_absent {ns : List String}
    (h : ∀ n ∈ ns, t.hasFile (holderLocation opts n) = false) :
    pruneAll opts t ns = ⟨t, [], .ok []⟩ := by
  induction ns with
  | nil => rfl
  | cons n ns ih =>
    obtain ⟨hn, hns⟩ := List.forall_mem_cons.1 h
    have hstep : pruneHolder opts t n = ⟨t, [], .ok []⟩ := by
      rw [pruneHolder]
      exact if_neg (Bool.eq_false_iff.1 hn)
    rw [pruneAll_cons (by rw [hstep]) (by rw [hstep, ih hns]), hstep, ih hns]
    rfl

/-! ### What lies apart from the holders -/

section

variable {root l : Location} (hroot : ¬ root <+: l)
include hroot

theorem Tree.sameBelow_addDir (t : Tree) : SameBelow root t (t.addDir l) := by
  refine .of_dirs rfl (fun _ _ => rfl) fun d hd => ?_
  rw [mem_dirs_addDir, or_iff_right]
  rintro rfl
  exact hroot hd

theorem Tree.sameBelow_putHolder (t : Tree) (text : String) :
    SameBelow root t (t.putHolder l text) := by
  have habove : ¬ root <+: l.dropLast := fun h => hroot (h.trans (List.dropLast_prefix l))
  refine (sameBelow_addDir habove t).trans (.of_dirs rfl (fun k hk => ?_) fun _ _ => Iff.rfl)
  exact (lookup_put l k text t.files).trans (if_neg fun hkl : k = l => hroot (hkl ▸ hk))

theorem Tree.sameBelow_dropFile (t : Tree) : SameBelow root t (t.dropFile l) := by
  refine .of_dirs rfl (fun k hk => ?_) fun _ _ => Iff.rfl
  exact (lookup_filter_ne l k t.files).trans (if_neg fun hkl : k = l => hroot (hkl ▸ hk))

end

/-- Making a holder changes nothing at and below a place that the holder does not lie below. -/
theorem writeHolder_sameBelow {root : Location} {l : Layout} (hl : '/' ∉ l.name.toList)
    (hroot : ¬ root <+: holderLocation opts l.name) (t : Tree) :
    Tree.SameBelow root t (writeHolder opts t l).store := by
  rcases writeHolder_cases hl opts t with ⟨-, h⟩ | ⟨-, -, h⟩ | ⟨-, -, e, t', h, -, rfl | rfl⟩
  · rw [h]
    exact .refl _ t
  · rw [h]
    exact Tree.sameBelow_putHolder hroot t _
  · rw [h]
    exact .refl _ _
  · rw [h]
    exact Tree.sameBelow_addDir (fun h => hroot (h.trans (List.dropLast_prefix _))) t

theorem pruneHolder_sameBelow {root : Location} {n : String}
    (hroot : ¬ root <+: holderLocation opts n) (t : Tree) :
    Tree.SameBelow root t (pruneHolder opts t n).store := by
  rcases pruneHolder_cases opts t n with ⟨-, h⟩ | ⟨-, -, h⟩ | ⟨-, -, e, h⟩
  · rw [h]
    exact .refl _ t
  · rw [h]
    exact Tree.sameBelow_dropFile hroot t
  · rw [h]
    exact .refl _ t

theorem writeHolder_frozen {l : Layout} (hl : '/' ∉ l.name.toList) (t : Tree) :
    (writeHolder opts t l).store.frozen = t.frozen := by
  rcases writeHolder_cases hl opts t with ⟨-, h⟩ | ⟨-, -, h⟩ | ⟨-, -, e, t', h, -, rfl | rfl⟩
  all_goals exact congrArg (fun p => p.store.frozen) h

theorem pruneHolder_frozen (t : Tree) (n : String) :
    (pruneHolder opts t n).store.frozen = t.frozen := by
  rcases pruneHolder_cases opts t n with ⟨-, h⟩ | ⟨-, -, h⟩ | ⟨-, -, e, h⟩
  all_goals exact congrArg (fun p => p.store.frozen) h

/-! ### Runs -/

variable {files : PathSet} {removed : List Path}

/-- No holder of some layouts lies at or below some directories. -/
def HoldersApart (opts : CompileOptions) (names : List String) (dirs : List Path) : Prop :=
  ∀ n ∈ names, ∀ dir ∈ dirs, ¬ dir.location <+: holderLocation opts n

instance (opts : CompileOptions) (names : List String) (dirs : List Path) :
    Decidable (HoldersApart opts names dirs) :=
  inferInstanceAs (Decidable (∀ n ∈ names, ∀ dir ∈ dirs, ¬ dir.location <+: holderLocation opts n))

theorem HoldersApart.mono {names names' : List String} {dirs dirs' : List Path}
    (h : HoldersApart opts names dirs) (hnames : names' ⊆ names) (hdirs : dirs' ⊆ dirs) :
    HoldersApart opts names' dirs' :=
  fun n hn dir hdir => h n (hnames hn) dir (hdirs hdir)

/-- **A run changes nothing at and below directories** that none of its holders lies below. -/
theorem run_sameBelow {dirs : List Path} (hapart : HoldersApart opts (runNames files removed) dirs)
    {dir : Path} (hdir : dir ∈ dirs) (t : Tree) (mode : CompileMode) :
    Tree.SameBelow dir.location t (writeStage opts t files).store ∧
      Tree.SameBelow dir.location t (run opts mode files removed t).store := by
  have hwrite (l : Layout) (hl : l.name ∈ runNames files removed) :=
    writeHolder_sameBelow (slash_notMem_runNames hl) (hapart l.name hl dir hdir)
  have hprune (n : String) (hn : n ∈ runNames files removed) :=
    pruneHolder_sameBelow (hapart n hn dir hdir)
  exact ⟨writeStage_rel (.refl _) (fun _ _ _ => .trans) hwrite t,
    run_rel (.refl _) (fun _ _ _ => .trans) hwrite hprune t mode⟩

/-- A run changes nothing about the listing of directories that none of its holders lies below. -/
theorem run_listed (ht : t.Spelled) {dirs : List Path}
    (hapart : HoldersApart opts (runNames files removed) dirs) (mode : CompileMode) :
    allLayoutFiles (writeStage opts t files).store dirs = allLayoutFiles t dirs ∧
      allLayoutFiles (run opts mode files removed t).store dirs = allLayoutFiles t dirs :=
  ⟨allLayoutFiles_congr ht fun _ hr => (run_sameBelow hapart hr t mode).1,
    allLayoutFiles_congr ht fun _ hr => (run_sameBelow hapart hr t mode).2⟩

/-- A run denies what was denied before. -/
theorem writeStage_frozen (t : Tree) (files : PathSet) :
    (writeStage opts t files).store.frozen = t.frozen :=
  (writeAll_isLoop opts).store_rel (R := fun s s' : Tree => s'.frozen = s.frozen) (fun _ => rfl)
    (fun _ _ _ h h' => h'.trans h) fun _ hl s => writeHolder_frozen (slash_notMem_name hl) s

theorem run_frozen (t : Tree) (mode : CompileMode) (files : PathSet) (removed : List Path) :
    (run opts mode files removed t).store.frozen = t.frozen :=
  run_rel (R := fun s s' : Tree => s'.frozen = s.frozen) (fun _ => rfl)
    (fun _ _ _ h h' => h'.trans h)
    (fun _ hl s => writeHolder_frozen (slash_notMem_runNames hl) s)
    (fun n _ s => pruneHolder_frozen s n) t mode

/-- The stale layouts of a run. -/
def runStale (opts : CompileOptions) (t : Tree) (files : PathSet) (removed : List Path) :
    List String :=
  staleNames (catalogAt t opts files) (catalogAt t opts files).emptyNames removed

/-- **A run succeeds** exactly if all its files can be read, every holder is up to date or can be
written, and every holder to be deleted is gone or can be deleted. -/
theorem exists_run_iff {mode : CompileMode} :
    (∃ report, (run opts mode files removed t).result = .ok report) ↔
      (∀ k ∈ files.places, ∃ l, t.layoutAt? opts k = some l) ∧
      (∀ l ∈ (catalogAt t opts files).filled, t.Accepts opts l) ∧
      ∃ names, unbackedNames opts (writeStage opts t files).store files
          (runStale opts t files removed) removed = .ok names ∧
        ∀ n ∈ names, (writeStage opts t files).store.Releases (holderLocation opts n) := by
  have hwrite : (∃ outputs, (writeStage opts t files).result = .ok outputs) ↔
      ∀ l ∈ (catalogAt t opts files).filled, t.Accepts opts l :=
    exists_writeAll_iff fun l hl => slash_notMem_name hl
  have hprune : (∃ pruned, (pruneStage opts t files removed).result = .ok pruned) ↔
      ∃ names, unbackedNames opts (writeStage opts t files).store files
          (runStale opts t files removed) removed = .ok names ∧
        ∀ n ∈ names, (writeStage opts t files).store.Releases (holderLocation opts n) := by
    rw [pruneStage, prune_eq, ← runStale]
    cases unbackedNames opts (writeStage opts t files).store files (runStale opts t files removed)
      removed with
    | error e => simp
    | ok names => simp [exists_pruneAll_iff]
  rw [← hwrite, ← hprune]
  constructor
  · rintro ⟨report, h⟩
    obtain ⟨hread, outputs, pruned, hwrite, hprune, -⟩ := run_stages h
    exact ⟨hread, ⟨outputs, hwrite⟩, ⟨pruned, hprune⟩⟩
  · rintro ⟨hread, ⟨outputs, hwrite⟩, ⟨pruned, hprune⟩⟩
    exact ⟨_, (run_of_stages mode hread hwrite hprune).1⟩

/-- **The texts after a successful run**: the holders of the layouts with views are put in place, and
then those of the stale layouts that are not backed are deleted. -/
theorem run_textAt? {mode : CompileMode} {report : Report}
    (h : (run opts mode files removed t).result = .ok report) :
    ∃ names, unbackedNames opts (writeStage opts t files).store files
        (runStale opts t files removed) removed = .ok names ∧
      (run opts mode files removed t).store.textAt? = dropHolders opts
        (placeHolders opts t.textAt? (catalogAt t opts files).filled) names := by
  obtain ⟨-, ⟨outputs, hwrite⟩, ⟨pruned, hprune⟩, hstore⟩ := run_eq_ok h
  rw [hstore, ← writeStage_placed hwrite]
  rw [pruneStage, prune_eq, ← runStale] at hprune ⊢
  cases hnames : unbackedNames opts (writeStage opts t files).store files
      (runStale opts t files removed) removed with
  | error e =>
    rw [hnames] at hprune
    cases hprune
  | ok names =>
    rw [hnames] at hprune
    exact ⟨names, rfl, pruneAll_dropped hprune⟩

end

end ViewHolder
