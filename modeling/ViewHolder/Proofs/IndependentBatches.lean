import ViewHolder.Proofs.BatchParts
import ViewHolder.Proofs.Edits

/-!
# Independent batches

Two batches of reported files are independent if no layout of the one shares its class name with a
layout of the other.  As long as no holder comes to lie in a resource root, the runs after the two
batches may trade places, and one run after both batches does the same: the holders of the layouts
of either batch end up as the run after this batch alone leaves them.

## Main definitions

* `Independent` : runs over files of different layouts that leave each other's files alone.
* `Tree.IsJoin` : a tree that holds what two other trees hold of some layouts each.

## Main results

* `Independent.exists_run_join` : a run that follows on an independent one.
* `compileIncremental_independent` : independent batches commute and may be joined.
-/

namespace ViewHolder

/-! ### Joined trees -/

/-- A tree that has the holders of some layouts from one tree and those of others from another, and
is otherwise what both came from. -/
structure Tree.IsJoin (opts : CompileOptions) (names₁ names₂ : List String) (t t₁ t₂ t' : Tree) :
    Prop where
  /-- The holders of the first layouts come from the first tree. -/
  left : ∀ n ∈ names₁, t'.textAt? (holderLocation opts n) = t₁.textAt? (holderLocation opts n)
  /-- The holders of the second layouts come from the second tree. -/
  right : ∀ n ∈ names₂, t'.textAt? (holderLocation opts n) = t₂.textAt? (holderLocation opts n)
  /-- No other file has changed. -/
  rest : ∀ k, (∀ n ∈ names₁ ++ names₂, k ≠ holderLocation opts n) → t'.textAt? k = t.textAt? k

namespace Tree.IsJoin

variable {opts : CompileOptions} {names₁ names₂ : List String} {t t₁ t₂ t' t'' : Tree}

theorem symm (h : IsJoin opts names₁ names₂ t t₁ t₂ t') : IsJoin opts names₂ names₁ t t₂ t₁ t' := by
  refine ⟨h.right, h.left, fun k hk => h.rest k fun n hn => hk n ?_⟩
  exact List.mem_append.2 (List.mem_append.1 hn).symm

/-- Two joins of the same trees hold the same files. -/
theorem textAt?_eq (h : IsJoin opts names₁ names₂ t t₁ t₂ t')
    (h' : IsJoin opts names₁ names₂ t t₁ t₂ t'') : t''.textAt? = t'.textAt? := by
  funext k
  by_cases hk : ∃ n ∈ names₁ ++ names₂, k = holderLocation opts n
  · obtain ⟨n, hn, hk⟩ := hk
    rw [hk]
    rcases List.mem_append.1 hn with hn | hn
    · rw [h.left n hn, h'.left n hn]
    · rw [h.right n hn, h'.right n hn]
  · have hne : ∀ n ∈ names₁ ++ names₂, k ≠ holderLocation opts n := fun n hn heq => hk ⟨n, hn, heq⟩
    rw [h.rest k hne, h'.rest k hne]

end Tree.IsJoin

/-! ### Independent runs -/

/-- Two runs over files in variant directories that share no holder, none of whose holders lies in a
resource root of the project. -/
structure Independent (opts : CompileOptions) (files₁ : PathSet) (removed₁ : List Path)
    (files₂ : PathSet) (removed₂ : List Path) : Prop where
  /-- The files of the first run lie in variant directories. -/
  variants₁ : ∀ k ∈ files₁.places, IsVariantPlace k
  /-- The files of the second run lie in variant directories. -/
  variants₂ : ∀ k ∈ files₂.places, IsVariantPlace k
  /-- The runs share no holder. -/
  disjoint : ∀ m ∈ runNames files₁ removed₁, ∀ n ∈ runNames files₂ removed₂,
    holderLocation opts m ≠ holderLocation opts n
  /-- No holder of the first run lies in a resource root. -/
  apart₁ : HoldersApart opts (runNames files₁ removed₁) opts.resDirs
  /-- No holder of the second run lies in a resource root. -/
  apart₂ : HoldersApart opts (runNames files₂ removed₂) opts.resDirs

namespace Independent

variable {opts : CompileOptions} {t : Tree} {files₁ files₂ : PathSet} {removed₁ removed₂ : List Path}
  (h : Independent opts files₁ removed₁ files₂ removed₂)
include h

theorem symm : Independent opts files₂ removed₂ files₁ removed₁ :=
  ⟨h.variants₂, h.variants₁, fun n hn m hm => (h.disjoint m hm n hn).symm, h.apart₂, h.apart₁⟩

/-- A run leaves the holders of an independent one alone. -/
theorem textAt?_run {n : String} (hn : n ∈ runNames files₂ removed₂) (mode : CompileMode) (t : Tree) :
    (run opts mode files₁ removed₁ t).store.textAt? (holderLocation opts n) =
      t.textAt? (holderLocation opts n) := by
  refine (run_changedAt opts t mode files₁ removed₁).textAt _ ?_
  rintro ⟨m, hm, hshare⟩
  exact h.disjoint m hm n hn hshare.symm

/-- **A run is the same after an independent one.** -/
theorem runPart (ht : t.Spelled) (mode : CompileMode) :
    RunPart opts (fun _ => true) t files₂ removed₂ (run opts mode files₁ removed₁ t).store files₂
      removed₂ where
  places := List.filter_eq_self.2 fun _ _ => rfl
  gone := List.filter_eq_self.2 fun _ _ => rfl
  apart _ _ _ _ _ := rfl
  layouts k hk := by
    have hchange := run_changedAt opts t mode files₁ removed₁
    obtain ⟨l, v, x, hv, rfl⟩ := h.variants₂ k hk
    refine Tree.layoutAt?_eq_of_textAt? ?_
    rw [List.filter_append]
    exact hchange.textAt?_variant (fun m hm => slash_notMem_runNames hm) hv
  holders n hn := by
    refine ⟨h.textAt?_run hn mode t, (run_changedAt opts t mode files₁ removed₁).textAt _ ?_⟩
    rintro ⟨m, hm, hdir⟩
    exact dropLast_holderLocation_ne (slash_notMem_runNames hn) (slash_notMem_runNames hm) hdir
  frozen := run_frozen t mode files₁ removed₁
  listed := by
    have hspelled := (run_changedAt opts t mode files₁ removed₁).spelled ht
    rw [(run_listed hspelled h.apart₂ mode).1, (run_listed ht h.apart₁ mode).2,
      (run_listed ht h.apart₂ mode).1]
  backed _ _ _ _ := Iff.rfl

variable {mode₁ mode₂ : CompileMode}

/-- **A run that succeeds after an independent one succeeds without it.** -/
theorem exists_run_before (ht : t.Spelled)
    (hok : ∃ report, (run opts mode₂ files₂ removed₂
      (run opts mode₁ files₁ removed₁ t).store).result = .ok report) :
    ∃ report, (run opts mode₂ files₂ removed₂ t).result = .ok report :=
  run_of_parts (fun _ _ => ⟨_, _, _, _, (h.runPart ht mode₁).symm, rfl, mode₂, hok⟩) mode₂

/-- **A run after an independent one** succeeds if it does so without it, and leaves what the two
runs leave of their layouts. -/
theorem exists_run_join (ht : t.Spelled) 
    (hok : ∃ report, (run opts mode₂ files₂ removed₂ t).result = .ok report) :
    (∃ report, (run opts mode₂ files₂ removed₂
      (run opts mode₁ files₁ removed₁ t).store).result = .ok report) ∧
    Tree.IsJoin opts (runNames files₁ removed₁) (runNames files₂ removed₂) t
      (run opts mode₁ files₁ removed₁ t).store (run opts mode₂ files₂ removed₂ t).store
      (run opts mode₂ files₂ removed₂ (run opts mode₁ files₁ removed₁ t).store).store := by
  have hpart := h.runPart ht mode₁
  obtain ⟨report', hok'⟩ := run_of_parts
    (fun _ _ => ⟨_, _, _, _, hpart, rfl, mode₂, hok⟩) mode₂
  obtain ⟨report, hok⟩ := hok
  refine ⟨⟨report', hok'⟩, fun m hm => ?_, fun n hn => hpart.textAt?_eq hok hok' hn, fun k hk => ?_⟩
  · refine (run_changedAt opts _ mode₂ files₂ removed₂).textAt _ ?_
    rintro ⟨n, hn, hshare⟩
    exact h.disjoint m hm n hn hshare
  · rw [(run_changedAt opts _ mode₂ files₂ removed₂).textAt k fun ⟨n, hn, hloc⟩ =>
        hk n (List.mem_append_right _ hn) hloc,
      (run_changedAt opts t mode₁ files₁ removed₁).textAt k fun ⟨n, hn, hloc⟩ =>
        hk n (List.mem_append_left _ hn) hloc]

end Independent

/-! ### Batches -/

section

variable {opts : CompileOptions} {t : Tree} {c₁ r₁ c₂ r₂ : List Path}

/-- Holders of layouts that are touched by batches without a common class name differ. -/
theorem holderLocation_ne_of_touched
    (hclass : ∀ m ∈ touchedNames c₁ r₁, ∀ n ∈ touchedNames c₂ r₂,
      Holder.className m ≠ Holder.className n) {m n : String} (hm : m ∈ touchedNames c₁ r₁)
    (hn : n ∈ touchedNames c₂ r₂) : holderLocation opts m ≠ holderLocation opts n := fun h =>
  hclass m hm n hn (location_holderPath_inj (slash_notMem_touchedNames hm)
    (slash_notMem_touchedNames hn) h)

/-- The layout files that one of two lists adds to the other, if only those of the one have names
in a list. -/
theorem filter_append_names {fs gs : List LayoutFile} {names : List String}
    (hfs : ∀ f ∈ fs, f.layoutName ∈ names) (hgs : ∀ g ∈ gs, g.layoutName ∉ names) :
    ((fs ++ gs).filter fun f => decide (f.layoutName ∈ names)) = fs ∧
      ((gs ++ fs).filter fun f => decide (f.layoutName ∈ names)) = fs := by
  have hleft : (fs.filter fun f => decide (f.layoutName ∈ names)) = fs :=
    List.filter_eq_self.2 fun f hf => decide_eq_true (hfs f hf)
  have hright : (gs.filter fun f => decide (f.layoutName ∈ names)) = [] :=
    List.filter_eq_nil_iff.2 fun g hg => by simpa using hgs g hg
  rw [List.filter_append, List.filter_append, hleft, hright, List.append_nil, List.nil_append]
  exact ⟨rfl, rfl⟩

variable (ht : t.Spelled) {files₁ files₂ files : PathSet}
  (hfiles₁ : affectedFiles t c₁ r₁ = .ok files₁) (hfiles₂ : affectedFiles t c₂ r₂ = .ok files₂)
  (hapart : HoldersApart opts (touchedNames (c₁ ++ c₂) (r₁ ++ r₂)) opts.resDirs)
  (hclass : ∀ m ∈ touchedNames c₁ r₁, ∀ n ∈ touchedNames c₂ r₂,
    Holder.className m ≠ Holder.className n)
include ht hfiles₁ hfiles₂ hapart hclass

theorem independent_of_touched : Independent opts files₁ r₁ files₂ r₂ where
  variants₁ _ hk := isVariantPlace_of_affected ht hfiles₁ hk
  variants₂ _ hk := isVariantPlace_of_affected ht hfiles₂ hk
  disjoint _ hm _ hn := holderLocation_ne_of_touched hclass (runNames_subset_touched hfiles₁ hm)
    (runNames_subset_touched hfiles₂ hn)
  apart₁ := hapart.mono (fun _ hn =>
    mem_touchedNames_append.2 (Or.inl (runNames_subset_touched hfiles₁ hn))) fun _ => id
  apart₂ := hapart.mono (fun _ hn =>
    mem_touchedNames_append.2 (Or.inr (runNames_subset_touched hfiles₂ hn))) fun _ => id

/-- The runs after two batches are parts of the run after both. -/
theorem runPart_of_joined (hfiles : affectedFiles t (c₁ ++ c₂) (r₁ ++ r₂) = .ok files) :
    RunPart opts (fun n => decide (n ∈ touchedNames c₁ r₁)) t files₁ r₁ t files (r₁ ++ r₂) ∧
      RunPart opts (fun n => decide (n ∈ touchedNames c₂ r₂)) t files₂ r₂ t files (r₁ ++ r₂) := by
  have hind := independent_of_touched ht hfiles₁ hfiles₂ hapart hclass
  have hjoined : HoldersApart opts (runNames files (r₁ ++ r₂)) opts.resDirs :=
    hapart.mono (runNames_subset_touched hfiles) fun _ => id
  have hnot₁ {n : String} (hn : n ∈ touchedNames c₂ r₂) : n ∉ touchedNames c₁ r₁ :=
    fun h => hclass n h n hn rfl
  have hnot₂ {n : String} (hn : n ∈ touchedNames c₁ r₁) : n ∉ touchedNames c₂ r₂ :=
    fun h => hclass n hn n h rfl
  have hchanged {c r : List Path} (f : LayoutFile) (hf : f ∈ reportedFiles c) :
      f.layoutName ∈ touchedNames c r :=
    List.mem_map_of_mem (touchedFiles_eq c r ▸ List.mem_append_left _ hf)
  have hremoved {c r : List Path} (f : LayoutFile) (hf : f ∈ reportedFiles r) :
      f.layoutName ∈ touchedNames c r :=
    List.mem_map_of_mem (touchedFiles_eq c r ▸ List.mem_append_right _ hf)
  constructor
  · refine runPart_of_batch ht ?_ ?_ hfiles₁ hfiles hind.apart₁ hjoined fun m hm n hn hshare => ?_
    · rw [reportedFiles_append]
      exact (filter_append_names hchanged fun g hg => hnot₁ (hchanged g hg)).1
    · rw [reportedFiles_append]
      exact (filter_append_names hremoved fun g hg => hnot₁ (hremoved g hg)).1
    · refine decide_eq_true ((mem_touchedNames_append.1
        (runNames_subset_touched hfiles hn)).resolve_right fun hn => ?_)
      exact holderLocation_ne_of_touched hclass (runNames_subset_touched hfiles₁ hm) hn hshare
  · refine runPart_of_batch ht ?_ ?_ hfiles₂ hfiles hind.apart₂ hjoined fun m hm n hn hshare => ?_
    · rw [reportedFiles_append]
      exact (filter_append_names hchanged fun g hg => hnot₂ (hchanged g hg)).2
    · rw [reportedFiles_append]
      exact (filter_append_names hremoved fun g hg => hnot₂ (hremoved g hg)).2
    · refine decide_eq_true ((mem_touchedNames_append.1
        (runNames_subset_touched hfiles hn)).resolve_left fun hn => ?_)
      exact holderLocation_ne_of_touched hclass hn (runNames_subset_touched hfiles₂ hm) hshare.symm

/-- **The run after two joined batches** succeeds if the runs after either do, and leaves what they
leave of their layouts. -/
theorem exists_run_joined (hfiles : affectedFiles t (c₁ ++ c₂) (r₁ ++ r₂) = .ok files)
    {mode : CompileMode} (hok₁ : ∃ report, (run opts mode files₁ r₁ t).result = .ok report)
    (hok₂ : ∃ report, (run opts mode files₂ r₂ t).result = .ok report) :
    (∃ report, (run opts mode files (r₁ ++ r₂) t).result = .ok report) ∧
    Tree.IsJoin opts (runNames files₁ r₁) (runNames files₂ r₂) t (run opts mode files₁ r₁ t).store
      (run opts mode files₂ r₂ t).store (run opts mode files (r₁ ++ r₂) t).store := by
  obtain ⟨hpart₁, hpart₂⟩ := runPart_of_joined ht hfiles₁ hfiles₂ hapart hclass hfiles
  have hcover (n : String) (hn : n ∈ runNames files (r₁ ++ r₂)) :=
    mem_touchedNames_append.1 (runNames_subset_touched hfiles hn)
  obtain ⟨report, hok⟩ := run_of_parts (fun n hn => (hcover n hn).elim
    (fun h => ⟨_, _, _, _, hpart₁, decide_eq_true h, mode, hok₁⟩)
    fun h => ⟨_, _, _, _, hpart₂, decide_eq_true h, mode, hok₂⟩) mode
  obtain ⟨report₁, hok₁⟩ := hok₁
  obtain ⟨report₂, hok₂⟩ := hok₂
  refine ⟨⟨report, hok⟩, fun n hn => hpart₁.textAt?_eq hok₁ hok hn,
    fun n hn => hpart₂.textAt?_eq hok₂ hok hn, fun k hk => ?_⟩
  refine (run_changedAt opts t mode files (r₁ ++ r₂)).textAt k fun ⟨n, hn, hloc⟩ => hk n ?_ hloc
  exact List.mem_append.2 ((hcover n hn).imp
    (fun h => hpart₁.mem_runNames_iff.2 ⟨hn, decide_eq_true h⟩)
    fun h => hpart₂.mem_runNames_iff.2 ⟨hn, decide_eq_true h⟩)

end

/-- The files that a batch affects are the same after another batch, as long as no holder of the
other lies in the resource roots of the batch. -/
theorem affectedFiles_run {opts : CompileOptions} {t : Tree} (ht : t.Spelled)
    {changed removed gone : List Path} {files : PathSet}
    (hapart : HoldersApart opts (runNames files gone) ((touchedFiles changed removed).map (·.root)))
    (mode : CompileMode) : affectedFiles (run opts mode files gone t).store changed removed =
      affectedFiles t changed removed :=
  affectedFiles_congr ht fun _ hf => (run_sameBelow hapart (List.mem_map_of_mem hf) t mode).2

/-- **Independent batches commute and may be joined.**  Let two batches touch no layouts of one class
name, and let no holder of a touched layout lie at or below the resource root of a touched file or a
resource root of the project.  If the runs after the two batches succeed one after the other, then so
do the same runs in the opposite order, and so does the run after both batches at once; and whichever
way is taken, the same files with the same texts are there in the end. -/
theorem compileIncremental_independent {opts : CompileOptions} {t : Tree} {c₁ r₁ c₂ r₂ : List Path}
    {report₁ report₂ : Report} (ht : t.Spelled)
    (hapart : HoldersApart opts (touchedNames (c₁ ++ c₂) (r₁ ++ r₂))
      ((touchedFiles (c₁ ++ c₂) (r₁ ++ r₂)).map (·.root) ++ opts.resDirs))
    (hclass : ∀ m ∈ touchedNames c₁ r₁, ∀ n ∈ touchedNames c₂ r₂,
      Holder.className m ≠ Holder.className n)
    (hok₁ : (compileIncremental opts c₁ r₁ t).result = .ok report₁)
    (hok₂ : (compileIncremental opts c₂ r₂ (compileIncremental opts c₁ r₁ t).store).result =
      .ok report₂) :
    (∃ report, (compileIncremental opts c₂ r₂ t).result = .ok report) ∧
    (∃ report, (compileIncremental opts c₁ r₁ (compileIncremental opts c₂ r₂ t).store).result =
      .ok report) ∧
    (∃ report, (compileIncremental opts (c₁ ++ c₂) (r₁ ++ r₂) t).result = .ok report) ∧
    (compileIncremental opts c₁ r₁ (compileIncremental opts c₂ r₂ t).store).store.textAt? =
      (compileIncremental opts c₂ r₂ (compileIncremental opts c₁ r₁ t).store).store.textAt? ∧
    (compileIncremental opts (c₁ ++ c₂) (r₁ ++ r₂) t).store.textAt? =
      (compileIncremental opts c₂ r₂ (compileIncremental opts c₁ r₁ t).store).store.textAt? := by
  have hcompile {c r : List Path} {files : PathSet} {s : Tree}
      (h : affectedFiles s c r = .ok files) :
      compileIncremental opts c r s = run opts .incremental files r s := by
    rw [compileIncremental, h]
  obtain ⟨files₁, hfiles₁, hrun₁, -⟩ := compileIncremental_eq_ok hok₁
  rw [hcompile hfiles₁] at hok₂ ⊢
  obtain ⟨files₂, hfiles₂', hrun₂', -⟩ := compileIncremental_eq_ok hok₂
  -- Neither run changes what the other batch affects.
  have happart₁ := hapart.mono
    (fun n hn => mem_touchedNames_append.2 (Or.inl (runNames_subset_touched hfiles₁ hn)))
    (List.subset_append_of_subset_left _ (List.map_subset _ fun f hf =>
      mem_touchedFiles_append.2 (Or.inr hf)))
  have hfiles₂ : affectedFiles t c₂ r₂ = .ok files₂ :=
    (affectedFiles_run ht happart₁ .incremental).symm.trans hfiles₂'
  have happart₂ := hapart.mono
    (fun n hn => mem_touchedNames_append.2 (Or.inr (runNames_subset_touched hfiles₂ hn)))
    (List.subset_append_of_subset_left _ (List.map_subset _ fun f hf =>
      mem_touchedFiles_append.2 (Or.inl hf)))
  have hfiles₁' := (affectedFiles_run ht happart₂ .incremental).trans hfiles₁
  obtain ⟨files, hfiles⟩ : ∃ files, affectedFiles t (c₁ ++ c₂) (r₁ ++ r₂) = .ok files :=
    exists_affectedFiles_iff.2 fun f hf => (mem_touchedFiles_append.1 hf).elim
      (exists_affectedFiles_iff.1 ⟨_, hfiles₁⟩ f) (exists_affectedFiles_iff.1 ⟨_, hfiles₂⟩ f)
  rw [hcompile hfiles₂', hcompile hfiles₂, hcompile hfiles₁', hcompile hfiles]
  have hprojects := hapart.mono (List.Subset.refl _) (List.subset_append_right _ _)
  have hind := independent_of_touched ht hfiles₁ hfiles₂ hprojects hclass
  have hrun₂ := hind.exists_run_before ht ⟨_, hrun₂'⟩
  obtain ⟨-, hforth⟩ := hind.exists_run_join ht hrun₂
  obtain ⟨hrun₁', hback⟩ := hind.symm.exists_run_join ht ⟨_, hrun₁⟩
  obtain ⟨hrun, hjoined⟩ :=
    exists_run_joined ht hfiles₁ hfiles₂ hprojects hclass hfiles ⟨_, hrun₁⟩ hrun₂
  exact ⟨hrun₂, hrun₁', hrun, hforth.textAt?_eq hback.symm, hforth.textAt?_eq hjoined⟩

/-- A project with two layouts and the holder of a third one that is gone. -/
def twoBatches : Tree :=
  .ofFiles [(sampleFile "layout" "main", sampleText "a"), (sampleFile "layout" "item", sampleText "b"),
    (holderPath sampleOptions "old", "")]

/-- What the runs after the two batches do one after the other. -/
theorem twoBatches_eval :
    (compileIncremental sampleOptions [sampleFile "layout" "main"] [sampleFile "layout" "old"]
      twoBatches).result = .ok ⟨1, [holderPath sampleOptions "main"], [], [],
        [holderPath sampleOptions "old"]⟩ ∧
    (compileIncremental sampleOptions [sampleFile "layout" "item"] []
      (compileIncremental sampleOptions [sampleFile "layout" "main"] [sampleFile "layout" "old"]
        twoBatches).store).result = .ok ⟨1, [holderPath sampleOptions "item"], [], [], []⟩ := by
  decide +kernel

theorem compileIncremental_independent_twoBatches :
    (compileIncremental sampleOptions [sampleFile "layout" "main", sampleFile "layout" "item"]
      [sampleFile "layout" "old"] twoBatches).store.textAt? =
    (compileIncremental sampleOptions [sampleFile "layout" "main"] [sampleFile "layout" "old"]
      (compileIncremental sampleOptions [sampleFile "layout" "item"] [] twoBatches).store
      ).store.textAt? := by
  obtain ⟨hok₁, hok₂⟩ := twoBatches_eval
  obtain ⟨-, -, -, hback, hjoined⟩ := compileIncremental_independent (Tree.spelled_ofFiles _)
    (by decide +kernel) (by decide +kernel) hok₁ hok₂
  exact hjoined.trans hback.symm

end ViewHolder
