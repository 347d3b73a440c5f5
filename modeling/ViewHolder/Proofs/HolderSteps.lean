import ViewHolder.Proofs.HolderFile
import ViewHolder.Proofs.Progress
import ViewHolder.Proofs.Tree

/-!
# The steps of a run

A run takes one step for each holder that it makes and one for each holder that it deletes.  A
holder that is up to date is left alone, and any other is written after its directory was created;
a holder that is not there need not be deleted.  What a step does, and whether it succeeds, depends
on the place of the holder and on its text only.  Everything that a run keeps or changes is read off
these cases.

## Main definitions

* `holderLocation` : where the holder of a layout lies.
* `Tree.putHolder` : a tree after a holder was written.
* `Tree.UpToDate` : a holder is up to date and is left alone.
* `Tree.IsOpen` : a holder can be written.

## Main results

* `writeHolder_cases`, `pruneHolder_cases` : what a step does.
-/

namespace ViewHolder

/-- Where the holder of a layout lies. -/
def holderLocation (opts : CompileOptions) (n : String) : Location := (holderPath opts n).location

/-- Whether an error names the holder of a layout or its directory. -/
def CompileError.IsOfHolder (opts : CompileOptions) (n : String) (e : CompileError) : Prop :=
  (∃ cause, e = .writing (holderPath opts n) cause) ∨
    ∃ dir cause, (holderPath opts n).parent? = some dir ∧ e = .creating dir cause

/-! ### Trees after a holder was written -/

theorem prefix_dropLast {k l : Location} (h : k <+: l) (hne : k ≠ l) : k <+: l.dropLast := by
  obtain ⟨rest, rfl⟩ := h
  have hrest : rest ≠ [] := fun hnil => hne (by simp [hnil])
  rw [List.dropLast_append_of_ne_nil hrest]
  exact List.prefix_append _ _

namespace Tree

/-- A tree after the directory of a holder was created and the holder was written. -/
def putHolder (t : Tree) (l : Location) (text : String) : Tree :=
  (t.addDir l.dropLast).addFile l text

variable {t : Tree} {l k : Location} {text : String}

theorem textAt?_putHolder :
    (t.putHolder l text).textAt? = Function.update t.textAt? l (some text) :=
  textAt?_addFile

theorem mem_dirs_putHolder : k ∈ (t.putHolder l text).dirs ↔ k = l.dropLast ∨ k ∈ t.dirs :=
  mem_dirs_addDir

/-- Writing a holder adds the directories on the way to it. -/
theorem hasDir_putHolder : (t.putHolder l text).hasDir k = true ↔
    t.hasDir k = true ∨ k <+: l.dropLast := by
  simp only [hasDir_iff, mem_dirs_putHolder, hasFile, textAt?_putHolder]
  constructor
  · rintro (hk | ⟨d, rfl | hd, hpre⟩ | ⟨m, hm, hne, hpre⟩)
    · exact Or.inl (Or.inl hk)
    · exact Or.inr hpre
    · exact Or.inl (Or.inr (Or.inl ⟨d, hd, hpre⟩))
    · by_cases hml : m = l
      · exact Or.inr (prefix_dropLast (hml ▸ hpre) (hml ▸ hne.symm))
      · rw [Function.update_of_ne hml] at hm
        exact Or.inl (Or.inr (Or.inr ⟨m, hm, hne, hpre⟩))
  · rintro ((hk | ⟨d, hd, hpre⟩ | ⟨m, hm, hne, hpre⟩) | hpre)
    · exact Or.inl hk
    · exact Or.inr (Or.inl ⟨d, Or.inr hd, hpre⟩)
    · refine Or.inr (Or.inr ⟨m, ?_, hne, hpre⟩)
      by_cases hml : m = l
      · rw [hml, Function.update_self]
        rfl
      · rwa [Function.update_of_ne hml]
    · exact Or.inr (Or.inl ⟨_, Or.inl rfl, hpre⟩)

end Tree

/-! ### Writing a holder -/

/-- A file holds a text exactly if it has it. -/
theorem holds_iff {t : Tree} {file : Path} {text : String} :
    holds t file text = true ↔ t.textAt? file.location = some text := by
  have hread : Store.read t file = t.read file := rfl
  have hfile : Store.isFile t file = t.hasFile file.location := rfl
  rw [holds, hread, hfile, Tree.read, Tree.hasFile]
  cases t.textAt? file.location <;> simp

section

variable {opts : CompileOptions} {t : Tree}

/-- A holder is up to date, and holders that are up to date are left alone. -/
def Tree.UpToDate (t : Tree) (opts : CompileOptions) (l : Layout) : Prop :=
  opts.writeUnchanged = false ∧
    t.textAt? (holderLocation opts l.name) = some (Holder.source opts.package l)

/-- The directory of a holder can be created and the holder can be written. -/
def Tree.IsOpen (t : Tree) (l : Location) : Prop :=
  t.hasFile l.dropLast = false ∧ t.isFrozen l = false

theorem Tree.IsOpen.isFrozen_dropLast {l : Location} (h : t.IsOpen l) :
    t.isFrozen l.dropLast = false := by
  refine Bool.eq_false_iff.2 fun hfrozen => Bool.false_ne_true ?_
  rw [← h.2, isFrozen_of_prefix hfrozen (List.dropLast_prefix l)]

/-- The directory of a holder is created, whatever is there. -/
theorem exists_createParent_eq (opts : CompileOptions) {n : String} (hn : '/' ∉ n.toList) :
    ∃ dir : Path, (holderPath opts n).parent? = some dir ∧
      dir.location = (holderLocation opts n).dropLast ∧ ∀ t : Tree,
        createParent t (holderPath opts n) = match t.createDir dir with
          | (.ok (), t') => ⟨t', [], .ok ()⟩
          | (.error e, t') => ⟨t', [], .error (.creating dir e)⟩ := by
  have hsteps : (holderPath opts n).steps = _ := steps_holderPath hn
  obtain ⟨dir, hdir, hdirsteps⟩ := Path.exists_parent? hsteps
  have hsome : dir.isEmpty = false := by
    refine Bool.eq_false_iff.2 fun hempty => ?_
    obtain ⟨l, hl⟩ := exists_location_outputDir opts.package opts.outputDir
    rw [← Path.location_eq_of_steps_eq hdirsteps, Path.location_of_isEmpty hempty] at hl
    simp at hl
  refine ⟨dir, hdir, ?_, fun t => ?_⟩
  · rw [holderLocation, location_holderPath hn, List.dropLast_concat,
      Path.location_eq_of_steps_eq hdirsteps]
  · have hstore : Store.createDir t dir = t.createDir dir := rfl
    rw [createParent, hdir]
    dsimp only
    rw [hsome, if_neg Bool.false_ne_true, hstore]
    rcases t.createDir dir with ⟨_ | _, t'⟩ <;> rfl

/-- **What becomes of a holder**: it is up to date, or it can be written and is, or it cannot be
written and the error names it or its directory. -/
theorem writeHolder_cases {l : Layout} (hl : '/' ∉ l.name.toList) (opts : CompileOptions)
    (t : Tree) :
    (t.UpToDate opts l ∧ writeHolder opts t l =
      ⟨t, [.unchanged l.name (holderPath opts l.name)], .ok (.unchanged (holderPath opts l.name))⟩) ∨
    (¬ t.UpToDate opts l ∧ t.IsOpen (holderLocation opts l.name) ∧ writeHolder opts t l =
      ⟨t.putHolder (holderLocation opts l.name) (Holder.source opts.package l),
        [.written l.name (holderPath opts l.name)], .ok (.written (holderPath opts l.name))⟩) ∨
    (¬ t.UpToDate opts l ∧ ¬ t.IsOpen (holderLocation opts l.name) ∧
      ∃ e t', writeHolder opts t l = ⟨t', [], .error e⟩ ∧ e.IsOfHolder opts l.name ∧
        (t' = t ∨ t' = t.addDir (holderLocation opts l.name).dropLast)) := by
  have hskip : (!opts.writeUnchanged && holds t (holderPath opts l.name)
      (Holder.source opts.package l)) = true ↔ t.UpToDate opts l := by
    rw [Bool.and_eq_true, holds_iff, Bool.not_eq_true', Tree.UpToDate, holderLocation]
  unfold writeHolder
  dsimp only
  by_cases hsame : t.UpToDate opts l
  · rw [if_pos (hskip.2 hsame)]
    exact Or.inl ⟨hsame, rfl⟩
  rw [if_neg (mt hskip.1 hsame)]
  obtain ⟨dir, hparent, hloc, hcreate⟩ := exists_createParent_eq opts hl
  have hstore (s : Tree) : Store.write s = s.write := rfl
  rw [hcreate]
  refine Or.inr ((em (t.IsOpen (holderLocation opts l.name))).imp ?_ ?_)
  · intro hopen
    refine ⟨hsame, hopen, ?_⟩
    have hdir : t.createDir dir = (.ok (), t.addDir (holderLocation opts l.name).dropLast) := by
      rw [Tree.createDir_eq, hloc, hopen.1, hopen.isFrozen_dropLast]
      rfl
    have hwrite : (t.addDir (holderLocation opts l.name).dropLast).write (holderPath opts l.name)
        (Holder.source opts.package l) =
          (.ok (), t.putHolder (holderLocation opts l.name) (Holder.source opts.package l)) := by
      rw [Tree.write_eq]
      exact if_neg (Bool.eq_false_iff.1 hopen.2)
    rw [hdir, Progress.andThen_of_ok rfl, hstore]
    dsimp only
    rw [hwrite]
    rfl
  · intro hclosed
    refine ⟨hsame, hclosed, ?_⟩
    rw [Tree.createDir_eq, hloc]
    by_cases hfile : t.hasFile (holderLocation opts l.name).dropLast = true
    · rw [if_pos hfile]
      exact ⟨_, t, rfl, Or.inr ⟨dir, _, hparent, rfl⟩, Or.inl rfl⟩
    rw [if_neg hfile]
    by_cases hdir : t.isFrozen (holderLocation opts l.name).dropLast = true
    · rw [if_pos hdir]
      exact ⟨_, t, rfl, Or.inr ⟨dir, _, hparent, rfl⟩, Or.inl rfl⟩
    rw [if_neg hdir]
    have hfrozen : t.isFrozen (holderLocation opts l.name) = true := by
      by_contra hopen
      exact hclosed ⟨Bool.eq_false_iff.2 hfile, Bool.eq_false_iff.2 hopen⟩
    have hwrite : (t.addDir (holderLocation opts l.name).dropLast).write (holderPath opts l.name)
        (Holder.source opts.package l) = (.error _, _) := if_pos hfrozen
    rw [Progress.andThen_of_ok rfl, hstore]
    dsimp only
    rw [hwrite]
    exact ⟨_, _, rfl, Or.inl ⟨_, rfl⟩, Or.inr rfl⟩

/-! ### Deleting a holder -/

/-- **What becomes of a holder that is to be deleted**: it is not there, or it can be deleted and
is, or it cannot be deleted and the error names it. -/
theorem pruneHolder_cases (opts : CompileOptions) (t : Tree) (n : String) :
    (t.hasFile (holderLocation opts n) = false ∧ pruneHolder opts t n = ⟨t, [], .ok []⟩) ∨
    (t.hasFile (holderLocation opts n) = true ∧ t.isFrozen (holderLocation opts n) = false ∧
      pruneHolder opts t n = ⟨t.dropFile (holderLocation opts n), [.pruned n (holderPath opts n)],
        .ok [holderPath opts n]⟩) ∨
    (t.hasFile (holderLocation opts n) = true ∧ t.isFrozen (holderLocation opts n) = true ∧
      ∃ cause, pruneHolder opts t n = ⟨t, [], .error (.writing (holderPath opts n) cause)⟩) := by
  have hfile : Store.isFile t (holderPath opts n) = t.hasFile (holderLocation opts n) := rfl
  have hstore : Store.remove t = t.remove := rfl
  unfold pruneHolder
  dsimp only
  rw [hfile, hstore, Tree.remove_eq]
  cases hthere : t.hasFile (holderLocation opts n) with
  | false => exact Or.inl ⟨rfl, rfl⟩
  | true =>
    refine Or.inr ?_
    cases hfrozen : t.isFrozen (holderLocation opts n) with
    | false =>
      rw [holderLocation] at hthere hfrozen
      rw [hthere, hfrozen]
      exact Or.inl ⟨rfl, rfl, rfl⟩
    | true =>
      rw [holderLocation] at hfrozen
      rw [hfrozen]
      exact Or.inr ⟨rfl, rfl, _, rfl⟩

end

end ViewHolder
