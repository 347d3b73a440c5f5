import ViewHolder.Proofs.TreeCalls

/-!
# Files and directories of a tree

The files and the directories of a tree that is built from files are separate if no file is given
above another one.  They stay separate as long as every call fails that would make a place both a
file and a directory.  But of these calls only those fail that create a directory exactly at a file,
or change a place where changes are denied: a directory is created below a file, and a file is
written in the place of a directory or below another file.

## Main definitions

* `Tree.Separated` : no place is both a file and a directory above something else.
* `Tree.Clashes` : a call would make a place both a file and a directory.
* `Tree.SlipsThrough` : a call succeeds that does so.

## Main results

* `Tree.proper_iff` : separate files and directories, by the directories that are there.
* `Tree.separated_call_iff` : what one call keeps.
* `Tree.separated_after_iff` : what any calls keep.
* `Tree.separated_of_files` : the shape of a tree that is built from files, after any calls.
* `Tree.clashing_calls_succeed` : calls after which a place is both a file and a directory.
-/

namespace ViewHolder

namespace Tree

/-- The files and directories of a tree are separate: no file lies at or above a created directory,
and no file lies above another file. -/
structure Separated (t : Tree) : Prop where
  /-- No file lies at or above a created directory. -/
  dirs : ∀ l, t.hasFile l = true → ∀ d ∈ t.dirs, ¬ l <+: d
  /-- No file lies above another file. -/
  files : ∀ l, t.hasFile l = true → ∀ k, t.hasFile k = true → l <+: k → l = k

instance (t : Tree) : Decidable t.Separated :=
  decidable_of_iff (∀ f ∈ t.files, (∀ d ∈ t.dirs, ¬ f.1 <+: d) ∧
      ∀ g ∈ t.files, f.1 <+: g.1 → f.1 = g.1)
    ⟨fun h => by
      refine ⟨fun l hl => ?_, fun l hl k hk => ?_⟩
      · obtain ⟨f, hf, rfl⟩ := hasFile_iff_mem.1 hl
        exact (h f hf).1
      · obtain ⟨f, hf, rfl⟩ := hasFile_iff_mem.1 hl
        obtain ⟨g, hg, rfl⟩ := hasFile_iff_mem.1 hk
        exact (h f hf).2 g hg,
    fun h f hf => by
      have hfile : t.hasFile f.1 = true := hasFile_iff_mem.2 ⟨f, hf, rfl⟩
      exact ⟨h.dirs _ hfile, fun g hg => h.files _ hfile _ (hasFile_iff_mem.2 ⟨g, hg, rfl⟩)⟩⟩

/-- No place is both a file and a directory exactly if files and directories are separate and there
is no file in the place of the whole tree, which is always a directory. -/
theorem proper_iff {t : Tree} : t.Proper ↔ t.Separated ∧ t.hasFile [] = false := by
  constructor
  · intro h
    have hnoDir {l : Location} (hl : t.hasFile l = true) : ¬ t.hasDir l = true := by simp [h l hl]
    refine ⟨⟨fun l hl d hd hpre => ?_, fun l hl k hk hpre => ?_⟩,
      Bool.eq_false_iff.2 fun hfile => ?_⟩
    · exact hnoDir hl (hasDir_iff.2 (.inr (.inl ⟨d, hd, hpre⟩)))
    · by_contra hne
      exact hnoDir hl (hasDir_iff.2 (.inr (.inr ⟨k, hk, Ne.symm hne, hpre⟩)))
    · exact hnoDir hfile (hasDir_iff.2 (.inl rfl))
  · rintro ⟨h, hroot⟩ l hl
    refine Bool.eq_false_iff.2 fun hdir => ?_
    rcases hasDir_iff.1 hdir with rfl | ⟨d, hd, hpre⟩ | ⟨k, hk, hne, hpre⟩
    · exact Bool.noConfusion (hroot.symm.trans hl)
    · exact h.dirs l hl d hd hpre
    · exact hne (h.files l hl k hk hpre).symm

/-! ### One call -/

/-- A call would make a place both a file and a directory: it writes a file at or above a created
directory, or above or below another file, or it creates a directory at or below a file. -/
def Clashes (t : Tree) : Call → Prop
  | .write p _ => (∃ d ∈ t.dirs, p.location <+: d) ∨
      ∃ k, t.hasFile k = true ∧ k ≠ p.location ∧ (p.location <+: k ∨ k <+: p.location)
  | .createDir p => ∃ k, t.hasFile k = true ∧ k <+: p.location
  | _ => False

section

variable {t : Tree} {l k : Location} {text : String}

theorem hasFile_addFile : (t.addFile l text).hasFile k = true ↔ k = l ∨ t.hasFile k = true := by
  have hplaces : (t.addFile l text).places = insert l t.places := places_addFile
  exact Set.ext_iff.1 hplaces k

theorem hasFile_dropFile : (t.dropFile l).hasFile k = true ↔ t.hasFile k = true ∧ k ≠ l := by
  have hplaces : (t.dropFile l).places = t.places \ {l} := places_dropFile
  exact Set.ext_iff.1 hplaces k

variable (h : t.Separated)
include h

theorem separated_addFile_iff {p : Path} :
    (t.addFile p.location text).Separated ↔ ¬ t.Clashes (.write p text) := by
  constructor
  · rintro hnew (⟨d, hd, hpre⟩ | ⟨k, hk, hne, hpre | hpre⟩)
    · exact hnew.dirs _ (hasFile_addFile.2 (.inl rfl)) d hd hpre
    · exact hne (hnew.files _ (hasFile_addFile.2 (.inl rfl)) k
        (hasFile_addFile.2 (.inr hk)) hpre).symm
    · exact hne (hnew.files k (hasFile_addFile.2 (.inr hk)) _
        (hasFile_addFile.2 (.inl rfl)) hpre)
  · intro hclash
    have hapart {k : Location} (hk : t.hasFile k = true)
        (hpre : p.location <+: k ∨ k <+: p.location) : k = p.location := by
      by_contra hne
      exact hclash (.inr ⟨k, hk, hne, hpre⟩)
    refine ⟨fun l hl d hd hpre => ?_, fun l hl k hk hpre => ?_⟩
    · rcases hasFile_addFile.1 hl with rfl | hl
      · exact hclash (.inl ⟨d, hd, hpre⟩)
      · exact h.dirs l hl d hd hpre
    · rcases hasFile_addFile.1 hl with rfl | hl <;> rcases hasFile_addFile.1 hk with rfl | hk
      · rfl
      · exact (hapart hk (.inl hpre)).symm
      · exact hapart hl (.inr hpre)
      · exact h.files l hl k hk hpre

theorem separated_dropFile : (t.dropFile l).Separated :=
  ⟨fun k hk => h.dirs k (hasFile_dropFile.1 hk).1,
    fun k hk m hm => h.files k (hasFile_dropFile.1 hk).1 m (hasFile_dropFile.1 hm).1⟩

theorem separated_addDir_iff {p : Path} :
    (t.addDir p.location).Separated ↔ ¬ t.Clashes (.createDir p) := by
  constructor
  · rintro hnew ⟨k, hk, hpre⟩
    exact hnew.dirs k hk _ (mem_dirs_addDir.2 (.inl rfl)) hpre
  · intro hclash
    refine ⟨fun l hl d hd hpre => ?_, h.files⟩
    rcases mem_dirs_addDir.1 hd with rfl | hd
    · exact hclash ⟨l, hl, hpre⟩
    · exact h.dirs l hl d hd hpre

/-- **One call keeps files and directories separate** exactly if it does not clash with the tree or
fails. -/
theorem separated_call_iff (c : Call) : (t.call c).2.Separated ↔
    (t.Clashes c → ∃ e, (t.call c).1 = .error e) := by
  rcases t.call_cases c with ⟨-, ⟨a, ha⟩, heffect⟩ | ⟨-, hfails, hsame⟩
  · have hok : ¬ ∃ e, (t.call c).1 = .error e := by simp [ha]
    rw [heffect, ← not_imp_not, imp_iff_right hok]
    cases c with
    | read _ | list _ _ | denyList _ | denyWrite _ =>
      exact iff_of_true ⟨h.dirs, h.files⟩ not_false
    | remove p => exact iff_of_true (separated_dropFile h) not_false
    | write p text => exact separated_addFile_iff h
    | createDir p => exact separated_addDir_iff h
  · rw [hsame]
    exact iff_of_true h fun _ => hfails

/-! ### Any calls -/

/-- **Calls keep files and directories separate at all times** exactly if every call among them that
would clash fails. -/
theorem separated_after_iff (calls : List Call) :
    (∀ before, before <+: calls → (t.after before).Separated) ↔
      ∀ before c later, calls = before ++ c :: later → (t.after before).Clashes c →
        ∃ e, ((t.after before).call c).1 = .error e := by
  have hstep (before : List Call) (c : Call) :
      t.after (before ++ [c]) = ((t.after before).call c).2 := after_append t before [c]
  constructor
  · rintro hall before c later rfl
    have hnow := hall before (List.prefix_append _ _)
    rw [← separated_call_iff hnow, ← hstep]
    exact hall (before ++ [c]) ⟨later, by simp⟩
  · intro hfail before hpre
    -- The last call of a prefix comes after a shorter prefix.
    induction before using List.reverseRecOn with
    | nil => exact h
    | append_singleton before c ih =>
      obtain ⟨later, rfl⟩ := hpre
      rw [hstep, separated_call_iff (ih ⟨c :: later, by simp⟩)]
      exact hfail before c later (by simp)

end

/-! ### Trees that are built from files -/

theorem separated_ofFiles {files : List (Path × String)}
    (hfiles : ∀ f ∈ files, ∀ g ∈ files, f.1.location <+: g.1.location →
      f.1.location = g.1.location) : (ofFiles files).Separated := by
  have hplace {l : Location} (hl : (ofFiles files).hasFile l = true) :
      ∃ f ∈ files, f.1.location = l := (Set.ext_iff.1 (places_ofFiles files) l).1 hl
  refine ⟨fun l _ d hd => ?_, fun l hl k hk => ?_⟩
  · rw [dirs_ofFiles] at hd
    exact absurd hd List.not_mem_nil
  · obtain ⟨f, hf, rfl⟩ := hplace hl
    obtain ⟨g, hg, rfl⟩ := hplace hk
    exact hfiles f hf g hg

/-- **The shape of a tree that is built from files**, none of which lies above another.  Files and
directories are separate at all times exactly if every call fails that would make a place both a
file and a directory.  Writing fails where changes are denied and nowhere else; creating a directory
fails there and at a file, and nowhere else.  A call that fails changes nothing. -/
theorem separated_of_files {files : List (Path × String)}
    (hfiles : ∀ f ∈ files, ∀ g ∈ files, f.1.location <+: g.1.location →
      f.1.location = g.1.location) (calls : List Call) :
    ((∀ before, before <+: calls → ((ofFiles files).after before).Separated) ↔
      ∀ before c later, calls = before ++ c :: later → ((ofFiles files).after before).Clashes c →
        ∃ e, (((ofFiles files).after before).call c).1 = .error e) ∧
    (∀ p text, (∃ e, (((ofFiles files).after calls).call (.write p text)).1 = .error e) ↔
      ((ofFiles files).after calls).isFrozen p.location = true) ∧
    (∀ p, (∃ e, (((ofFiles files).after calls).call (.createDir p)).1 = .error e) ↔
      ((ofFiles files).after calls).hasFile p.location = true ∨
        ((ofFiles files).after calls).isFrozen p.location = true) ∧
    ∀ c e, (((ofFiles files).after calls).call c).1 = .error e →
      (((ofFiles files).after calls).call c).2 = (ofFiles files).after calls := by
  refine ⟨separated_after_iff (separated_ofFiles hfiles) calls, fun p text => ?_, fun p => ?_,
    fun c e => call_of_error⟩
  · rw [call_fails_iff, Allows, Bool.not_eq_false]
  · rw [call_fails_iff, Allows, not_and_or, Bool.not_eq_false, Bool.not_eq_false]

/-- Two files, neither of which lies above the other. -/
def twoFiles : List (Path × String) := [(⟨"a/b"⟩, "x"), (⟨"c"⟩, "y")]

/-- Calls that keep files and directories separate; the first one clashes and fails. -/
def separateCalls : List Call := [.createDir ⟨"./c"⟩, .write ⟨"a/d"⟩ "z", .createDir ⟨"e"⟩]

theorem separated_of_files_twoFiles :
    (∃ e, ((ofFiles twoFiles).call (.createDir ⟨"./c"⟩)).1 = .error e) ∧
    ((ofFiles twoFiles).call (.createDir ⟨"./c"⟩)).2 = ofFiles twoFiles ∧
    ¬ ∃ e, (((ofFiles twoFiles).after separateCalls).call (.write ⟨"a"⟩ "")).1 = .error e := by
  have hfiles : ∀ f ∈ twoFiles, ∀ g ∈ twoFiles, f.1.location <+: g.1.location →
      f.1.location = g.1.location := by decide +kernel
  have hall : ∀ before ∈ separateCalls.inits, ((ofFiles twoFiles).after before).Separated := by
    decide +kernel
  obtain ⟨hkept, hwrite, -, -⟩ := separated_of_files hfiles separateCalls
  obtain ⟨-, -, -, hatomic⟩ := separated_of_files hfiles []
  obtain ⟨e, he⟩ := hkept.1 (fun before hbefore => hall before ((List.mem_inits _ _).2 hbefore)) []
    (.createDir ⟨"./c"⟩) _ rfl ⟨Path.location ⟨"c"⟩, by decide +kernel, by decide +kernel⟩
  refine ⟨⟨e, he⟩, hatomic _ e he, ?_⟩
  rw [hwrite]
  decide +kernel

/-- A call succeeds that makes a place of a tree both a file and a directory. -/
def SlipsThrough (t : Tree) (c : Call) : Prop :=
  t.Separated ∧ (t.call c).1 = .ok .done ∧ ¬ (t.call c).2.Separated

instance (t : Tree) (c : Call) : Decidable (t.SlipsThrough c) :=
  inferInstanceAs (Decidable (_ ∧ _ ∧ _))

/-- Calls succeed that make a place both a file and a directory: a directory is created below a
file, a file is written below a file and above a file, and a file is written in the place of a
directory. -/
theorem clashing_calls_succeed :
    (ofFiles [(⟨"a"⟩, "")]).SlipsThrough (.createDir ⟨"a/b"⟩) ∧
    (ofFiles [(⟨"a"⟩, "")]).SlipsThrough (.write ⟨"a/b"⟩ "") ∧
    (ofFiles [(⟨"a/b"⟩, "")]).SlipsThrough (.write ⟨"a"⟩ "") ∧
    ((ofFiles []).after [.createDir ⟨"a"⟩]).SlipsThrough (.write ⟨"a"⟩ "") := by
  decide +kernel

end Tree

end ViewHolder
