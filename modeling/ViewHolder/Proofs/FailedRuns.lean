import ViewHolder.Proofs.Run
import ViewHolder.Proofs.Sources

/-!
# Runs that fail

A run may fail at any file that it reads, at any holder that it writes, at a listing, and at any
holder that it deletes.  What it leaves is determined by the place of the failure: a run that fails
in reading changes nothing, and one that fails later has carried out exactly the steps before the
failure.  In pruning, the layouts that are backed are passed over, so what is gone is a prefix of
the stale layouts that are not backed, and not of all stale layouts.

## Main definitions

* `Tree.Logged` : a log that goes on from another with changes of some kind.
* `FailedRun` : how a run ends that fails.

## Main results

* `run_failed` : what a run leaves that fails.
* `backedRun_skips` : a failing run that passes over a stale layout.
-/

namespace ViewHolder

/-! ### Reading -/

/-- Whether an error names a layout file that could not be read or parsed. -/
def CompileError.IsOfLayout (file : Path) (e : CompileError) : Prop :=
  (∃ cause, e = .reading file cause) ∨ ∃ cause, e = .parsing file cause

section

variable {opts : CompileOptions} {t : Tree} {e : CompileError}

theorem readLayout_eq_error {file : Path} (h : readLayout opts t file = .error e) :
    e.IsOfLayout file := by
  unfold readLayout at h
  split at h
  · rename_i cause _
    exact Or.inl ⟨cause, (Except.error.inj h).symm⟩
  · split at h
    · rename_i cause _
      exact Or.inr ⟨cause, (Except.error.inj h).symm⟩
    · cases h

/-- Reading stops at the first file that cannot be read. -/
theorem readAll_eq_error {files : List Path} (h : (readAll opts t files).result = .error e) :
    ∃ done file rest, files = done ++ file :: rest ∧
      (∀ p ∈ done, ∃ l, readLayout opts t p = .ok l) ∧ readLayout opts t file = .error e := by
  induction files with
  | nil => cases h
  | cons file files ih =>
    rw [readAll] at h
    split at h
    · rename_i e' hfile
      obtain rfl : e' = e := Except.error.inj h
      exact ⟨[], file, files, rfl, List.forall_mem_nil _, hfile⟩
    · rename_i l hl
      obtain ⟨done, p, rest, rfl, hdone, hp⟩ := ih (map_eq_error_iff.1 h)
      exact ⟨file :: done, p, rest, rfl, List.forall_mem_cons.2 ⟨⟨l, hl⟩, hdone⟩, hp⟩

/-! ### Writing -/

/-- The log of a tree goes on from that of another, with changes of some kind. -/
def Tree.Logged (P : Change → Prop) (t t' : Tree) : Prop :=
  ∃ changes, t'.log = t.log ++ changes ∧ ∀ c ∈ changes, P c

namespace Tree.Logged

variable {P Q : Change → Prop} {t t' t'' : Tree}

theorem refl (P : Change → Prop) (t : Tree) : Logged P t t :=
  ⟨[], (List.append_nil _).symm, List.forall_mem_nil _⟩

theorem trans (h : Logged P t t') (h' : Logged P t' t'') : Logged P t t'' := by
  obtain ⟨changes, hlog, hP⟩ := h
  obtain ⟨more, hmore, hP'⟩ := h'
  exact ⟨changes ++ more, by rw [hmore, hlog, List.append_assoc],
    List.forall_mem_append.2 ⟨hP, hP'⟩⟩

theorem mono (h : Logged P t t') (hPQ : ∀ c, P c → Q c) : Logged Q t t' := by
  obtain ⟨changes, hlog, hP⟩ := h
  exact ⟨changes, hlog, fun c hc => hPQ c (hP c hc)⟩

end Tree.Logged

/-- Whether a change creates the directory of a file. -/
def Change.IsParentOf (file : Path) (c : Change) : Prop :=
  ∃ dir, file.parent? = some dir ∧ c = .createDir dir.location

/-- Whether a change is made by writing the holder of a layout. -/
def Change.IsOfHolder (opts : CompileOptions) (n : String) (c : Change) : Prop :=
  c = .write (holderLocation opts n) ∨ c.IsParentOf (holderPath opts n)

/-- Creating the directory of a holder is a change of its parent. -/
theorem isParentOf_holder (opts : CompileOptions) {n : String} (hn : '/' ∉ n.toList) :
    Change.IsParentOf (holderPath opts n) (.createDir (holderLocation opts n).dropLast) := by
  obtain ⟨dir, hparent, hloc, -⟩ := exists_createParent_eq opts hn
  exact ⟨dir, hparent, by rw [hloc]⟩

theorem writeHolder_logged {l : Layout} (hl : '/' ∉ l.name.toList) (t : Tree) :
    Tree.Logged (Change.IsOfHolder opts l.name) t (writeHolder opts t l).store := by
  have hparent := isParentOf_holder opts hl
  rcases writeHolder_cases hl opts t with ⟨-, h⟩ | ⟨-, -, h⟩ | ⟨-, -, e, t', h, -, rfl | rfl⟩
  · rw [h]
    exact .refl _ t
  · rw [h]
    refine ⟨[_, _], List.append_assoc _ _ _, List.forall_mem_cons.2 ⟨Or.inr hparent, ?_⟩⟩
    exact List.forall_mem_singleton.2 (Or.inl rfl)
  · rw [h]
    exact .refl _ _
  · rw [h]
    exact ⟨[_], rfl, List.forall_mem_singleton.2 (Or.inr hparent)⟩

/-- A holder that cannot be written leaves all texts as they are, and the error names it. -/
theorem writeHolder_eq_error {l : Layout} (hl : '/' ∉ l.name.toList)
    (h : (writeHolder opts t l).result = .error e) :
    (writeHolder opts t l).store.textAt? = t.textAt? ∧
      Tree.Logged (Change.IsParentOf (holderPath opts l.name)) t (writeHolder opts t l).store ∧
      e.IsOfHolder opts l.name := by
  rcases writeHolder_cases hl opts t with
    ⟨-, hstep⟩ | ⟨-, -, hstep⟩ | ⟨-, -, e', t', hstep, herror, rfl | rfl⟩
  · rw [hstep] at h
    cases h
  · rw [hstep] at h
    cases h
  · rw [hstep] at h ⊢
    obtain rfl := Except.error.inj h
    exact ⟨rfl, .refl _ _, herror⟩
  · rw [hstep] at h ⊢
    obtain rfl := Except.error.inj h
    exact ⟨rfl, ⟨[_], rfl, List.forall_mem_singleton.2 (isParentOf_holder opts hl)⟩, herror⟩

section

variable {ls : List Layout} (hslash : ∀ l ∈ ls, '/' ∉ l.name.toList)
include hslash

theorem writeAll_logged (t : Tree) :
    Tree.Logged (fun c => ∃ l ∈ ls, c.IsOfHolder opts l.name) t (writeAll opts t ls).store :=
  (writeAll_isLoop opts).store_rel (.refl _) (fun _ _ _ => .trans) fun l hl s =>
    (writeHolder_logged (hslash l hl) s).mono fun _ hc => ⟨l, hl, hc⟩

/-- Writing that fails has put the holders of some first layouts in place, and has not touched any
other file; the error names the holder of the next layout. -/
theorem writeAll_eq_error (h : (writeAll opts t ls).result = .error e) :
    ∃ done l rest, ls = done ++ l :: rest ∧ e.IsOfHolder opts l.name ∧
      (writeAll opts t ls).store.textAt? = placeHolders opts t.textAt? done ∧
      Tree.Logged (fun c => (∃ m ∈ done, c.IsOfHolder opts m.name) ∨
        c.IsParentOf (holderPath opts l.name)) t (writeAll opts t ls).store := by
  obtain ⟨done, l, rest, rfl, ⟨outputs, hdone⟩, hl, hstore⟩ := (writeAll_isLoop opts).eq_error h
  obtain ⟨hbefore, hothers⟩ := List.forall_mem_append.1 hslash
  obtain ⟨htext, hlog, herror⟩ := writeHolder_eq_error (hothers l List.mem_cons_self) hl
  refine ⟨done, l, rest, rfl, herror, ?_, ?_⟩
  · rw [hstore, htext, writeAll_placed hbefore hdone]
  · rw [hstore]
    exact ((writeAll_logged hbefore t).mono fun _ => Or.inl).trans (hlog.mono fun _ => Or.inr)

end

/-! ### Pruning -/

/-- A holder that cannot be deleted leaves the tree as it is, and the error names it. -/
theorem pruneHolder_eq_error {n : String} (h : (pruneHolder opts t n).result = .error e) :
    (pruneHolder opts t n).store = t ∧ ∃ cause, e = .writing (holderPath opts n) cause := by
  rcases pruneHolder_cases opts t n with ⟨-, hstep⟩ | ⟨-, -, hstep⟩ | ⟨-, -, cause, hstep⟩
  · rw [hstep] at h
    cases h
  · rw [hstep] at h
    cases h
  · rw [hstep] at h ⊢
    exact ⟨rfl, cause, (Except.error.inj h).symm⟩

/-- Deleting that fails has deleted the holders of some first layouts; the error names the holder of
the next one. -/
theorem pruneAll_eq_error {ns : List String} (h : (pruneAll opts t ns).result = .error e) :
    ∃ done n rest, ns = done ++ n :: rest ∧ (∃ cause, e = .writing (holderPath opts n) cause) ∧
      (pruneAll opts t ns).store.textAt? = dropHolders opts t.textAt? done := by
  obtain ⟨done, n, rest, hns, ⟨pruned, hdone⟩, hn, hstore⟩ := (pruneAll_isLoop opts).eq_error h
  obtain ⟨hkeep, herror⟩ := pruneHolder_eq_error hn
  refine ⟨done, n, rest, hns, herror, ?_⟩
  -- The holder that cannot be deleted is still there, so only those before it are gone.
  rw [hstore, hkeep, pruneAll_dropped hdone]

/-- A traversal that fails has a step that fails. -/
theorem gather_eq_error {α β : Type} {step : α → Except CompileError (List β)} {as : List α}
    (h : gather step as = .error e) : ∃ a ∈ as, step a = .error e := by
  induction as with
  | nil => cases h
  | cons a as ih =>
    rw [gather] at h
    cases ha : step a with
    | error e' =>
      rw [ha] at h
      obtain rfl : e' = e := Except.error.inj h
      exact ⟨a, List.mem_cons_self, ha⟩
    | ok front =>
      cases hrest : gather step as with
      | error e' =>
        rw [ha, hrest] at h
        obtain rfl : e' = e := Except.error.inj h
        obtain ⟨b, hb, he⟩ := ih hrest
        exact ⟨b, List.mem_cons_of_mem a hb, he⟩
      | ok back =>
        rw [ha, hrest] at h
        cases h

theorem listMembers_eq_error {dir : Path} {p : Entry → Bool}
    (h : listMembers t dir p = .error e) : ∃ cause, e = .listing dir cause := by
  unfold listMembers at h
  split at h
  · cases h
  · exact ⟨_, (Except.error.inj h).symm⟩

/-- Looking for layout files fails with a directory that cannot be listed. -/
theorem allLayoutFiles_eq_error {roots : List Path} (h : allLayoutFiles t roots = .error e) :
    ∃ dir cause, e = .listing dir cause := by
  have hvariant {dir : Path} (h : filesOfVariant t dir = .error e) :
      ∃ dir cause, e = .listing dir cause := by
    unfold filesOfVariant at h
    split at h
    · cases h
    · rename_i hlist
      exact ⟨dir, listMembers_eq_error (hlist.trans (congrArg _ (Except.error.inj h)))⟩
  have hroot {root : Path} (h : filesOfRoot t root = .error e) :
      ∃ dir cause, e = .listing dir cause := by
    unfold filesOfRoot at h
    split at h
    · obtain ⟨v, -, hv⟩ := gather_eq_error h
      exact hvariant hv
    · rename_i hlist
      exact ⟨root, listMembers_eq_error (hlist.trans (congrArg _ (Except.error.inj h)))⟩
  unfold allLayoutFiles at h
  split at h
  · cases h
  · rename_i hgather
    obtain ⟨root, -, hfail⟩ := gather_eq_error (hgather.trans (congrArg _ (Except.error.inj h)))
    exact hroot hfail

/-- Pruning that fails has failed to list the layout files, or has deleted the holders of some first
layouts among the stale ones that are not backed. -/
theorem prune_eq_error {files : PathSet} {catalog : Catalog} {empty : List String}
    {removed : List Path} (h : (prune opts t files catalog empty removed).result = .error e) :
    opts.pruneStale = true ∧
      ((allLayoutFiles t opts.resDirs = .error e ∧
          (prune opts t files catalog empty removed).store = t) ∨
        ∃ listed done n rest, allLayoutFiles t opts.resDirs = .ok listed ∧
          (staleNames catalog empty removed).filter (· ∉ backedNames listed files removed) =
            done ++ n :: rest ∧
          (∃ cause, e = .writing (holderPath opts n) cause) ∧
          (prune opts t files catalog empty removed).store.textAt? =
            dropHolders opts t.textAt? done) := by
  unfold prune at h ⊢
  dsimp only at h ⊢
  split at h
  · cases h
  · rename_i hstale
    rw [if_neg hstale]
    refine ⟨Bool.not_eq_false _ ▸ fun hoff => hstale (by rw [hoff]; rfl), ?_⟩
    cases hlist : allLayoutFiles t opts.resDirs with
    | error e' =>
      rw [hlist] at h
      obtain rfl : e' = e := Except.error.inj h
      exact Or.inl ⟨rfl, rfl⟩
    | ok listed =>
      simp only [hlist] at h
      obtain ⟨done, n, rest, hnames, herror, htext⟩ := pruneAll_eq_error h
      refine Or.inr ⟨listed, done, n, rest, rfl, hnames ▸ ?_, herror, htext⟩
      exact List.filter_congr fun m _ => by simp

end

/-! ### Events -/

/-- Whether an event says that a run is over. -/
def CompileEvent.IsCompleted (v : CompileEvent) : Prop :=
  ∃ written unchanged empty pruned, v = .completed written unchanged empty pruned

section

variable {opts : CompileOptions}

theorem readAll_events (t : Tree) (files : List Path) :
    ∀ v ∈ (readAll opts t files).events, ¬ v.IsCompleted := by
  induction files with
  | nil => exact List.forall_mem_nil _
  | cons file files ih =>
    rw [readAll]
    split
    · exact List.forall_mem_nil _
    · exact List.forall_mem_cons.2 ⟨by simp [CompileEvent.IsCompleted], ih⟩

theorem writeAll_events {ls : List Layout} (hslash : ∀ l ∈ ls, '/' ∉ l.name.toList) (t : Tree) :
    ∀ v ∈ (writeAll opts t ls).events, ¬ v.IsCompleted := by
  refine (writeAll_isLoop opts).forall_mem_events fun l hl s => ?_
  rcases writeHolder_cases (hslash l hl) opts s with ⟨-, h⟩ | ⟨-, -, h⟩ | ⟨-, -, e, t', h, -⟩
  all_goals rw [h]; simp [CompileEvent.IsCompleted]

theorem prune_events (t : Tree) (files : PathSet) (catalog : Catalog) (empty : List String)
    (removed : List Path) :
    ∀ v ∈ (prune opts t files catalog empty removed).events, ¬ v.IsCompleted := by
  rw [prune_eq]
  split
  · exact List.forall_mem_nil _
  · refine (pruneAll_isLoop opts).forall_mem_events fun n _ s => ?_
    rcases pruneHolder_cases opts s n with ⟨-, h⟩ | ⟨-, -, h⟩ | ⟨-, -, e, h⟩
    all_goals rw [h]; simp [CompileEvent.IsCompleted]

/-- A run that fails does not say that it is over. -/
theorem run_events_of_error {t : Tree} {mode : CompileMode} {files : PathSet} {removed : List Path}
    {e : CompileError} (h : (run opts mode files removed t).result = .error e) :
    ∀ v ∈ (run opts mode files removed t).events, ¬ v.IsCompleted := by
  unfold run at h ⊢
  split at h
  · cases h
  · rename_i hsome
    rw [if_neg hsome]
    refine Progress.andThen_events h (by simp [CompileEvent.IsCompleted]) fun _ _ h => ?_
    refine Progress.andThen_events h (readAll_events _ _) fun ls hls h => ?_
    obtain ⟨-, rfl⟩ := readAll_eq_ok hls
    refine Progress.andThen_events h (List.forall_mem_map.2 ?_) fun _ _ h => ?_
    · simp [CompileEvent.IsCompleted]
    have hslash (l : Layout) (hl : l ∈ (catalogAt t opts files).filled) : '/' ∉ l.name.toList :=
      slash_notMem_name hl
    refine Progress.andThen_events h (writeAll_events hslash _) fun _ _ h => ?_
    exact Progress.andThen_events h (prune_events _ _ _ _ _) fun _ _ h => nomatch h

end

/-! ### Runs -/

/-- How a run over some files ends that fails: with an error, and with a tree. -/
inductive FailedRun (opts : CompileOptions) (t : Tree) (files : PathSet) (removed : List Path) :
    CompileError → Tree → Prop
  /-- The first file that cannot be read or parsed ends the run before anything has changed. -/
  | reading {done rest : List Path} {file : Path} {e : CompileError}
      (hfiles : files.toList = done ++ file :: rest)
      (hdone : ∀ p ∈ done, ∃ l, readLayout opts t p = .ok l)
      (hfile : readLayout opts t file = .error e) (herror : e.IsOfLayout file) :
      FailedRun opts t files removed e t
  /-- The holder of a layout cannot be written: those of the layouts before it are in place, and
  apart from directories nothing else was touched. -/
  | writing {done rest : List Layout} {l : Layout} {e : CompileError} {t' : Tree}
      (hread : ∀ p ∈ files.toList, ∃ l, readLayout opts t p = .ok l)
      (hfilled : (catalogAt t opts files).filled = done ++ l :: rest)
      (herror : e.IsOfHolder opts l.name)
      (htexts : t'.textAt? = placeHolders opts t.textAt? done)
      (hlog : Tree.Logged (fun c => (∃ m ∈ done, c.IsOfHolder opts m.name) ∨
        c.IsParentOf (holderPath opts l.name)) t t') :
      FailedRun opts t files removed e t'
  /-- The layout files cannot be listed before pruning: all holders are in place, and none is
  deleted. -/
  | listing {dir : Path} {cause : StoreError} {t' : Tree}
      (hread : ∀ p ∈ files.toList, ∃ l, readLayout opts t p = .ok l)
      (hprune : opts.pruneStale = true)
      (hlist : allLayoutFiles t' opts.resDirs = .error (.listing dir cause))
      (htexts : t'.textAt? = placeHolders opts t.textAt? (catalogAt t opts files).filled) :
      FailedRun opts t files removed (.listing dir cause) t'
  /-- A stale holder that is not backed cannot be deleted: all holders are in place, and those of
  the stale layouts before it that are not backed are deleted. -/
  | pruning {listed : PathSet} {done rest : List String} {n : String} {cause : StoreError}
      {t' : Tree} (hread : ∀ p ∈ files.toList, ∃ l, readLayout opts t p = .ok l)
      (hprune : opts.pruneStale = true)
      (hlist : allLayoutFiles (writeStage opts t files).store opts.resDirs = .ok listed)
      (hstale : (staleNames (catalogAt t opts files) (catalogAt t opts files).emptyNames
        removed).filter (· ∉ backedNames listed files removed) = done ++ n :: rest)
      (htexts : t'.textAt? = dropHolders opts
        (placeHolders opts t.textAt? (catalogAt t opts files).filled) done) :
      FailedRun opts t files removed (.writing (holderPath opts n) cause) t'

section

variable {opts : CompileOptions} {t : Tree} {mode : CompileMode} {files : PathSet}
  {removed : List Path} {e : CompileError}

/-- A run fails in one of its three stages, and leaves what this stage leaves. -/
theorem run_eq_error (h : (run opts mode files removed t).result = .error e) :
    ((readAll opts t files.toList).result = .error e ∧
        (run opts mode files removed t).store = t) ∨
      (∃ ls, (readAll opts t files.toList).result = .ok ls) ∧
        (((writeStage opts t files).result = .error e ∧
            (run opts mode files removed t).store = (writeStage opts t files).store) ∨
          (∃ outputs, (writeStage opts t files).result = .ok outputs) ∧
            (pruneStage opts t files removed).result = .error e ∧
            (run opts mode files removed t).store = (pruneStage opts t files removed).store) := by
  unfold run at h ⊢
  split at h
  · cases h
  · rename_i hsome
    rw [if_neg hsome]
    -- Two of the parts only report events and cannot fail.
    rcases Progress.andThen_eq_error h with ⟨hfail, -⟩ | ⟨-, -, h, hstore⟩
    · cases hfail
    rw [hstore]
    rcases Progress.andThen_eq_error h with ⟨hfail, hstore⟩ | ⟨ls, hls, h, hstore⟩
    · exact Or.inl ⟨hfail, hstore.trans (readAll_store opts t _)⟩
    rw [hstore]
    obtain ⟨-, hcatalog⟩ := readAll_eq_ok hls
    refine Or.inr ⟨⟨ls, hls⟩, ?_⟩
    rw [readAll_store] at h ⊢
    subst hcatalog
    rcases Progress.andThen_eq_error h with ⟨hfail, -⟩ | ⟨-, -, h, hstore⟩
    · cases hfail
    rw [hstore]
    rcases Progress.andThen_eq_error h with ⟨hfail, hstore⟩ | ⟨outputs, hwrite, h, hstore⟩
    · exact Or.inl ⟨hfail, hstore⟩
    rw [hstore]
    rcases Progress.andThen_eq_error h with ⟨hfail, hstore⟩ | ⟨_, _, hdone, _⟩
    · exact Or.inr ⟨⟨outputs, hwrite⟩, hfail, hstore⟩
    · cases hdone

/-- **What a run leaves that fails.** -/
theorem run_failed (h : (run opts mode files removed t).result = .error e) :
    FailedRun opts t files removed e (run opts mode files removed t).store ∧
      ∀ v ∈ (run opts mode files removed t).events, ¬ v.IsCompleted := by
  refine ⟨?_, run_events_of_error h⟩
  rcases run_eq_error h with ⟨hfail, hstore⟩ | ⟨⟨ls, hls⟩, hlater⟩
  · obtain ⟨done, file, rest, hfiles, hdone, hfile⟩ := readAll_eq_error hfail
    rw [hstore]
    exact .reading hfiles hdone hfile (readLayout_eq_error hfile)
  have hread : ∀ p ∈ files.toList, ∃ l, readLayout opts t p = .ok l := by
    intro p hp
    obtain ⟨l, hl⟩ := (readAll_eq_ok hls).1 _ (List.mem_map_of_mem hp)
    exact ⟨l, readLayout_eq_ok.2 hl⟩
  have hslash (l : Layout) (hl : l ∈ (catalogAt t opts files).filled) : '/' ∉ l.name.toList :=
    slash_notMem_name hl
  rcases hlater with ⟨hfail, hstore⟩ | ⟨⟨outputs, hwrite⟩, hfail, hstore⟩
  · obtain ⟨done, l, rest, hfilled, herror, htexts, hlog⟩ := writeAll_eq_error hslash hfail
    rw [hstore]
    exact .writing hread hfilled herror htexts hlog
  · have hplaced := writeStage_placed hwrite
    obtain ⟨hprune, hwhere⟩ := prune_eq_error hfail
    rcases hwhere with ⟨hlist, hkeep⟩ | ⟨listed, done, n, rest, hlist, hstale, ⟨cause, rfl⟩, htexts⟩
    · obtain ⟨dir, cause, rfl⟩ := allLayoutFiles_eq_error hlist
      rw [hstore, pruneStage, hkeep]
      exact .listing hread hprune hlist hplaced
    · rw [hstore]
      exact .pruning hread hprune hlist hstale (hplaced ▸ htexts)

end

/-! ### A small project -/

/-- The options of a project with two resource roots. -/
def backedOptions : CompileOptions := { sampleOptions with resDirs := [⟨"res"⟩, ⟨"lib"⟩] }

/-- The holders of three layouts.  The first layout has a file in the second resource root, and the
last holder cannot be changed. -/
def backedProject : Tree :=
  Tree.denyWrite
    (.ofFiles [(⟨"lib/layout/a.xml"⟩, "<a/>"), (holderPath backedOptions "a", ""),
      (holderPath backedOptions "b", ""), (holderPath backedOptions "c", "")])
    (holderPath backedOptions "c")

/-- The files of the layouts in the first resource root, which are gone. -/
def goneFiles : List Path := ["a", "b", "c"].map (sampleFile "layout")

/-- The run after the files in the first resource root have disappeared. -/
def backedRun : Progress Tree Report :=
  run backedOptions .incremental .empty goneFiles backedProject

/-- The error of the run. -/
def backedError : CompileError :=
  .writing (holderPath backedOptions "c") (.denied (holderLocation backedOptions "c").path)

/-- What the run reports and leaves. -/
theorem backedRun_eval : backedRun.result = .error backedError ∧
    backedRun.store.textAt? (holderLocation backedOptions "a") = some "" ∧
    backedRun.store.textAt? (holderLocation backedOptions "b") = none := by
  decide +kernel

theorem run_failed_backedRun : backedRun.result = .error backedError ∧
    FailedRun backedOptions backedProject .empty goneFiles backedError backedRun.store ∧
    ∀ v ∈ backedRun.events, ¬ v.IsCompleted :=
  ⟨backedRun_eval.1, run_failed backedRun_eval.1⟩

/-- A run that fails in pruning need not have deleted the holders of a prefix of the stale layouts:
the first one is backed, so its holder stays, while the second one is deleted. -/
theorem backedRun_skips :
    staleNames (catalogAt backedProject backedOptions .empty)
        (catalogAt backedProject backedOptions .empty).emptyNames goneFiles = ["a", "b", "c"] ∧
      backedRun.result = .error backedError ∧
      ∀ done, done <+: ["a", "b", "c"] → backedRun.store.textAt? ≠ dropHolders backedOptions
        (placeHolders backedOptions backedProject.textAt?
          (catalogAt backedProject backedOptions .empty).filled) done := by
  obtain ⟨hresult, hkept, hgone⟩ := backedRun_eval
  refine ⟨by decide +kernel, hresult, fun done hdone htexts => ?_⟩
  rw [htexts] at hkept hgone
  have hprefixes : ∀ done ∈ List.inits ["a", "b", "c"],
      ¬ (dropHolders backedOptions backedProject.textAt? done (holderLocation backedOptions "a") =
          some "" ∧
        dropHolders backedOptions backedProject.textAt? done (holderLocation backedOptions "b") =
          none) := by
    decide +kernel
  exact hprefixes done ((List.mem_inits _ _).2 hdone) ⟨hkept, hgone⟩

end ViewHolder
