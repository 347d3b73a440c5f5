import ViewHolder.Proofs.FailedRuns
import ViewHolder.Proofs.RunRecords

/-!
# What a summary tells

A listener that does not want to hear of every file misses the events of the files that are read,
and no others.  So it hears when a run starts and when it is over, but between the two it is told of
every layout without views, of every holder that is made, and of every holder that is deleted; and
if a run fails, it is told of all that was done before the failure.  A console is such a listener
unless it is verbose, and it needs these events: it writes the holders that are written or deleted,
and of the events that it misses it would write none.

## Main definitions

* `SummaryCourse` : what is told of a run, less the files that are read.
* `CompileRequest.IsIdle` : a compile has nothing to do.

## Main results

* `Progress.IsLoop.events_append` : the events of a loop over two lists.
* `run_summary` : what is told of a run with something to do, failing or not.
* `Listener.hear_console` : a console misses nothing that it would write.
* `CompileRequest.summary_events` : what a listener is told that wants a summary.
* `CompileRequest.summary_tells_outputs` : a summary with the holder that was written.
-/

namespace ViewHolder

/-- A loop over two lists tells of the first one and then of the second one, unless it fails in the
first one. -/
theorem Progress.IsLoop.events_append {σ α β γ : Type} {step : σ → α → Progress σ β}
    {loop : σ → List α → Progress σ γ} (hloop : IsLoop step loop) {s : σ} {as : List α} {c : γ}
    (h : (loop s as).result = .ok c) (bs : List α) :
    (loop s (as ++ bs)).events = (loop s as).events ++ (loop (loop s as).store bs).events := by
  -- The store changes with every step, so the claim is for all stores at once.
  induction as generalizing s c with
  | nil =>
    obtain ⟨d, hd⟩ := hloop.nil s
    rw [hd]
    rfl
  | cons a as ih =>
    cases hstep : (step s a).result with
    | error e =>
      rw [hloop.stops hstep] at h
      cases h
    | ok b =>
      obtain ⟨f, hrest⟩ := hloop.goes_on as hstep
      obtain ⟨g, hboth⟩ := hloop.goes_on (as ++ bs) hstep
      rw [hrest] at h ⊢
      obtain ⟨d, hd, -⟩ := map_eq_ok_iff.1 h
      rw [List.cons_append, hboth, ih hd, List.append_assoc]

section

variable {opts : CompileOptions} {t : Tree}

/-! ### Stages that fail -/

/-- Writing that fails tells of the holders of the layouts before the one that its error names. -/
theorem writeAll_tells_of_error {ls : List Layout} (hslash : ∀ l ∈ ls, '/' ∉ l.name.toList)
    {e : CompileError} (h : (writeAll opts t ls).result = .error e) :
    ∃ done l rest, ls = done ++ l :: rest ∧ e.IsOfHolder opts l.name ∧
      List.Forall₂ (TellsMade opts) done (writeAll opts t ls).events := by
  obtain ⟨done, l, rest, rfl, ⟨outputs, hdone⟩, hl, -⟩ := (writeAll_isLoop opts).eq_error h
  obtain ⟨hbefore, hothers⟩ := List.forall_mem_append.1 hslash
  have hslash := hothers l List.mem_cons_self
  obtain ⟨-, -, herror⟩ := writeHolder_eq_error hslash hl
  have hquiet : (writeHolder opts (writeAll opts t done).store l).events = [] := by
    rcases writeHolder_cases hslash opts (writeAll opts t done).store with ⟨-, hstep⟩ |
      ⟨-, -, hstep⟩ | ⟨-, -, _, _, hstep, -⟩
    · rw [hstep] at hl
      cases hl
    · rw [hstep] at hl
      cases hl
    · rw [hstep]
  refine ⟨done, l, rest, rfl, herror, ?_⟩
  rw [(writeAll_isLoop opts).events_append hdone, (writeAll_isLoop opts).stops hl, hquiet,
    List.append_nil]
  exact (writeAll_tells hbefore hdone).1

/-- Deleting that fails tells of the holders that it has deleted. -/
theorem pruneAll_tells_of_error {ns : List String} {e : CompileError}
    (h : (pruneAll opts t ns).result = .error e) :
    ∃ names : List String, names.Sublist ns ∧
      (pruneAll opts t ns).events = names.map (prunedEvent opts) := by
  obtain ⟨done, n, rest, rfl, ⟨pruned, hdone⟩, hn, -⟩ := (pruneAll_isLoop opts).eq_error h
  have hquiet : (pruneHolder opts (pruneAll opts t done).store n).events = [] := by
    rcases pruneHolder_cases opts (pruneAll opts t done).store n with ⟨-, hstep⟩ |
      ⟨-, -, hstep⟩ | ⟨-, -, _, hstep⟩
    · rw [hstep]
    · rw [hstep] at hn
      cases hn
    · rw [hstep]
  obtain ⟨names, hsub, hnames, -⟩ := pruneAll_tells hdone
  refine ⟨names, hsub.trans (List.sublist_append_left _ _), ?_⟩
  rw [(pruneAll_isLoop opts).events_append hdone, (pruneAll_isLoop opts).stops hn, hquiet,
    List.append_nil, hnames]

/-- What the pruning stage tells, failing or not, and what it reports if it succeeds. -/
theorem pruneStage_names (opts : CompileOptions) (t : Tree) (files : PathSet)
    (removed : List Path) : ∃ names : List String, names.Sublist (runStale opts t files removed) ∧
      (pruneStage opts t files removed).events = names.map (prunedEvent opts) ∧
      ∀ pruned, (pruneStage opts t files removed).result = .ok pruned →
        pruned = names.map (holderPath opts) := by
  cases hresult : (pruneStage opts t files removed).result with
  | ok pruned =>
    obtain ⟨⟨names, hsub, hevents, hpruned⟩, -⟩ := pruneStage_tells hresult
    exact ⟨names, hsub, hevents, fun _ h => (Except.ok.inj h).symm.trans hpruned⟩
  | error e =>
    rw [pruneStage, prune_eq, ← runStale] at hresult ⊢
    cases hnames : unbackedNames opts (writeStage opts t files).store files
        (runStale opts t files removed) removed with
    | error e => exact ⟨[], List.nil_sublist _, rfl, by simp⟩
    | ok stale =>
      rw [hnames] at hresult
      obtain ⟨names, hsub, hevents⟩ := pruneAll_tells_of_error hresult
      exact ⟨names, hsub.trans (unbackedNames_sublist hnames), hevents, by simp⟩

/-! ### Files that are read -/

/-- Reading tells of files that are read, and of nothing else. -/
theorem filter_readAll (opts : CompileOptions) (t : Tree) (files : List Path) :
    (readAll opts t files).events.filter (fun v => !v.isParsed) = [] := by
  induction files with
  | nil => rfl
  | cons file files ih =>
    rw [readAll]
    split
    · rfl
    · exact ih

theorem filter_made {ls : List Layout} {made : List CompileEvent}
    (h : List.Forall₂ (TellsMade opts) ls made) : made.filter (fun v => !v.isParsed) = made := by
  induction h with
  | nil => rfl
  | cons htell _ ih => rcases htell with rfl | rfl <;> exact congrArg _ ih

/-- What is told of a run up to its stages that make and delete holders, less the files that are
read. -/
theorem filter_begun (mode : CompileMode) (files : PathSet) (names : List String)
    (later : List CompileEvent) :
    (CompileEvent.started mode files.size :: ((readAll opts t files.toList).events ++
        (names.map .empty ++ later))).filter (fun v => !v.isParsed) =
      .started mode files.size :: (names.map .empty ++ later.filter fun v => !v.isParsed) := by
  have hempty : (names.map CompileEvent.empty).filter (fun v => !v.isParsed) = names.map .empty :=
    List.filter_eq_self.2 (List.forall_mem_map.2 fun _ _ => rfl)
  rw [List.filter_cons_of_pos rfl, List.filter_append, filter_readAll, List.nil_append,
    List.filter_append, hempty]

theorem filter_pruned (names : List String) :
    (names.map (prunedEvent opts)).filter (fun v => !v.isParsed) = names.map (prunedEvent opts) :=
  List.filter_eq_self.2 (List.forall_mem_map.2 fun _ _ => rfl)

/-! ### Runs -/

/-- What is told of a run with something to do, less the files that are read. -/
inductive SummaryCourse (opts : CompileOptions) (t : Tree) (mode : CompileMode) (files : PathSet)
    (removed : List Path) : Except CompileError Report → List CompileEvent → Prop
  /-- A run that succeeds tells of every layout without views, of every holder that it makes, in the
  order of the layouts, and of every holder that it deletes, and that it is over. -/
  | ok {report : Report} {made : List CompileEvent} {names : List String}
      (hmade : List.Forall₂ (TellsMade opts) (catalogAt t opts files).filled made)
      (hnames : names.Sublist (runStale opts t files removed))
      (hpruned : report.pruned = names.map (holderPath opts)) :
      SummaryCourse opts t mode files removed (.ok report)
        (.started mode files.size :: ((catalogAt t opts files).emptyNames.map .empty ++
          (made ++ (names.map (prunedEvent opts) ++ [.completed report.written.length
            report.unchanged.length report.empty.length report.pruned.length]))))
  /-- A run that fails in reading tells that it has started. -/
  | reading {e : CompileError} (hread : (readAll opts t files.toList).result = .error e) :
      SummaryCourse opts t mode files removed (.error e) [.started mode files.size]
  /-- A run that fails in writing tells of every layout without views and of the holders that it has
  made before the one that the error names. -/
  | writing {e : CompileError} {done rest : List Layout} {l : Layout} {made : List CompileEvent}
      (hfilled : (catalogAt t opts files).filled = done ++ l :: rest)
      (herror : e.IsOfHolder opts l.name)
      (hmade : List.Forall₂ (TellsMade opts) done made) :
      SummaryCourse opts t mode files removed (.error e)
        (.started mode files.size :: ((catalogAt t opts files).emptyNames.map .empty ++ made))
  /-- A run that fails in pruning tells of every layout without views, of every holder that it
  makes, and of the holders that it has deleted before. -/
  | pruning {e : CompileError} {made : List CompileEvent} {names : List String}
      (hmade : List.Forall₂ (TellsMade opts) (catalogAt t opts files).filled made)
      (hnames : names.Sublist (runStale opts t files removed)) :
      SummaryCourse opts t mode files removed (.error e)
        (.started mode files.size :: ((catalogAt t opts files).emptyNames.map .empty ++
          (made ++ names.map (prunedEvent opts))))

variable {mode : CompileMode} {files : PathSet} {removed : List Path}

/-- The end of a run: it tells what it has done, and reports it. -/
def closeRun (files : PathSet) (empty : List String) (outputs : List Output) (t : Tree)
    (pruned : List Path) : Progress Tree Report :=
  ⟨t, [.completed (outputs.filterMap (·.written?)).length (outputs.filterMap (·.unchanged?)).length
    empty.length pruned.length],
    .ok ⟨files.size, outputs.filterMap (·.written?), outputs.filterMap (·.unchanged?), empty,
      pruned⟩⟩

section

variable (mode)
  (hread : ∀ k ∈ files.places, ∃ l, t.layoutAt? opts k = some l)
  (hwork : ¬ (files.isEmpty && !(opts.pruneStale && !removed.isEmpty)) = true)
include hread hwork

/-- A run whose files can be read tells of its layouts without views, and goes on with the stages
that make and delete holders. -/
theorem run_eq_of_read : run opts mode files removed t =
    (Progress.mk t (.started mode files.size :: ((readAll opts t files.toList).events ++
      (catalogAt t opts files).emptyNames.map .empty)) (.ok ())).andThen fun _ _ =>
    (writeStage opts t files).andThen fun s outputs =>
    (prune opts s files (catalogAt t opts files) (catalogAt t opts files).emptyNames
      removed).andThen (closeRun files (catalogAt t opts files).emptyNames outputs) := by
  have hread := readAll_of_layouts hread
  rw [run, if_neg hwork, Progress.andThen_of_ok rfl]
  dsimp only
  rw [Progress.andThen_of_ok hread, readAll_store]
  dsimp only
  rw [Progress.andThen_of_ok rfl, Progress.andThen_of_ok (p := ⟨t, _, .ok ()⟩) rfl]
  dsimp only
  rw [List.singleton_append, List.cons_append, List.append_assoc]
  rfl

/-- A run whose files can be read, and whose writing stage fails, ends there. -/
theorem run_eq_of_writing {e : CompileError}
    (hwrite : (writeStage opts t files).result = .error e) :
    run opts mode files removed t = ⟨(writeStage opts t files).store,
      .started mode files.size :: ((readAll opts t files.toList).events ++
        ((catalogAt t opts files).emptyNames.map .empty ++ (writeStage opts t files).events)),
      .error e⟩ := by
  rw [run_eq_of_read mode hread hwork, Progress.andThen_of_ok rfl, Progress.andThen_of_error hwrite,
    List.cons_append, List.append_assoc]

/-- A run whose files can be read, and whose pruning stage fails, ends there. -/
theorem run_eq_of_pruning {outputs : List Output} {e : CompileError}
    (hwrite : (writeStage opts t files).result = .ok outputs)
    (hprune : (pruneStage opts t files removed).result = .error e) :
    run opts mode files removed t = ⟨(pruneStage opts t files removed).store,
      .started mode files.size :: ((readAll opts t files.toList).events ++
        ((catalogAt t opts files).emptyNames.map .empty ++ ((writeStage opts t files).events ++
          (pruneStage opts t files removed).events))),
      .error e⟩ := by
  rw [pruneStage] at hprune ⊢
  rw [run_eq_of_read mode hread hwork, Progress.andThen_of_ok rfl, Progress.andThen_of_ok hwrite]
  dsimp only
  rw [Progress.andThen_of_error hprune, List.cons_append, List.append_assoc]

end

/-- **What is told of a run with something to do**, less the files that are read. -/
theorem run_summary
    (hwork : ¬ (files.isEmpty && !(opts.pruneStale && !removed.isEmpty)) = true) :
    SummaryCourse opts t mode files removed (run opts mode files removed t).result
      ((run opts mode files removed t).events.filter fun v => !v.isParsed) := by
  have hslash (l : Layout) (hl : l ∈ (catalogAt t opts files).filled) : '/' ∉ l.name.toList :=
    slash_notMem_name hl
  cases hread : (readAll opts t files.toList).result with
  | error e =>
    rw [run, if_neg hwork, Progress.andThen_of_ok rfl]
    dsimp only
    rw [Progress.andThen_of_error hread]
    dsimp only
    rw [List.filter_append, filter_readAll]
    exact .reading hread
  | ok ls =>
    obtain ⟨hthere, -⟩ := readAll_eq_ok hread
    cases hwrite : (writeStage opts t files).result with
    | error e =>
      obtain ⟨done, l, rest, hfilled, herror, hmade⟩ := writeAll_tells_of_error hslash hwrite
      rw [← writeStage] at hmade
      rw [run_eq_of_writing mode hthere hwork hwrite, filter_begun, filter_made hmade]
      exact .writing hfilled herror hmade
    | ok outputs =>
      obtain ⟨hmade, -⟩ := writeAll_tells hslash hwrite
      rw [← writeStage] at hmade
      obtain ⟨names, hsub, hevents, hpruned⟩ := pruneStage_names opts t files removed
      cases hprune : (pruneStage opts t files removed).result with
      | error e =>
        rw [run_eq_of_pruning mode hthere hwork hwrite hprune, filter_begun, List.filter_append,
          filter_made hmade, hevents, filter_pruned]
        exact .pruning hmade hsub
      | ok pruned =>
        rw [run_eq_of_stages mode hthere hwrite hprune hwork, filter_begun, List.filter_append,
          filter_made hmade, hevents, List.filter_append, filter_pruned]
        exact .ok hmade hsub (hpruned pruned hprune)

/-- A run whose files can be read is about no layout exactly if there are no files. -/
theorem catalogAt_eq_nil_iff (hread : ∀ k ∈ files.places, ∃ l, t.layoutAt? opts k = some l) :
    (catalogAt t opts files).emptyNames = [] ∧ (catalogAt t opts files).filled = [] ↔
      files.size = 0 := by
  rw [PathSet.size, List.length_eq_zero_iff, Catalog.emptyNames, Catalog.filled,
    List.map_eq_nil_iff]
  have hnames := names_catalogAt hread
  constructor
  · rintro ⟨hempty, hfilled⟩
    have hnone : (catalogAt t opts files).layouts = [] := by
      refine List.eq_nil_iff_forall_not_mem.2 fun l hl => ?_
      have hviews := List.filter_eq_nil_iff.1 hempty l hl
      exact List.filter_eq_nil_iff.1 hfilled l hl (by simpa using hviews)
    rw [hnone] at hnames
    refine List.eq_nil_iff_forall_not_mem.2 fun p hp => ?_
    have hstem : p.stem ∈ (files.toList.map Path.stem).eraseDups :=
      List.mem_eraseDups.2 (List.mem_map_of_mem hp)
    rw [← hnames] at hstem
    cases hstem
  · intro hnil
    rw [hnil] at hnames
    rw [List.map_eq_nil_iff.1 hnames]
    exact ⟨rfl, rfl⟩

/-- A successful run tells of its start and its end only, exactly if it has no files and deletes
nothing. -/
theorem SummaryCourse.eq_frame_iff
    (hread : ∀ k ∈ files.places, ∃ l, t.layoutAt? opts k = some l) {report : Report}
    {events : List CompileEvent} (h : SummaryCourse opts t mode files removed (.ok report) events) :
    events = [.started mode files.size, .completed report.written.length report.unchanged.length
        report.empty.length report.pruned.length] ↔
      files.size = 0 ∧ report.pruned = [] := by
  cases h with
  | @ok _ made names hmade _ hpruned =>
    have hmadenil : made = [] ↔ (catalogAt t opts files).filled = [] := by
      rw [← List.length_eq_zero_iff, ← hmade.length_eq, List.length_eq_zero_iff]
    rw [List.cons.injEq, and_iff_right rfl, ← List.append_assoc, ← List.append_assoc,
      List.append_left_eq_self, List.append_eq_nil_iff, List.append_eq_nil_iff, List.map_eq_nil_iff,
      List.map_eq_nil_iff, hmadenil, catalogAt_eq_nil_iff hread, hpruned, List.map_eq_nil_iff]

end

/-! ### Listeners -/

/-- **A console misses nothing that it would write**: it wants to hear of every file that is read
exactly if it writes these files. -/
theorem Listener.hear_console (v : Verbosity) (events : List CompileEvent) :
    (console v).hear events = events.filterMap (console v).line? := by
  rw [hear, delivered]
  cases hv : (console v).detailed with
  | true => rfl
  | false =>
    have hquiet (p : Path) (n : Nat) : (console v).line? (.parsed p n) = none :=
      if_neg (Bool.eq_false_iff.1 hv)
    rw [if_neg Bool.false_ne_true, List.filterMap_filter]
    refine List.filterMap_congr fun e _ => ?_
    cases e with
    | parsed p n => exact (hquiet p n).symm
    | started | empty | written | unchanged | pruned | completed => rfl

/-! ### Compiles -/

namespace CompileRequest

/-- A compile has nothing to do: there are no files to read, and no holders of removed files to
delete. -/
def IsIdle (opts : CompileOptions) (files : PathSet) (r : CompileRequest) : Prop :=
  files.size = 0 ∧ (opts.pruneStale = true → r.removed = [])

theorem isIdle_iff {opts : CompileOptions} {files : PathSet} {r : CompileRequest} :
    r.IsIdle opts files ↔
      (files.isEmpty && !(opts.pruneStale && !r.removed.isEmpty)) = true := by
  rw [IsIdle, Bool.and_eq_true, PathSet.isEmpty, PathSet.size, List.isEmpty_iff,
    List.length_eq_zero_iff]
  cases opts.pruneStale <;> simp

/-- **What a listener is told that wants a summary.**  It misses the files that are read, and no
other event that a detailed listener is told of.  It is told of nothing if the files cannot be
listed or there is nothing to do.  Otherwise it is told of the start of the run, of every layout
without views, of every holder that is made or deleted, and of the end of the run; if the run fails,
it is told of what was done before.  So it is told of no more than the start and the end of a
successful run exactly if the run has no files and deletes nothing. -/
theorem summary_events (r : CompileRequest) (opts : CompileOptions) (t : Tree)
    {summary detailed : Listener} (hsummary : summary.detailed = false)
    (hdetailed : detailed.detailed = true) :
    summary.delivered (r.compile opts t).events =
      (detailed.delivered (r.compile opts t).events).filter (fun v => !v.isParsed) ∧
    (∀ e, r.candidates t = .error e → summary.delivered (r.compile opts t).events = []) ∧
    ∀ files, r.candidates t = .ok files →
      (r.IsIdle opts files → summary.delivered (r.compile opts t).events = []) ∧
      (¬ r.IsIdle opts files →
        SummaryCourse opts t r.mode files r.removed (r.compile opts t).result
          (summary.delivered (r.compile opts t).events) ∧
        ∀ report, (r.compile opts t).result = .ok report →
          (summary.delivered (r.compile opts t).events = [.started r.mode files.size,
              .completed report.written.length report.unchanged.length report.empty.length
                report.pruned.length] ↔
            files.size = 0 ∧ report.pruned = [])) := by
  have hall (events : List CompileEvent) : detailed.delivered events = events := if_pos hdetailed
  have hmissed (events : List CompileEvent) :
      summary.delivered events = events.filter fun v => !v.isParsed := by
    rw [Listener.delivered, hsummary]
    rfl
  simp only [hall, hmissed]
  refine ⟨trivial, fun e he => ?_, fun files hfiles => ?_⟩
  · rw [compile_eq, he]
    rfl
  · have hrun : r.compile opts t = run opts r.mode files r.removed t := by rw [compile_eq, hfiles]
    rw [hrun]
    refine ⟨fun hidle => ?_, fun hwork => ?_⟩
    · rw [run, if_pos (isIdle_iff.1 hidle)]
      rfl
    · have hcourse : SummaryCourse opts t r.mode files r.removed
          (run opts r.mode files r.removed t).result
          ((run opts r.mode files r.removed t).events.filter fun v => !v.isParsed) :=
        run_summary (mt isIdle_iff.2 hwork)
      refine ⟨hcourse, fun report hreport => ?_⟩
      rw [hreport] at hcourse
      exact hcourse.eq_frame_iff (run_eq_ok hreport).1

theorem summary_events_staleRun : ∃ files,
    affectedFiles staleHolder [sampleFile "layout" "main"] [sampleFile "layout" "old"] = .ok files ∧
    SummaryCourse sampleOptions staleHolder .incremental files [sampleFile "layout" "old"]
      staleRun.result ((Listener.console .normal).delivered staleRun.events) ∧
    (Listener.console .normal).delivered staleRun.events ≠
      [.started .incremental files.size, .completed 1 0 0 1] := by
  obtain ⟨hread, hok, -⟩ := staleRun_eval
  obtain ⟨files, hfiles, -⟩ := exists_ok_of_map hread
  obtain ⟨-, -, hcourse⟩ := summary_events
    (.incremental [sampleFile "layout" "main"] [sampleFile "layout" "old"]) sampleOptions
    staleHolder (by decide : (Listener.console .normal).detailed = false)
    (rfl : Listener.json.detailed = true)
  obtain ⟨-, hbusy⟩ := hcourse files hfiles
  obtain ⟨hcourse, hframe⟩ := hbusy fun hidle => List.cons_ne_nil _ _ (hidle.2 rfl)
  refine ⟨files, hfiles, hcourse, mt (hframe _ hok).1 fun hnothing => ?_⟩
  exact List.cons_ne_nil _ _ hnothing.2

/-- A listener that wants a summary is told of the holder that a run writes, also if the run fails
at a later one. -/
theorem summary_tells_outputs :
    (Listener.console .normal).detailed = false ∧
    (Listener.console .normal).delivered (compile sampleOptions (.ofFiles
        [(sampleFile "layout" "main", sampleText "a")]) (.full [⟨"res"⟩])).events =
      [.started .full 1, .written "main" (holderPath sampleOptions "main"), .completed 1 0 0 0] ∧
    (Listener.console .normal).delivered (compile sampleOptions (Tree.denyWrite (.ofFiles
        [(sampleFile "layout" "a", sampleText "a"), (sampleFile "layout" "b", sampleText "b")])
        (holderPath sampleOptions "b")) (.full [⟨"res"⟩])).events =
      [.started .full 2, .written "a" (holderPath sampleOptions "a")] := by
  decide +kernel

end CompileRequest

end ViewHolder
