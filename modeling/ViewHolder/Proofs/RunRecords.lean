import ViewHolder.Proofs.CompileFrame
import ViewHolder.Proofs.LiveHolders
import ViewHolder.Proofs.RunSuccess

/-!
# The three records of a run

A run tells what it does in three ways: by its events, by its report, and by the log of the tree
that it changes.  For a successful run the events determine the other two: the report is what the
events say, and the log grows by the changes that they stand for.

## Main definitions

* `CompileEvent.changes` : the changes of a tree that an event stands for.
* `Report.ofEvents` : the report that some events make.
* `Progress.Logs` : a run whose log grows by what its events stand for.

## Main results

* `CompileRequest.compile_records` : events, report and log of a successful compile.
-/

namespace ViewHolder

/-! ### What events tell -/

namespace CompileEvent

/-- The holder that an event says was written. -/
def written? : CompileEvent → Option Path
  | written _ p => some p
  | _ => none

/-- The holder that an event says was up to date. -/
def unchanged? : CompileEvent → Option Path
  | unchanged _ p => some p
  | _ => none

/-- The layout that an event says has no views. -/
def empty? : CompileEvent → Option String
  | empty l => some l
  | _ => none

/-- The holder that an event says was deleted. -/
def pruned? : CompileEvent → Option Path
  | pruned _ p => some p
  | _ => none

/-- The changes of a tree that an event stands for: a holder is written after its directory was
created. -/
def changes : CompileEvent → List Change
  | written _ p => [.createDir p.location.dropLast, .write p.location]
  | pruned _ p => [.remove p.location]
  | _ => []

end CompileEvent

namespace Report

/-- The report that some events make. -/
def ofEvents (events : List CompileEvent) : Report where
  parsed := events.countP (·.isParsed)
  written := events.filterMap (·.written?)
  unchanged := events.filterMap (·.unchanged?)
  empty := events.filterMap (·.empty?)
  pruned := events.filterMap (·.pruned?)

/-- The report of two parts of a run. -/
def append (r s : Report) : Report :=
  ⟨r.parsed + s.parsed, r.written ++ s.written, r.unchanged ++ s.unchanged, r.empty ++ s.empty,
    r.pruned ++ s.pruned⟩

theorem ofEvents_append (events more : List CompileEvent) :
    ofEvents (events ++ more) = (ofEvents events).append (ofEvents more) := by
  simp only [ofEvents, append, List.countP_append, List.filterMap_append]

theorem ofEvents_cons (e : CompileEvent) (events : List CompileEvent) :
    ofEvents (e :: events) = (ofEvents [e]).append (ofEvents events) :=
  ofEvents_append [e] events

end Report

/-! ### Logs -/

/-- The log of a tree has grown by the changes that the events of a run stand for. -/
def Progress.Logs {α : Type} (p : Progress Tree α) (t : Tree) : Prop :=
  p.store.log = t.log ++ p.events.flatMap CompileEvent.changes

/-- If the log of a tree grows with every successful step as its events say, it does so with a
successful loop. -/
theorem Progress.IsLoop.logs {α β γ : Type} {step : Tree → α → Progress Tree β}
    {loop : Tree → List α → Progress Tree γ} (hloop : IsLoop step loop) {t : Tree} {as : List α}
    (hstep : ∀ a ∈ as, ∀ t b, (step t a).result = .ok b → (step t a).Logs t) {c : γ}
    (h : (loop t as).result = .ok c) : (loop t as).Logs t := by
  induction as generalizing t c with
  | nil =>
    obtain ⟨c, hc⟩ := hloop.nil t
    rw [hc]
    exact (List.append_nil _).symm
  | cons a as ih =>
    obtain ⟨ha, hothers⟩ := List.forall_mem_cons.1 hstep
    cases hfirst : (step t a).result with
    | error e =>
      rw [hloop.stops hfirst] at h
      cases h
    | ok b =>
      obtain ⟨f, hrest⟩ := hloop.goes_on as hfirst
      rw [hrest] at h ⊢
      obtain ⟨c', hresult, -⟩ := map_eq_ok_iff.1 h
      have hfront : (step t a).Logs t := ha t b hfirst
      have hback : (loop (step t a).store as).Logs (step t a).store := ih hothers hresult
      rw [Logs] at hfront hback ⊢
      rw [hback, hfront, List.flatMap_append, List.append_assoc]

section

variable {opts : CompileOptions} {t : Tree}

/-! ### Reading -/

/-- An event tells that a file was read, with the number of its views. -/
def TellsParsed (opts : CompileOptions) (t : Tree) (file : Path) (e : CompileEvent) : Prop :=
  ∃ l, readLayout opts t file = .ok l ∧ e = .parsed file l.views.length

theorem readAll_tells {files : List Path} {ls : List Layout}
    (h : (readAll opts t files).result = .ok ls) :
    List.Forall₂ (TellsParsed opts t) files (readAll opts t files).events := by
  induction files generalizing ls with
  | nil => exact .nil
  | cons file files ih =>
    rw [readAll] at h ⊢
    split at h
    · cases h
    · rename_i l hl
      obtain ⟨later, hlater, -⟩ := map_eq_ok_iff.1 h
      exact .cons ⟨l, hl, rfl⟩ (ih hlater)

theorem ofEvents_parsed {files : List Path} {events : List CompileEvent}
    (h : List.Forall₂ (TellsParsed opts t) files events) :
    Report.ofEvents events = ⟨files.length, [], [], [], []⟩ ∧
      events.flatMap CompileEvent.changes = [] := by
  induction h with
  | nil => exact ⟨rfl, rfl⟩
  | cons htell _ ih =>
    obtain ⟨l, -, rfl⟩ := htell
    obtain ⟨hreport, hchanges⟩ := ih
    refine ⟨?_, hchanges⟩
    rw [Report.ofEvents_cons, hreport, List.length_cons, Nat.add_comm]
    rfl

theorem ofEvents_empty (names : List String) :
    Report.ofEvents (names.map .empty) = ⟨0, [], [], names, []⟩ ∧
      (names.map CompileEvent.empty).flatMap CompileEvent.changes = [] := by
  induction names with
  | nil => exact ⟨rfl, rfl⟩
  | cons n names ih =>
    refine ⟨?_, ih.2⟩
    rw [List.map_cons, Report.ofEvents_cons, ih.1]
    rfl

/-! ### Writing -/

/-- An event tells that the holder of a layout was written or is up to date. -/
def TellsMade (opts : CompileOptions) (l : Layout) (e : CompileEvent) : Prop :=
  e = .written l.name (holderPath opts l.name) ∨ e = .unchanged l.name (holderPath opts l.name)

theorem writeHolder_tells {l : Layout} (hl : '/' ∉ l.name.toList) {output : Output}
    (h : (writeHolder opts t l).result = .ok output) :
    (∃ e, (writeHolder opts t l).events = [e] ∧ TellsMade opts l e ∧
      Report.ofEvents [e] = ⟨0, output.written?.toList, output.unchanged?.toList, [], []⟩) ∧
    (writeHolder opts t l).Logs t := by
  rcases writeHolder_cases hl opts t with ⟨-, hstep⟩ | ⟨-, -, hstep⟩ | ⟨-, -, e, t', hstep, -⟩
  · rw [hstep] at h ⊢
    obtain rfl := Except.ok.inj h
    exact ⟨⟨_, rfl, Or.inr rfl, rfl⟩, (List.append_nil _).symm⟩
  · rw [hstep] at h ⊢
    obtain rfl := Except.ok.inj h
    refine ⟨⟨_, rfl, Or.inl rfl, rfl⟩, ?_⟩
    exact List.append_assoc _ _ _
  · rw [hstep] at h
    cases h

theorem writeAll_tells {ls : List Layout} (hslash : ∀ l ∈ ls, '/' ∉ l.name.toList)
    {outputs : List Output} (h : (writeAll opts t ls).result = .ok outputs) :
    List.Forall₂ (TellsMade opts) ls (writeAll opts t ls).events ∧
      Report.ofEvents (writeAll opts t ls).events =
        ⟨0, outputs.filterMap (·.written?), outputs.filterMap (·.unchanged?), [], []⟩ := by
  induction ls generalizing t outputs with
  | nil =>
    rw [← Except.ok.inj h]
    exact ⟨.nil, rfl⟩
  | cons l ls ih =>
    obtain ⟨hl, hothers⟩ := List.forall_mem_cons.1 hslash
    obtain ⟨output, later, hwrite, hlater, rfl⟩ := exists_of_writeAll_cons h
    obtain ⟨⟨e, hevent, htells, hreport⟩, -⟩ := writeHolder_tells hl hwrite
    obtain ⟨hrest, hlaterreport⟩ := ih hothers hlater
    rw [writeAll_cons hwrite hlater, hevent]
    refine ⟨.cons htells hrest, ?_⟩
    rw [List.singleton_append, Report.ofEvents_cons, hreport, hlaterreport]
    cases output <;> rfl

/-! ### Pruning -/

/-- The event that the holder of a layout was deleted. -/
def prunedEvent (opts : CompileOptions) (n : String) : CompileEvent :=
  .pruned n (holderPath opts n)

theorem pruneHolder_tells {n : String} {pruned : List Path}
    (h : (pruneHolder opts t n).result = .ok pruned) :
    (∃ names : List String, names.Sublist [n] ∧
      (pruneHolder opts t n).events = names.map (prunedEvent opts) ∧
      pruned = names.map (holderPath opts)) ∧
    (pruneHolder opts t n).Logs t := by
  rcases pruneHolder_cases opts t n with ⟨-, hstep⟩ | ⟨-, -, hstep⟩ | ⟨-, -, e, hstep⟩
  · rw [hstep] at h ⊢
    exact ⟨⟨[], List.nil_sublist _, rfl, (Except.ok.inj h).symm⟩, (List.append_nil _).symm⟩
  · rw [hstep] at h ⊢
    exact ⟨⟨[n], List.Sublist.refl _, rfl, (Except.ok.inj h).symm⟩, rfl⟩
  · rw [hstep] at h
    cases h

theorem pruneAll_tells {ns : List String} {pruned : List Path}
    (h : (pruneAll opts t ns).result = .ok pruned) :
    ∃ names : List String, names.Sublist ns ∧
      (pruneAll opts t ns).events = names.map (prunedEvent opts) ∧
      pruned = names.map (holderPath opts) := by
  induction ns generalizing t pruned with
  | nil => exact ⟨[], List.Sublist.refl _, rfl, (Except.ok.inj h).symm⟩
  | cons n ns ih =>
    obtain ⟨first, later, hfirst, hlater, rfl⟩ := exists_of_pruneAll_cons h
    obtain ⟨⟨names, hnames, hevents, rfl⟩, -⟩ := pruneHolder_tells hfirst
    obtain ⟨more, hmore, hmoreevents, rfl⟩ := ih hlater
    rw [pruneAll_cons hfirst hlater, List.map_append.symm]
    refine ⟨names ++ more, hnames.append hmore, ?_, rfl⟩
    dsimp only
    rw [hevents, hmoreevents, List.map_append]

theorem ofEvents_pruned (names : List String) :
    Report.ofEvents (names.map (prunedEvent opts)) =
      ⟨0, [], [], [], names.map (holderPath opts)⟩ := by
  induction names with
  | nil => rfl
  | cons n names ih =>
    rw [List.map_cons, Report.ofEvents_cons, ih]
    rfl

/-! ### Runs -/

variable {files : PathSet} {removed : List Path}

theorem writeStage_logs {outputs : List Output}
    (h : (writeStage opts t files).result = .ok outputs) : (writeStage opts t files).Logs t :=
  (writeAll_isLoop opts).logs
    (fun _ hl _ _ h => (writeHolder_tells (slash_notMem_name hl) h).2) h

/-- What the pruning stage tells, and what it adds to the log. -/
theorem pruneStage_tells {pruned : List Path}
    (h : (pruneStage opts t files removed).result = .ok pruned) :
    (∃ names : List String, names.Sublist (runStale opts t files removed) ∧
      (pruneStage opts t files removed).events = names.map (prunedEvent opts) ∧
      pruned = names.map (holderPath opts)) ∧
    (pruneStage opts t files removed).Logs (writeStage opts t files).store := by
  rw [pruneStage, prune_eq, ← runStale] at h ⊢
  cases hnames : unbackedNames opts (writeStage opts t files).store files
      (runStale opts t files removed) removed with
  | error e =>
    rw [hnames] at h
    cases h
  | ok stale =>
    rw [hnames] at h
    obtain ⟨names, hsub, hevents, hpruned⟩ := pruneAll_tells h
    refine ⟨⟨names, hsub.trans (unbackedNames_sublist hnames), hevents, hpruned⟩, ?_⟩
    exact (pruneAll_isLoop opts).logs (fun _ _ _ _ h => (pruneHolder_tells h).2) h

/-- The course of a run over some files: it starts, tells of every file that it reads and of every
layout without views, of every holder that it makes, and of every holder that it deletes, and is
over. -/
def IsCourse (opts : CompileOptions) (t : Tree) (mode : CompileMode) (files : PathSet)
    (removed : List Path) (report : Report) (events : List CompileEvent) : Prop :=
  ∃ parsed outputs : List CompileEvent, ∃ names : List String,
    events = .started mode files.size :: (parsed ++
      ((catalogAt t opts files).emptyNames.map .empty ++ (outputs ++ (names.map (prunedEvent opts) ++
        [.completed report.written.length report.unchanged.length report.empty.length
          report.pruned.length])))) ∧
    List.Forall₂ (TellsParsed opts t) files.toList parsed ∧
    List.Forall₂ (TellsMade opts) (catalogAt t opts files).filled outputs ∧
    names.Sublist (runStale opts t files removed)

/-- **A successful run with something to do** takes its course, its report is what its events say,
and the log of the tree grows by the changes that its events stand for. -/
theorem run_records {mode : CompileMode} {report : Report}
    (h : (run opts mode files removed t).result = .ok report)
    (hwork : ¬ (files.isEmpty && !(opts.pruneStale && !removed.isEmpty)) = true) :
    IsCourse opts t mode files removed report (run opts mode files removed t).events ∧
      report = Report.ofEvents (run opts mode files removed t).events ∧
      (run opts mode files removed t).Logs t := by
  obtain ⟨hread, outputs, pruned, hwrite, hprune, -, rfl⟩ := run_stages h
  rw [run_eq_of_stages mode hread hwrite hprune hwork]
  have hparsed := readAll_tells (readAll_of_layouts hread)
  have hslash (l : Layout) (hl : l ∈ (catalogAt t opts files).filled) : '/' ∉ l.name.toList :=
    slash_notMem_name hl
  obtain ⟨hmade, hmadereport⟩ := writeAll_tells hslash hwrite
  obtain ⟨⟨names, hsub, hevents, hpruned⟩, hprunelog⟩ := pruneStage_tells hprune
  obtain ⟨hparsedreport, hparsedlog⟩ := ofEvents_parsed hparsed
  obtain ⟨hemptyreport, hemptylog⟩ := ofEvents_empty (catalogAt t opts files).emptyNames
  have hmadereport : Report.ofEvents (writeStage opts t files).events = _ := hmadereport
  refine ⟨⟨_, _, names, ?_, hparsed, hmade, hsub⟩, ?_, ?_⟩
  · rw [← hevents]
    rfl
  · dsimp only
    rw [Report.ofEvents_cons, Report.ofEvents_append, Report.ofEvents_append,
      Report.ofEvents_append, Report.ofEvents_append, hparsedreport, hemptyreport, hmadereport,
      hevents, ofEvents_pruned, hpruned]
    simp [Report.ofEvents, Report.append, CompileEvent.isParsed, CompileEvent.written?,
      CompileEvent.unchanged?, CompileEvent.empty?, CompileEvent.pruned?, PathSet.size]
  · have hwritelog := writeStage_logs hwrite
    rw [Progress.Logs] at hwritelog hprunelog ⊢
    rw [hprunelog, hwritelog, List.append_assoc]
    simp [List.flatMap_append, hparsedlog, hemptylog, CompileEvent.changes]

end

/-! ### Compiles -/

/-- **Events, report and log of a successful compile tell the same story.**  With something to do,
a listener that wants to hear of every file is told the course of the run, the layouts in the order
in which their names were first seen; the report is what the events say; and the log of the tree
grows by the changes that the events stand for.  With nothing to do there is no event and no
change. -/
theorem CompileRequest.compile_records {opts : CompileOptions} {t : Tree} (r : CompileRequest)
    (listener : Listener) (hdetailed : listener.detailed = true) {report : Report}
    (h : (r.compile opts t).result = .ok report) :
    ∃ files, r.candidates t = .ok files ∧
      ((files.size ≠ 0 ∨ opts.pruneStale = true ∧ r.removed ≠ []) →
        IsCourse opts t r.mode files r.removed report
          (listener.delivered (r.compile opts t).events) ∧
        (catalogAt t opts files).layouts.map (·.name) = (files.toList.map Path.stem).eraseDups ∧
        report = Report.ofEvents (listener.delivered (r.compile opts t).events) ∧
        (r.compile opts t).store.log =
          t.log ++ (listener.delivered (r.compile opts t).events).flatMap CompileEvent.changes) ∧
      (files.size = 0 → (opts.pruneStale = true → r.removed = []) →
        listener.delivered (r.compile opts t).events = [] ∧ (r.compile opts t).store = t ∧
          report = .nothing) := by
  have hall (events : List CompileEvent) : listener.delivered events = events := if_pos hdetailed
  simp only [hall]
  rw [compile_eq] at h ⊢
  cases hfiles : r.candidates t with
  | error e =>
    rw [hfiles] at h
    cases h
  | ok files =>
    simp only [hfiles] at h ⊢
    have hempty : files.isEmpty = true ↔ files.size = 0 := by
      rw [PathSet.isEmpty, PathSet.size, List.isEmpty_iff, List.length_eq_zero_iff]
    refine ⟨files, rfl, fun hwork => ?_, fun hsize hquiet => ?_⟩
    · have hbusy : ¬ (files.isEmpty && !(opts.pruneStale && !r.removed.isEmpty)) = true := by
        rw [Bool.and_eq_true, hempty, Bool.not_eq_true', Bool.and_eq_false_iff,
          Bool.not_eq_false', List.isEmpty_iff]
        rintro ⟨hsize, hprune | hremoved⟩
        · exact hwork.elim (· hsize) fun h => Bool.noConfusion (hprune.symm.trans h.1)
        · exact hwork.elim (· hsize) fun h => h.2 hremoved
      obtain ⟨hcourse, hreport, hlog⟩ := run_records h hbusy
      exact ⟨hcourse, names_catalogAt (run_eq_ok h).1, hreport, hlog⟩
    · have hidle : (files.isEmpty && !(opts.pruneStale && !r.removed.isEmpty)) = true := by
        rw [hempty.2 hsize]
        cases hprune : opts.pruneStale with
        | false => rfl
        | true => rw [hquiet hprune]; rfl
      have hrun : run opts r.mode files r.removed t = ⟨t, [], .ok .nothing⟩ := if_pos hidle
      rw [hrun] at h ⊢
      exact ⟨rfl, rfl, (Except.ok.inj h).symm⟩

theorem CompileRequest.compile_records_staleRun :
    Report.ofEvents (Listener.json.delivered staleRun.events) =
        ⟨1, [holderPath sampleOptions "main"], [], [], [holderPath sampleOptions "old"]⟩ ∧
      staleRun.store.log =
        [.createDir (holderLocation sampleOptions "main").dropLast,
          .write (holderLocation sampleOptions "main"),
          .remove (holderLocation sampleOptions "old")] := by
  obtain ⟨hread, hok, -⟩ := staleRun_eval
  obtain ⟨files, hfiles, hbusy, -⟩ := CompileRequest.compile_records
    (.incremental [sampleFile "layout" "main"] [sampleFile "layout" "old"]) Listener.json rfl hok
  obtain ⟨-, -, hreport, hlog⟩ := hbusy (Or.inr ⟨rfl, List.cons_ne_nil _ _⟩)
  refine ⟨hreport.symm, hlog.trans ?_⟩
  decide +kernel

end ViewHolder
