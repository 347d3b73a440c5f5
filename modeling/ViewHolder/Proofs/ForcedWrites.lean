import ViewHolder.Proofs.CompileFrame
import ViewHolder.Proofs.RunSuccess
import ViewHolder.Proofs.RepeatedCompile

/-!
# Writing what is up to date

A project may ask that every holder be written, whether it is up to date or not.  Leaving alone what
is up to date is an optimization: if a run that writes every holder succeeds, the run that spares
some of them succeeds as well, leaves the same files with the same contents, and differs in its
report in that a holder may count as unchanged instead of written.  Only the log and the created
directories can tell the two runs apart.

## Main definitions

* `CompileOptions.forcing`, `CompileOptions.sparing` : options that differ in what is written only.
* `Tree.SameLook` : trees that differ in nothing that a listing or a write can see.

## Main results

* `writeHolder_sparing`, `writeAll_sparing` : trees that look the same do so after both ways of
  writing.
* `CompileRequest.compile_sparing` : a compile that spares what is up to date.
-/

namespace ViewHolder

/-- The same options, with every holder written. -/
def CompileOptions.forcing (opts : CompileOptions) : CompileOptions :=
  { opts with writeUnchanged := true }

/-- The same options, with holders left alone that are up to date. -/
def CompileOptions.sparing (opts : CompileOptions) : CompileOptions :=
  { opts with writeUnchanged := false }

/-! ### Trees that look the same -/

/-- Trees that differ in nothing that a listing or a write can see: they have the same files,
texts and directories, and deny the same listings and changes. -/
structure Tree.SameLook (t t' : Tree) : Prop extends Tree.SameBelow [] t t' where
  /-- The same changes are denied. -/
  frozen : t'.frozen = t.frozen

namespace Tree

/-- The directories on the way to a file are there. -/
theorem hasDir_of_prefix_dropLast {t : Tree} {l k : Location} (hfile : t.hasFile l = true)
    (hpre : k <+: l.dropLast) : t.hasDir k = true := by
  by_cases hk : k = l
  · have hlength := hpre.length_le
    rw [hk, List.length_dropLast] at hlength
    have hnil : l = [] := List.length_eq_zero_iff.1 (by omega)
    rw [hk, hnil]
    exact hasDir_iff.2 (Or.inl rfl)
  · exact hasDir_iff.2 (Or.inr (Or.inr ⟨l, hfile, Ne.symm hk, hpre.trans (List.dropLast_prefix l)⟩))

namespace SameLook

variable {t t' : Tree}

theorem refl (t : Tree) : SameLook t t := ⟨.refl [] t, rfl⟩

variable (h : SameLook t t')
include h

theorem textAt?_eq : t'.textAt? = t.textAt? := funext fun k => h.textAt k List.nil_prefix

theorem hasDir_eq (k : Location) : t'.hasDir k = t.hasDir k := h.hasDir k List.nil_prefix

theorem isOpen_iff (l : Location) : t'.IsOpen l ↔ t.IsOpen l :=
  isOpen_congr h.frozen (by rw [h.textAt?_eq])

theorem allLayoutFiles_eq (roots : List Path) :
    allLayoutFiles t' roots = allLayoutFiles t roots := by
  have hvariant (dir : Path) : filesOfVariant t' dir = filesOfVariant t dir :=
    h.filesOfVariant_eq List.nil_prefix
  have hroot (r : Path) : filesOfRoot t' r = filesOfRoot t r := by
    rw [filesOfRoot, filesOfRoot, h.listMembers_eq List.nil_prefix]
    simp only [hvariant]
  rw [allLayoutFiles, allLayoutFiles, funext hroot]

/-- Writing a holder in both trees. -/
theorem putHolder (l : Location) (text : String) :
    SameLook (t.putHolder l text) (t'.putHolder l text) := by
  refine ⟨⟨h.unlistable, fun k _ => ?_, fun k _ => Bool.eq_iff_iff.2 ?_⟩, h.frozen⟩
  · rw [textAt?_putHolder, textAt?_putHolder, h.textAt?_eq]
  · rw [hasDir_putHolder, hasDir_putHolder, h.hasDir_eq]

/-- Writing a holder in the first tree that is up to date in the second one. -/
theorem putHolder_left {l : Location} {text : String} (hsame : t'.textAt? l = some text) :
    SameLook (t.putHolder l text) t' := by
  refine ⟨⟨h.unlistable, fun k _ => ?_, fun k _ => Bool.eq_iff_iff.2 ?_⟩, h.frozen⟩
  · rw [textAt?_putHolder, ← h.textAt?_eq]
    by_cases hk : k = l
    · rw [hk, Function.update_self, hsame]
    · rw [Function.update_of_ne hk]
  · rw [hasDir_putHolder, ← h.hasDir_eq, iff_comm, or_iff_left_iff_imp]
    exact hasDir_of_prefix_dropLast (hasFile_iff.2 ⟨text, hsame⟩)

end SameLook

end Tree

/-! ### Writing -/

section

variable {opts : CompileOptions} {t t' : Tree} (hlook : Tree.SameLook t t')
include hlook

/-- **One holder, written or spared.**  A holder that can be written can be spared, and trees that
look the same do so afterwards. -/
theorem writeHolder_sparing {l : Layout} (hl : '/' ∉ l.name.toList) {output : Output}
    (h : (writeHolder opts.forcing t l).result = .ok output) :
    output.unchanged? = none ∧
      (∃ output', (writeHolder opts.sparing t' l).result = .ok output') ∧
      Tree.SameLook (writeHolder opts.forcing t l).store (writeHolder opts.sparing t' l).store := by
  rcases writeHolder_cases hl opts.forcing t with
    ⟨hskip, -⟩ | ⟨-, hopen, hforcing⟩ | ⟨-, -, e, s, hforcing, -⟩
  · cases hskip.1
  · rw [hforcing] at h ⊢
    obtain rfl := Except.ok.inj h
    refine ⟨rfl, ?_⟩
    rcases writeHolder_cases hl opts.sparing t' with
      ⟨hskip, hsparing⟩ | ⟨-, -, hsparing⟩ | ⟨-, hclosed, -⟩
    · rw [hsparing]
      exact ⟨⟨_, rfl⟩, hlook.putHolder_left hskip.2⟩
    · rw [hsparing]
      exact ⟨⟨_, rfl⟩, hlook.putHolder _ _⟩
    · exact absurd ((hlook.isOpen_iff _).2 hopen) hclosed
  · rw [hforcing] at h
    cases h

/-- **Holders, written or spared.** -/
theorem writeAll_sparing {ls : List Layout} (hslash : ∀ l ∈ ls, '/' ∉ l.name.toList)
    {outputs : List Output} (h : (writeAll opts.forcing t ls).result = .ok outputs) :
    outputs.filterMap (·.unchanged?) = [] ∧
      (∃ outputs', (writeAll opts.sparing t' ls).result = .ok outputs') ∧
      Tree.SameLook (writeAll opts.forcing t ls).store (writeAll opts.sparing t' ls).store := by
  induction ls generalizing t t' outputs with
  | nil =>
    rw [← Except.ok.inj h]
    exact ⟨rfl, ⟨[], rfl⟩, hlook⟩
  | cons l ls ih =>
    obtain ⟨hl, hothers⟩ := List.forall_mem_cons.1 hslash
    obtain ⟨output, later, hfirst, hlater, rfl⟩ := exists_of_writeAll_cons h
    obtain ⟨hwritten, ⟨output', hfirst'⟩, hlook'⟩ := writeHolder_sparing hlook hl hfirst
    obtain ⟨hnone, ⟨later', hlater'⟩, hlook''⟩ := ih hlook' hothers hlater
    rw [writeAll_cons hfirst hlater, writeAll_cons hfirst' hlater']
    exact ⟨by rw [List.filterMap_cons_none hwritten, hnone], ⟨_, rfl⟩, hlook''⟩

end

/-! ### Pruning -/

section

variable {opts opts' : CompileOptions} {t t' : Tree}
  (hpath : ∀ n, holderPath opts' n = holderPath opts n)
include hpath

/-- Deleting a holder depends on the files and on what is denied only. -/
theorem pruneHolder_sameFiles (htext : t'.textAt? = t.textAt?) (hfrozen : t'.frozen = t.frozen)
    {n : String} {pruned : List Path} (h : (pruneHolder opts t n).result = .ok pruned) :
    (pruneHolder opts' t' n).result = .ok pruned ∧
      (pruneHolder opts' t' n).store.textAt? = (pruneHolder opts t n).store.textAt? := by
  have hloc : holderLocation opts' n = holderLocation opts n := congrArg Path.location (hpath n)
  have hfile : t'.hasFile (holderLocation opts n) = t.hasFile (holderLocation opts n) := by
    rw [Tree.hasFile, Tree.hasFile, htext]
  have hfree : t'.isFrozen (holderLocation opts n) = t.isFrozen (holderLocation opts n) := by
    rw [Tree.isFrozen, Tree.isFrozen, hfrozen]
  rcases pruneHolder_cases opts t n with ⟨hgone, hstep⟩ | ⟨hthere, hopen, hstep⟩ | ⟨-, -, e, hstep⟩
  · rcases pruneHolder_cases opts' t' n with ⟨-, hstep'⟩ | ⟨hthere', -⟩ | ⟨hthere', -⟩
    · rw [hstep] at h ⊢
      rw [hstep']
      exact ⟨h, htext⟩
    · rw [hloc, hfile, hgone] at hthere'
      cases hthere'
    · rw [hloc, hfile, hgone] at hthere'
      cases hthere'
  · rcases pruneHolder_cases opts' t' n with ⟨hgone', -⟩ | ⟨-, -, hstep'⟩ | ⟨-, hclosed', -⟩
    · rw [hloc, hfile, hthere] at hgone'
      cases hgone'
    · rw [hstep] at h ⊢
      rw [hstep', hloc, hpath, Tree.textAt?_dropFile, Tree.textAt?_dropFile, htext]
      exact ⟨h, rfl⟩
    · rw [hloc, hfree, hopen] at hclosed'
      cases hclosed'
  · rw [hstep] at h
    cases h

theorem pruneAll_sameFiles (htext : t'.textAt? = t.textAt?) (hfrozen : t'.frozen = t.frozen)
    {ns : List String} {pruned : List Path} (h : (pruneAll opts t ns).result = .ok pruned) :
    (pruneAll opts' t' ns).result = .ok pruned ∧
      (pruneAll opts' t' ns).store.textAt? = (pruneAll opts t ns).store.textAt? := by
  induction ns generalizing t t' pruned with
  | nil => exact ⟨h, htext⟩
  | cons n ns ih =>
    obtain ⟨first, later, hfirst, hlater, rfl⟩ := exists_of_pruneAll_cons h
    obtain ⟨hfirst', htext'⟩ := pruneHolder_sameFiles hpath htext hfrozen hfirst
    have hfrozen' : (pruneHolder opts' t' n).store.frozen = (pruneHolder opts t n).store.frozen := by
      rw [pruneHolder_frozen, pruneHolder_frozen, hfrozen]
    obtain ⟨hlater', htexts⟩ := ih htext' hfrozen' hlater
    rw [pruneAll_cons hfirst hlater, pruneAll_cons hfirst' hlater']
    exact ⟨rfl, htexts⟩

end

/-! ### Runs -/

section

variable {opts : CompileOptions} {t : Tree} {files : PathSet} {removed : List Path}

theorem pruneStage_sparing
    (hlook : Tree.SameLook (writeStage opts.forcing t files).store
      (writeStage opts.sparing t files).store) {pruned : List Path}
    (h : (pruneStage opts.forcing t files removed).result = .ok pruned) :
    (pruneStage opts.sparing t files removed).result = .ok pruned ∧
      (pruneStage opts.sparing t files removed).store.textAt? =
        (pruneStage opts.forcing t files removed).store.textAt? := by
  have hstale : runStale opts.sparing t files removed = runStale opts.forcing t files removed := rfl
  have hnames : unbackedNames opts.sparing (writeStage opts.sparing t files).store files
      (runStale opts.forcing t files removed) removed =
        unbackedNames opts.forcing (writeStage opts.forcing t files).store files
          (runStale opts.forcing t files removed) removed := by
    rw [unbackedNames_congr opts.sparing (hlook.allLayoutFiles_eq _)]
    rfl
  rw [pruneStage, prune_eq, ← runStale] at h ⊢
  rw [pruneStage, prune_eq, ← runStale, hstale, hnames]
  cases hunbacked : unbackedNames opts.forcing (writeStage opts.forcing t files).store files
      (runStale opts.forcing t files removed) removed with
  | error e =>
    rw [hunbacked] at h
    cases h
  | ok names =>
    rw [hunbacked] at h
    have hpath (n : String) : holderPath opts.sparing n = holderPath opts.forcing n := rfl
    exact pruneAll_sameFiles hpath hlook.textAt?_eq hlook.frozen h

/-- **A run that spares what is up to date** succeeds where one that writes every holder does, and
leaves the same files. -/
theorem run_sparing {mode : CompileMode} {report : Report}
    (h : (run opts.forcing mode files removed t).result = .ok report) :
    ∃ written unchanged, (run opts.sparing mode files removed t).result =
        .ok ⟨report.parsed, written, unchanged, report.empty, report.pruned⟩ ∧
      report.unchanged = [] ∧ Interleaves written unchanged report.written ∧
      (run opts.sparing mode files removed t).store.textAt? =
        (run opts.forcing mode files removed t).store.textAt? := by
  obtain ⟨hread, outputs, pruned, hwrite, hprune, hstore, rfl⟩ := run_stages h
  have hslash (l : Layout) (hl : l ∈ (catalogAt t opts.forcing files).filled) :
      '/' ∉ l.name.toList := slash_notMem_name hl
  obtain ⟨hnone, ⟨outputs', hwrite'⟩, hlook⟩ := writeAll_sparing (.refl t) hslash hwrite
  have hwrite' : (writeStage opts.sparing t files).result = .ok outputs' := hwrite'
  have hread' : ∀ k ∈ files.places, ∃ l, t.layoutAt? opts.sparing k = some l := hread
  obtain ⟨hprune', htexts⟩ := pruneStage_sparing hlook hprune
  obtain ⟨hresult, hstore'⟩ := run_of_stages mode hread' hwrite' hprune'
  refine ⟨_, _, hresult, hnone, ?_, by rw [hstore', htexts, hstore]⟩
  have hall := interleaves_outputs outputs
  rw [hnone] at hall
  have hfiles : outputs'.map Output.file = outputs.map Output.file :=
    (writeStage_files hwrite').trans (writeStage_files hwrite).symm
  have hboth := interleaves_outputs outputs'
  rwa [hfiles, hall.eq_left] at hboth

end

/-! ### Compiles -/

/-- **Sparing what is up to date is an optimization.**  If a compile that writes every holder
succeeds, the compile that leaves alone what is up to date succeeds as well and leaves the same files
with the same texts.  The two agree on what was read, has no views or was deleted; the first one
reports no holder as unchanged, and what it has written is what the second one has written or left,
in the same order. -/
theorem CompileRequest.compile_sparing {opts : CompileOptions} {t : Tree} (r : CompileRequest)
    {report : Report} (h : (r.compile opts.forcing t).result = .ok report) :
    ∃ report', (r.compile opts.sparing t).result = .ok report' ∧
      (r.compile opts.sparing t).store.textAt? = (r.compile opts.forcing t).store.textAt? ∧
      report'.parsed = report.parsed ∧ report'.empty = report.empty ∧
      report'.pruned = report.pruned ∧ report.unchanged = [] ∧
      Interleaves report'.written report'.unchanged report.written ∧
      report'.outputCount = report.outputCount := by
  rw [compile_eq] at h ⊢
  rw [compile_eq]
  cases hfiles : r.candidates t with
  | error e =>
    rw [hfiles] at h
    cases h
  | ok files =>
    simp only [hfiles] at h ⊢
    obtain ⟨written, unchanged, hresult, hnone, hboth, htexts⟩ := run_sparing h
    refine ⟨_, hresult, htexts, rfl, rfl, rfl, hnone, hboth, ?_⟩
    rw [Report.outputCount, Report.outputCount, hnone, hboth.length_eq]
    rfl

theorem CompileRequest.compile_sparing_mixedProject : ∃ report,
    ((full [⟨"res"⟩]).compile sampleOptions.sparing mixedProject).result = .ok report ∧
      report.pruned = [holderPath sampleOptions "old"] ∧ report.outputCount = 2 ∧
      ((full [⟨"res"⟩]).compile sampleOptions.sparing mixedProject).store.textAt?
        (holderLocation sampleOptions "main") =
          some (Holder.source "com.example" ⟨"main", [sampleView "a"]⟩) := by
  have heval : ((full [⟨"res"⟩]).compile sampleOptions.forcing mixedProject).result =
        .ok ⟨3, [holderPath sampleOptions "item", holderPath sampleOptions "main"], [], ["old"],
          [holderPath sampleOptions "old"]⟩ ∧
      ((full [⟨"res"⟩]).compile sampleOptions.forcing mixedProject).store.textAt?
        (holderLocation sampleOptions "main") =
          some (Holder.source "com.example" ⟨"main", [sampleView "a"]⟩) := by
    decide +kernel
  obtain ⟨hok, hmain⟩ := heval
  obtain ⟨report, hresult, htexts, -, -, hpruned, -, -, hcount⟩ :=
    CompileRequest.compile_sparing _ hok
  exact ⟨report, hresult, hpruned, hcount, (congrFun htexts _).trans hmain⟩

end ViewHolder
