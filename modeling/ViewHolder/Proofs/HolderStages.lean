import ViewHolder.Proofs.HolderSteps
import ViewHolder.Proofs.LayoutFile
import ViewHolder.Proofs.PathSet

/-!
# The stages of a run

A run makes the holders of some layouts, one after the other, and then deletes those of others.  A
stage that succeeds puts every holder in place, or takes it away, in the order of its steps, and
reports what it did; a stage changes nothing but its holders, whether it succeeds or fails.

## Main definitions

* `Tree.ChangedAt` : a tree that differs from another at some places only.
* `placeHolders`, `dropHolders` : the texts after some holders were put in place or deleted.
* `Interleaves` : a list made from the members of two others, each of them in order.
* `unbackedNames` : the stale layouts whose holders pruning deletes.

## Main results

* `writeAll_placed`, `pruneAll_dropped` : what the stages leave.
* `writeAll_files` : what was made are the holders of the layouts, in their order.
* `prune_eq` : pruning deletes the holders of the stale layouts that are not backed.
-/

namespace ViewHolder

/-! ### Changes at some places -/

/-- A tree that differs from another at the given places only, and holds only spelled places if
the other does. -/
structure Tree.ChangedAt (places : Location → Prop) (t t' : Tree) : Prop where
  /-- The texts elsewhere are the same. -/
  textAt : ∀ l, ¬ places l → t'.textAt? l = t.textAt? l
  /-- Every place is still where some path leads. -/
  spelled : t.Spelled → t'.Spelled

namespace Tree.ChangedAt

variable {P Q : Location → Prop} {t t' t'' : Tree}

theorem refl (P : Location → Prop) (t : Tree) : ChangedAt P t t := ⟨fun _ _ => rfl, id⟩

theorem trans (h : ChangedAt P t t') (h' : ChangedAt P t' t'') : ChangedAt P t t'' :=
  ⟨fun l hl => (h'.textAt l hl).trans (h.textAt l hl), h'.spelled ∘ h.spelled⟩

theorem mono (h : ChangedAt P t t') (hPQ : ∀ l, P l → Q l) : ChangedAt Q t t' :=
  ⟨fun l hl => h.textAt l (mt (hPQ l) hl), h.spelled⟩

end Tree.ChangedAt

/-! ### Writing -/

/-- The texts after the holder of a layout was put in place. -/
def placeHolder (opts : CompileOptions) (texts : Location → Option String) (l : Layout) :
    Location → Option String :=
  Function.update texts (holderLocation opts l.name) (some (Holder.source opts.package l))

/-- The texts after the holders of some layouts were put in place, one after the other. -/
def placeHolders (opts : CompileOptions) (texts : Location → Option String) (ls : List Layout) :
    Location → Option String :=
  ls.foldl (placeHolder opts) texts

section

variable {opts : CompileOptions} {t : Tree}

theorem write_changedAt (t : Tree) (file : Path) (text : String) :
    Tree.ChangedAt (· = file.location) t (t.write file text).2 := by
  rw [Tree.write_eq]
  split
  · exact .refl _ t
  · refine ⟨fun k hk => ?_, fun ht => ht.addFile ⟨file, rfl⟩ text⟩
    rw [Tree.textAt?_addFile, Function.update_of_ne hk]

theorem writeHolder_changedAt {l : Layout} (hl : '/' ∉ l.name.toList) (t : Tree) :
    Tree.ChangedAt (· = holderLocation opts l.name) t (writeHolder opts t l).store := by
  obtain ⟨dir, -, hdir, -⟩ := exists_createParent_eq opts hl
  have hspelled (ht : t.Spelled) : (t.addDir (holderLocation opts l.name).dropLast).Spelled :=
    ht.addDir ⟨dir, hdir⟩
  rcases writeHolder_cases hl opts t with ⟨-, h⟩ | ⟨-, -, h⟩ | ⟨-, -, e, t', h, -, rfl | rfl⟩
  · rw [h]
    exact .refl _ t
  · rw [h]
    refine ⟨fun k hk => ?_, fun ht => (hspelled ht).addFile ⟨_, rfl⟩ _⟩
    rw [Tree.textAt?_putHolder, Function.update_of_ne hk]
  · rw [h]
    exact .refl _ _
  · rw [h]
    exact ⟨fun _ _ => rfl, hspelled⟩

/-- A holder that is made is put in place, whether it is written or was up to date. -/
theorem writeHolder_placed {l : Layout} (hl : '/' ∉ l.name.toList) {output : Output}
    (h : (writeHolder opts t l).result = .ok output) :
    (writeHolder opts t l).store.textAt? = placeHolder opts t.textAt? l := by
  rcases writeHolder_cases hl opts t with ⟨hsame, hstep⟩ | ⟨-, -, hstep⟩ | ⟨-, -, e, t', hstep, -⟩
  · rw [hstep, placeHolder, ← hsame.2, Function.update_eq_self]
  · rw [hstep]
    exact Tree.textAt?_putHolder
  · rw [hstep] at h
    cases h

/-- What is reported of a holder that is made. -/
theorem writeHolder_output {l : Layout} (hl : '/' ∉ l.name.toList) {output : Output}
    (h : (writeHolder opts t l).result = .ok output) :
    output = .written (holderPath opts l.name) ∨ output = .unchanged (holderPath opts l.name) := by
  rcases writeHolder_cases hl opts t with ⟨-, hstep⟩ | ⟨-, -, hstep⟩ | ⟨-, -, e, t', hstep, -⟩
  · rw [hstep] at h
    exact Or.inr (Except.ok.inj h).symm
  · rw [hstep] at h
    exact Or.inl (Except.ok.inj h).symm
  · rw [hstep] at h
    cases h

theorem writeAll_isLoop (opts : CompileOptions) :
    Progress.IsLoop (writeHolder opts : Tree → Layout → Progress Tree Output) (writeAll opts) :=
  ⟨fun _ => ⟨[], rfl⟩, List.cons, fun _ _ _ => rfl⟩

/-- After the first holder was written the others are. -/
theorem writeAll_cons {t : Tree} {l : Layout} {ls : List Layout} {output : Output}
    {later : List Output} (hfirst : (writeHolder opts t l).result = .ok output)
    (hlater : (writeAll opts (writeHolder opts t l).store ls).result = .ok later) :
    writeAll opts t (l :: ls) = ⟨(writeAll opts (writeHolder opts t l).store ls).store,
      (writeHolder opts t l).events ++ (writeAll opts (writeHolder opts t l).store ls).events,
      .ok (output :: later)⟩ := by
  rw [writeAll, Progress.andThen_of_ok hfirst, Progress.andThen_of_ok hlater, List.append_nil]

/-- Holders that were all written were written one after the other. -/
theorem exists_of_writeAll_cons {t : Tree} {l : Layout} {ls : List Layout} {outputs : List Output}
    (h : (writeAll opts t (l :: ls)).result = .ok outputs) : ∃ output later,
      (writeHolder opts t l).result = .ok output ∧
      (writeAll opts (writeHolder opts t l).store ls).result = .ok later ∧
      outputs = output :: later := by
  rw [writeAll] at h
  obtain ⟨output, hfirst, hrest, -⟩ := Progress.andThen_eq_ok h
  obtain ⟨later, hlater, houtputs, -⟩ := Progress.andThen_eq_ok hrest
  exact ⟨output, later, hfirst, hlater, (Except.ok.inj houtputs).symm⟩

/-- Holders that are made are put in place. -/
theorem writeAll_placed {ls : List Layout} (hslash : ∀ l ∈ ls, '/' ∉ l.name.toList)
    {outputs : List Output} (h : (writeAll opts t ls).result = .ok outputs) :
    (writeAll opts t ls).store.textAt? = placeHolders opts t.textAt? ls :=
  (writeAll_isLoop opts).view_eq_foldl (fun l hl _ _ => writeHolder_placed (hslash l hl)) h

/-- The text at a place after holders were put in place: that of the last one there. -/
theorem placeHolders_apply (texts : Location → Option String) (ls : List Layout) (k : Location) :
    placeHolders opts texts ls k =
      ((ls.filter fun l => holderLocation opts l.name = k).getLast?.map
        (Holder.source opts.package)).or (texts k) := by
  induction ls using List.reverseRecOn with
  | nil => rfl
  | append_singleton ls l ih =>
    rw [placeHolders, List.foldl_append, List.foldl_cons, List.foldl_nil, placeHolder,
      Function.update_apply, List.filter_append]
    by_cases hk : holderLocation opts l.name = k
    · rw [if_pos hk.symm, List.filter_cons_of_pos (by simpa using hk), List.filter_nil,
        List.getLast?_concat]
      rfl
    · rw [if_neg (Ne.symm hk), List.filter_cons_of_neg (by simpa using hk), List.filter_nil,
        List.append_nil]
      exact ih

/-- A holder that is put in place, and shared with no other layout, is the source of its layout. -/
theorem placeHolders_of_mem {ls : List Layout} {l : Layout} (hl : l ∈ ls)
    (hshare : ∀ m ∈ ls, holderLocation opts m.name = holderLocation opts l.name → m = l)
    (texts : Location → Option String) :
    placeHolders opts texts ls (holderLocation opts l.name) =
      some (Holder.source opts.package l) := by
  have hmates : l ∈ ls.filter fun m => holderLocation opts m.name = holderLocation opts l.name :=
    List.mem_filter.2 ⟨hl, by simp⟩
  have hlast := List.getLast_mem (List.ne_nil_of_mem hmates)
  obtain ⟨hmem, hloc⟩ := List.mem_filter.1 hlast
  rw [placeHolders_apply, List.getLast?_eq_some_getLast (List.ne_nil_of_mem hmates),
    hshare _ hmem (by simpa using hloc)]
  rfl

/-! ### What was made -/

/-- The holder that was made, written or not. -/
def Output.file : Output → Path
  | written p => p
  | unchanged p => p

/-- What was made are the holders of the layouts, in their order. -/
theorem writeAll_files {ls : List Layout} (hslash : ∀ l ∈ ls, '/' ∉ l.name.toList)
    {outputs : List Output} (h : (writeAll opts t ls).result = .ok outputs) :
    outputs.map Output.file = ls.map fun l => holderPath opts l.name := by
  induction ls generalizing t outputs with
  | nil =>
    rw [← Except.ok.inj h]
    rfl
  | cons l ls ih =>
    obtain ⟨hl, hothers⟩ := List.forall_mem_cons.1 hslash
    obtain ⟨output, later, hwrite, hlater, rfl⟩ := exists_of_writeAll_cons h
    have hfile : output.file = holderPath opts l.name := by
      rcases writeHolder_output hl hwrite with h | h
      · rw [h, Output.file]
      · rw [h, Output.file]
    rw [List.map_cons, List.map_cons, ih hothers hlater, hfile]

/-- The third list is made from the members of the other two, each of them in order. -/
inductive Interleaves {α : Type} : List α → List α → List α → Prop
  /-- There is nothing to take. -/
  | nil : Interleaves [] [] []
  /-- The next member is taken from the first list. -/
  | left {l r m : List α} (a : α) (h : Interleaves l r m) : Interleaves (a :: l) r (a :: m)
  /-- The next member is taken from the second list. -/
  | right {l r m : List α} (a : α) (h : Interleaves l r m) : Interleaves l (a :: r) (a :: m)

theorem Interleaves.length_eq {α : Type} {l r m : List α} (h : Interleaves l r m) :
    m.length = l.length + r.length := by
  induction h with
  | nil => rfl
  | left a h ih => simp only [List.length_cons, ih]; omega
  | right a h ih => simp only [List.length_cons, ih]; omega

theorem Interleaves.mem_iff {α : Type} {l r m : List α} (h : Interleaves l r m) {b : α} :
    b ∈ m ↔ b ∈ l ∨ b ∈ r := by
  induction h with
  | nil => simp
  | left a h ih => rw [List.mem_cons, List.mem_cons, ih, or_assoc]
  | right a h ih => rw [List.mem_cons, List.mem_cons, ih, or_left_comm]

theorem Interleaves.eq_left {α : Type} {l m : List α} (h : Interleaves l [] m) : m = l := by
  induction l generalizing m with
  | nil =>
    cases h
    rfl
  | cons a l ih =>
    cases h with
    | left a h => rw [ih h]

/-- The holders that were written and those that were up to date make up all that were made. -/
theorem interleaves_outputs (outputs : List Output) :
    Interleaves (outputs.filterMap (·.written?)) (outputs.filterMap (·.unchanged?))
      (outputs.map Output.file) := by
  induction outputs with
  | nil => exact .nil
  | cons output outputs ih =>
    cases output with
    | written p => exact ih.left p
    | unchanged p => exact ih.right p

/-- Every layout whose holder is made counts as one output, whether it shares its holder or not. -/
theorem length_of_writeAll {ls : List Layout} (hslash : ∀ l ∈ ls, '/' ∉ l.name.toList)
    {outputs : List Output} (h : (writeAll opts t ls).result = .ok outputs) :
    (outputs.filterMap (·.written?)).length + (outputs.filterMap (·.unchanged?)).length =
      ls.length := by
  rw [← (interleaves_outputs outputs).length_eq, writeAll_files hslash h, List.length_map]

/-- What a run reports as written or unchanged are holders of its layouts. -/
theorem exists_layout_of_output {ls : List Layout} (hslash : ∀ l ∈ ls, '/' ∉ l.name.toList)
    {outputs : List Output} (h : (writeAll opts t ls).result = .ok outputs) {p : Path}
    (hp : p ∈ outputs.filterMap (·.written?) ++ outputs.filterMap (·.unchanged?)) :
    ∃ l ∈ ls, p = holderPath opts l.name := by
  rw [List.mem_append, ← (interleaves_outputs outputs).mem_iff, writeAll_files hslash h] at hp
  obtain ⟨l, hl, hpath⟩ := List.mem_map.1 hp
  exact ⟨l, hl, hpath.symm⟩

/-! ### Pruning -/

/-- The texts after the holder of a layout was deleted. -/
def dropHolder (opts : CompileOptions) (texts : Location → Option String) (n : String) :
    Location → Option String :=
  Function.update texts (holderLocation opts n) none

/-- The texts after the holders of some layouts were deleted, one after the other. -/
def dropHolders (opts : CompileOptions) (texts : Location → Option String) (ns : List String) :
    Location → Option String :=
  ns.foldl (dropHolder opts) texts

theorem remove_changedAt (t : Tree) (file : Path) :
    Tree.ChangedAt (· = file.location) t (t.remove file).2 := by
  rw [Tree.remove_eq]
  split
  · exact .refl _ t
  · split
    · exact .refl _ t
    · refine ⟨fun k hk => ?_, fun ht => ht.dropFile file.location⟩
      rw [Tree.textAt?_dropFile, Function.update_of_ne hk]

theorem pruneHolder_changedAt (t : Tree) (n : String) :
    Tree.ChangedAt (· = holderLocation opts n) t (pruneHolder opts t n).store := by
  rcases pruneHolder_cases opts t n with ⟨-, h⟩ | ⟨-, -, h⟩ | ⟨-, -, e, h⟩
  · rw [h]
    exact .refl _ t
  · rw [h]
    refine ⟨fun k hk => ?_, fun ht => ht.dropFile _⟩
    rw [Tree.textAt?_dropFile, Function.update_of_ne hk]
  · rw [h]
    exact .refl _ t

/-- A holder that was to be deleted is gone, whether it was there or not. -/
theorem pruneHolder_dropped {n : String} {pruned : List Path}
    (h : (pruneHolder opts t n).result = .ok pruned) :
    (pruneHolder opts t n).store.textAt? = dropHolder opts t.textAt? n := by
  rcases pruneHolder_cases opts t n with ⟨hgone, hstep⟩ | ⟨-, -, hstep⟩ | ⟨-, -, e, hstep⟩
  · have hnone : t.textAt? (holderLocation opts n) = none := Option.not_isSome_iff_eq_none.1 (by
      rw [← Tree.hasFile, hgone]
      exact Bool.false_ne_true)
    rw [hstep, dropHolder, ← hnone, Function.update_eq_self]
  · rw [hstep]
    exact Tree.textAt?_dropFile
  · rw [hstep] at h
    cases h

theorem pruneAll_isLoop (opts : CompileOptions) :
    Progress.IsLoop (pruneHolder opts : Tree → String → Progress Tree (List Path))
      (pruneAll opts) :=
  ⟨fun _ => ⟨[], rfl⟩, (· ++ ·), fun _ _ _ => rfl⟩

/-- After the first holder was deleted the others are. -/
theorem pruneAll_cons {t : Tree} {n : String} {ns : List String} {pruned later : List Path}
    (hfirst : (pruneHolder opts t n).result = .ok pruned)
    (hlater : (pruneAll opts (pruneHolder opts t n).store ns).result = .ok later) :
    pruneAll opts t (n :: ns) = ⟨(pruneAll opts (pruneHolder opts t n).store ns).store,
      (pruneHolder opts t n).events ++ (pruneAll opts (pruneHolder opts t n).store ns).events,
      .ok (pruned ++ later)⟩ := by
  rw [pruneAll, Progress.andThen_of_ok hfirst, Progress.andThen_of_ok hlater, List.append_nil]

/-- Holders that were all deleted were deleted one after the other. -/
theorem exists_of_pruneAll_cons {t : Tree} {n : String} {ns : List String} {pruned : List Path}
    (h : (pruneAll opts t (n :: ns)).result = .ok pruned) : ∃ first later,
      (pruneHolder opts t n).result = .ok first ∧
      (pruneAll opts (pruneHolder opts t n).store ns).result = .ok later ∧
      pruned = first ++ later := by
  rw [pruneAll] at h
  obtain ⟨first, hfirst, hrest, -⟩ := Progress.andThen_eq_ok h
  obtain ⟨later, hlater, hpruned, -⟩ := Progress.andThen_eq_ok hrest
  exact ⟨first, later, hfirst, hlater, (Except.ok.inj hpruned).symm⟩

/-- Deleting holders changes nothing but these holders. -/
theorem pruneAll_changedAt (t : Tree) (ns : List String) :
    Tree.ChangedAt (fun k => ∃ n ∈ ns, k = holderLocation opts n) t
      (pruneAll opts t ns).store :=
  (pruneAll_isLoop opts).store_rel (.refl _) (fun _ _ _ => .trans) fun n hn s =>
    (pruneHolder_changedAt s n).mono fun _ hk => ⟨n, hn, hk⟩

/-- Holders that were all to be deleted are gone. -/
theorem pruneAll_dropped {ns : List String} {pruned : List Path}
    (h : (pruneAll opts t ns).result = .ok pruned) :
    (pruneAll opts t ns).store.textAt? = dropHolders opts t.textAt? ns :=
  (pruneAll_isLoop opts).view_eq_foldl (fun _ _ _ _ => pruneHolder_dropped) h

/-- The texts after deletions: what was deleted is gone. -/
theorem dropHolders_of_mem {ns : List String} {k : Location}
    (h : ∃ n ∈ ns, k = holderLocation opts n) (texts : Location → Option String) :
    dropHolders opts texts ns k = none := by
  induction ns using List.reverseRecOn with
  | nil =>
    obtain ⟨n, hn, -⟩ := h
    cases hn
  | append_singleton ns m ih =>
    rw [dropHolders, List.foldl_append, List.foldl_cons, List.foldl_nil, dropHolder,
      Function.update_apply]
    split
    · rfl
    · rename_i hkm
      refine ih ?_
      obtain ⟨n, hn, hk⟩ := h
      refine ⟨n, (List.mem_append.1 hn).resolve_right fun hn => hkm ?_, hk⟩
      rw [hk, List.mem_singleton.1 hn]

/-- The texts after deletions: what was not deleted is as it was. -/
theorem dropHolders_of_notMem {ns : List String} {k : Location}
    (h : ¬ ∃ n ∈ ns, k = holderLocation opts n) (texts : Location → Option String) :
    dropHolders opts texts ns k = texts k := by
  induction ns using List.reverseRecOn with
  | nil => rfl
  | append_singleton ns m ih =>
    have hkm : k ≠ holderLocation opts m := fun hk => h ⟨m, by simp, hk⟩
    rw [dropHolders, List.foldl_append, List.foldl_cons, List.foldl_nil, dropHolder,
      Function.update_of_ne hkm]
    refine ih ?_
    rintro ⟨n, hn, hk⟩
    exact h ⟨n, List.mem_append_left _ hn, hk⟩

/-- The stale layouts whose holders are deleted: those that no file outside the run backs. -/
def unbackedNames (opts : CompileOptions) (t : Tree) (files : PathSet) (stale : List String)
    (removed : List Path) : Except CompileError (List String) :=
  if !opts.pruneStale || stale.isEmpty then .ok []
  else
    match allLayoutFiles t opts.resDirs with
    | .error e => .error e
    | .ok listed => .ok (stale.filter fun n => !(backedNames listed files removed).contains n)

theorem unbackedNames_sublist {files : PathSet} {stale names : List String} {removed : List Path}
    (h : unbackedNames opts t files stale removed = .ok names) : names.Sublist stale := by
  unfold unbackedNames at h
  split at h
  · rw [← Except.ok.inj h]
    exact List.nil_sublist _
  · split at h
    · cases h
    · rw [← Except.ok.inj h]
      exact List.filter_sublist

/-- Looking for the layouts that are not backed needs a listing only if some layout is stale. -/
theorem exists_unbackedNames_iff {files : PathSet} {stale : List String} {removed : List Path} :
    (∃ names, unbackedNames opts t files stale removed = .ok names) ↔
      (opts.pruneStale = true → stale ≠ [] →
        ∃ listed, allLayoutFiles t opts.resDirs = .ok listed) := by
  unfold unbackedNames
  cases opts.pruneStale with
  | false => simp
  | true =>
    cases stale with
    | nil => simp
    | cons n stale => cases allLayoutFiles t opts.resDirs <;> simp

theorem mem_unbackedNames_iff {files : PathSet} {stale names : List String} {removed : List Path}
    (h : unbackedNames opts t files stale removed = .ok names) {n : String} :
    n ∈ names ↔ opts.pruneStale = true ∧ n ∈ stale ∧
      ∀ listed, allLayoutFiles t opts.resDirs = .ok listed →
        n ∉ backedNames listed files removed := by
  unfold unbackedNames at h
  cases hprune : opts.pruneStale with
  | false =>
    obtain rfl : [] = names := by simpa [hprune] using h
    simp
  | true =>
    cases stale with
    | nil =>
      obtain rfl : [] = names := by simpa using h
      simp
    | cons m stale =>
      cases hlist : allLayoutFiles t opts.resDirs with
      | error e => simp [hprune, hlist] at h
      | ok listed =>
        simp only [hprune, hlist, Bool.not_true, Bool.false_or, List.isEmpty_cons,
          Bool.false_eq_true, if_false, Except.ok.injEq] at h
        rw [← h, List.mem_filter]
        simp

theorem unbackedNames_congr (opts : CompileOptions) {t' : Tree}
    (h : allLayoutFiles t' opts.resDirs = allLayoutFiles t opts.resDirs) (files : PathSet)
    (stale : List String) (removed : List Path) :
    unbackedNames opts t' files stale removed = unbackedNames opts t files stale removed := by
  rw [unbackedNames, unbackedNames, h]

/-- Pruning deletes the holders of the stale layouts that are not backed. -/
theorem prune_eq (opts : CompileOptions) (t : Tree) (files : PathSet) (catalog : Catalog)
    (empty : List String) (removed : List Path) :
    prune opts t files catalog empty removed =
      match unbackedNames opts t files (staleNames catalog empty removed) removed with
      | .error e => ⟨t, [], .error e⟩
      | .ok names => pruneAll opts t names := by
  unfold prune unbackedNames
  dsimp only
  split
  · rfl
  · cases allLayoutFiles t opts.resDirs <;> rfl

/-- The listed files outside a run back their layouts, unless they are reported as removed. -/
theorem mem_backedNames_iff {listed files : PathSet} {removed : List Path} {n : String} :
    n ∈ backedNames listed files removed ↔ ∃ k ∈ listed.places, Path.stemAt k = n ∧
      k ∉ files.places ∧ k ∉ removed.map Path.steps := by
  have hremoved (p : Path) : removed.any p.same = true ↔ p.steps ∈ removed.map Path.steps := by
    rw [List.any_eq_true, List.mem_map]
    exact exists_congr fun q => and_congr_right fun _ => beq_iff_eq.trans eq_comm
  have hback (p : Path) : (!files.contains p && !removed.any p.same) = true ↔
      p.steps ∉ files.places ∧ p.steps ∉ removed.map Path.steps := by
    rw [Bool.and_eq_true, Bool.not_eq_true', Bool.not_eq_true', Bool.eq_false_iff,
      Bool.eq_false_iff, Ne, Ne, hremoved, PathSet.contains_iff_mem_places]
  rw [backedNames, List.mem_map, PathSet.places]
  constructor
  · rintro ⟨p, hp, rfl⟩
    obtain ⟨hp, hout⟩ := List.mem_filter.1 hp
    exact ⟨_, List.mem_map_of_mem hp, p.stem_eq_stemAt.symm, (hback p).1 hout⟩
  · rintro ⟨k, hk, rfl, hout⟩
    obtain ⟨p, hp, rfl⟩ := List.mem_map.1 hk
    exact ⟨p, List.mem_filter.2 ⟨hp, (hback p).2 hout⟩, p.stem_eq_stemAt⟩

variable {files : PathSet} {catalog : Catalog} {empty : List String} {removed : List Path}

theorem prune_changedAt (t : Tree) :
    Tree.ChangedAt (fun k => ∃ n ∈ staleNames catalog empty removed, k = holderLocation opts n) t
      (prune opts t files catalog empty removed).store := by
  rw [prune_eq]
  split
  · exact .refl _ t
  · rename_i names hnames
    refine (pruneAll_changedAt t names).mono fun k ⟨n, hn, hk⟩ => ?_
    exact ⟨n, (unbackedNames_sublist hnames).subset hn, hk⟩

/-- With pruning, a stale holder is gone unless a file outside the run backs its layout. -/
theorem prune_gone {pruned : List Path} (hprune : opts.pruneStale = true)
    (h : (prune opts t files catalog empty removed).result = .ok pruned) {n : String}
    (hn : n ∈ staleNames catalog empty removed) :
    ∃ listed, allLayoutFiles t opts.resDirs = .ok listed ∧
      (n ∉ backedNames listed files removed →
        (prune opts t files catalog empty removed).store.textAt? (holderLocation opts n) =
          none) := by
  rw [prune_eq] at h ⊢
  cases hnames : unbackedNames opts t files (staleNames catalog empty removed) removed with
  | error e =>
    rw [hnames] at h
    cases h
  | ok names =>
    rw [hnames] at h
    obtain ⟨listed, hlist⟩ := exists_unbackedNames_iff.1 ⟨names, hnames⟩ hprune
      (List.ne_nil_of_mem hn)
    refine ⟨listed, hlist, fun hback => ?_⟩
    have hmem : n ∈ names := by
      refine (mem_unbackedNames_iff hnames).2 ⟨hprune, hn, fun listed' hlist' => ?_⟩
      rwa [← Except.ok.inj (hlist.symm.trans hlist')]
    exact (congrFun (pruneAll_dropped h) _).trans (dropHolders_of_mem ⟨n, hmem, rfl⟩ _)

end

end ViewHolder
