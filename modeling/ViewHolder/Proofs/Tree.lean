import Mathlib.Data.List.Infix
import Mathlib.Data.List.Pairwise
import Mathlib.Logic.Function.Basic
import ViewHolder.Proofs.Path
import ViewHolder.Store.Tree

/-!
# Trees by their files

What a tree holds is read off the texts at its locations: a change of one file leaves the texts
elsewhere as they were.  A listing is described by the files and directories below a location.

## Main definitions

* `Tree.addFile`, `Tree.dropFile`, `Tree.addDir` : a tree after a change.
* `Tree.Proper` : no place of a tree is both a file and a directory.
* `Tree.Spelled` : every place of a tree is where some path leads.

## Main results

* `Tree.write_eq`, `Tree.remove_eq`, `Tree.createDir_eq` : what an operation does.
* `Tree.mem_children` : the names below a location.
-/

namespace ViewHolder

namespace Tree

/-! ### Files -/

private theorem lookup_cons_ite (k m : Location) (old : String) (rest : List (Location × String)) :
    ((m, old) :: rest).lookup k = if k = m then some old else rest.lookup k := by
  rw [List.lookup_cons]
  by_cases h : k = m
  · rw [if_pos h, beq_iff_eq.2 h]
  · rw [if_neg h, beq_eq_false_iff_ne.2 h]

theorem lookup_put (l k : Location) (text : String) (files : List (Location × String)) :
    (put l text files).lookup k = if k = l then some text else files.lookup k := by
  induction files with
  | nil => rw [put, lookup_cons_ite]
  | cons f rest ih =>
    obtain ⟨m, old⟩ := f
    by_cases hm : m = l
    · rw [put, if_pos hm, lookup_cons_ite, lookup_cons_ite, hm]
      split <;> rfl
    · rw [put, if_neg hm, lookup_cons_ite, lookup_cons_ite, ih]
      by_cases hk : k = l
      · rw [hk, if_neg (Ne.symm hm), if_pos rfl, if_pos rfl]
      · rw [if_neg hk, if_neg hk]

theorem lookup_filter_ne (l k : Location) (files : List (Location × String)) :
    (files.filter (·.1 != l)).lookup k = if k = l then none else files.lookup k := by
  induction files with
  | nil => simp
  | cons f rest ih =>
    obtain ⟨m, old⟩ := f
    by_cases hm : m = l
    · rw [List.filter_cons_of_neg (by simpa using hm), ih, lookup_cons_ite, hm]
      split <;> rfl
    · rw [List.filter_cons_of_pos (by simpa using hm), lookup_cons_ite, lookup_cons_ite, ih]
      by_cases hk : k = l
      · rw [hk, if_neg (Ne.symm hm), if_pos rfl, if_pos rfl]
      · rw [if_neg hk, if_neg hk]

/-! ### Changes -/

/-- A tree after a directory was created. -/
def addDir (t : Tree) (l : Location) : Tree :=
  { t with
    dirs := if t.dirs.contains l then t.dirs else l :: t.dirs
    log := t.log ++ [.createDir l] }

/-- A tree after a file was written. -/
def addFile (t : Tree) (l : Location) (text : String) : Tree :=
  { t with files := put l text t.files, log := t.log ++ [.write l] }

/-- A tree after a file was removed. -/
def dropFile (t : Tree) (l : Location) : Tree :=
  { t with files := t.files.filter (·.1 != l), log := t.log ++ [.remove l] }

section

variable {t : Tree} {l k : Location} {text : String}

theorem textAt?_addFile : (t.addFile l text).textAt? = Function.update t.textAt? l (some text) := by
  funext k
  rw [Function.update_apply]
  exact lookup_put l k text t.files

theorem textAt?_dropFile : (t.dropFile l).textAt? = Function.update t.textAt? l none := by
  funext k
  rw [Function.update_apply]
  exact lookup_filter_ne l k t.files

theorem mem_dirs_addDir : k ∈ (t.addDir l).dirs ↔ k = l ∨ k ∈ t.dirs := by
  rw [addDir]
  dsimp only
  split
  · rename_i hthere
    have hmem : l ∈ t.dirs := by simpa using hthere
    exact ⟨Or.inr, fun h => h.elim (fun hk => hk ▸ hmem) id⟩
  · exact List.mem_cons

end

/-- Writing puts a text at one location unless changes are denied there. -/
theorem write_eq (t : Tree) (p : Path) (text : String) : t.write p text =
    if t.isFrozen p.location = true then (.error (.denied p.location.path), t)
    else (.ok (), t.addFile p.location text) := rfl

/-- Removing takes away one file that is there unless changes are denied. -/
theorem remove_eq (t : Tree) (p : Path) : t.remove p =
    if t.isFrozen p.location = true then (.error (.denied p.location.path), t)
    else if (!t.hasFile p.location) = true then (.error (.notFound p), t)
    else (.ok (), t.dropFile p.location) := rfl

/-- Creating adds a directory where there is no file unless changes are denied. -/
theorem createDir_eq (t : Tree) (p : Path) : t.createDir p =
    if t.hasFile p.location = true then (.error (.notADirectory p), t)
    else if t.isFrozen p.location = true then (.error (.denied p.location.path), t)
    else (.ok (), t.addDir p.location) := rfl

/-- Changes are denied below every place where they are denied. -/
theorem isFrozen_of_prefix {t : Tree} {k l : Location} (h : t.isFrozen k = true) (hpre : k <+: l) :
    t.isFrozen l = true := by
  rw [isFrozen, List.any_eq_true] at h ⊢
  obtain ⟨dir, hdir, hk⟩ := h
  exact ⟨dir, hdir, List.isPrefixOf_iff_prefix.2 ((List.isPrefixOf_iff_prefix.1 hk).trans hpre)⟩

/-! ### Places -/

theorem hasFile_iff {t : Tree} {l : Location} :
    t.hasFile l = true ↔ ∃ text, t.textAt? l = some text := Option.isSome_iff_exists

theorem hasFile_iff_mem {t : Tree} {l : Location} :
    t.hasFile l = true ↔ ∃ f ∈ t.files, f.1 = l := by
  rw [hasFile, textAt?, List.lookup_isSome_iff]
  refine exists_congr fun f => and_congr_right fun _ => ?_
  rw [beq_iff_eq, eq_comm]

/-! ### Directories -/

theorem hasDir_iff {t : Tree} {l : Location} : t.hasDir l = true ↔
    l = [] ∨ (∃ d ∈ t.dirs, l <+: d) ∨ ∃ k, t.hasFile k = true ∧ k ≠ l ∧ l <+: k := by
  rw [hasDir, Bool.or_eq_true, Bool.or_eq_true, List.isEmpty_iff, List.any_eq_true,
    List.any_eq_true, or_assoc]
  refine or_congr_right (or_congr ⟨?_, ?_⟩ ⟨?_, ?_⟩)
  · rintro ⟨d, hd, hpre⟩
    exact ⟨d, hd, List.isPrefixOf_iff_prefix.1 hpre⟩
  · rintro ⟨d, hd, hpre⟩
    exact ⟨d, hd, List.isPrefixOf_iff_prefix.2 hpre⟩
  · rintro ⟨f, hf, hboth⟩
    obtain ⟨hne, hpre⟩ := Bool.and_eq_true_iff.1 hboth
    exact ⟨f.1, hasFile_iff_mem.2 ⟨f, hf, rfl⟩, by simpa using hne,
      List.isPrefixOf_iff_prefix.1 hpre⟩
  · rintro ⟨k, hk, hne, hpre⟩
    obtain ⟨f, hf, rfl⟩ := hasFile_iff_mem.1 hk
    exact ⟨f, hf, Bool.and_eq_true_iff.2
      ⟨by simpa using hne, List.isPrefixOf_iff_prefix.2 hpre⟩⟩

/-- There is a directory above every file. -/
theorem hasDir_of_hasFile {t : Tree} {l m : Location} (h : t.hasFile (l ++ m) = true)
    (hm : m ≠ []) : t.hasDir l = true :=
  hasDir_iff.2 (Or.inr (Or.inr ⟨l ++ m, h, by simpa using hm, List.prefix_append l m⟩))

/-- No place is both a file and a directory. -/
def Proper (t : Tree) : Prop := ∀ l, t.hasFile l = true → t.hasDir l = false

instance (t : Tree) : Decidable t.Proper :=
  decidable_of_iff (∀ f ∈ t.files, t.hasDir f.1 = false)
    ⟨fun h l hl => by
      obtain ⟨f, hf, rfl⟩ := hasFile_iff_mem.1 hl
      exact h f hf, fun h f hf => h f.1 (hasFile_iff_mem.2 ⟨f, hf, rfl⟩)⟩

/-- Every place of the tree is where some path leads. -/
def Spelled (t : Tree) : Prop :=
  ∀ l, t.hasFile l = true ∨ l ∈ t.dirs → ∃ p : Path, p.location = l

section

variable {t : Tree} (h : t.Spelled)
include h

theorem Spelled.addFile {l : Location} (hl : ∃ p : Path, p.location = l) (text : String) :
    (t.addFile l text).Spelled := by
  intro k hk
  by_cases hkl : k = l
  · rwa [hkl]
  · rw [hasFile, textAt?_addFile, Function.update_of_ne hkl] at hk
    exact h k hk

theorem Spelled.dropFile (l : Location) : (t.dropFile l).Spelled := by
  intro k hk
  rw [hasFile, textAt?_dropFile, Function.update_apply] at hk
  refine h k (hk.imp_left fun hfile => ?_)
  split at hfile
  · cases hfile
  · exact hfile

theorem Spelled.addDir {l : Location} (hl : ∃ p : Path, p.location = l) :
    (t.addDir l).Spelled := by
  rintro k (hk | hk)
  · exact h k (Or.inl hk)
  · rcases mem_dirs_addDir.1 hk with hkl | hk
    · rwa [hkl]
    · exact h k (Or.inr hk)

end

theorem spelled_ofFiles (files : List (Path × String)) : (ofFiles files).Spelled := by
  have hstart : empty.Spelled := by
    rintro l (hl | hl)
    · cases hl
    · cases hl
  have hstep {t : Tree} (h : t.Spelled) (f : Path × String) : (t.seed f.1 f.2).Spelled := by
    intro l hl
    by_cases hp : l = f.1.location
    · exact ⟨f.1, hp.symm⟩
    · refine h l (hl.imp_left fun hfile => ?_)
      rwa [hasFile, textAt?, seed, lookup_put, if_neg hp] at hfile
  unfold ofFiles
  generalize empty = t at hstart ⊢
  induction files generalizing t with
  | nil => exact hstart
  | cons f rest ih => exact ih (t.seed f.1 f.2) (hstep hstart f)

/-! ### Names below a location -/

theorem childOf?_eq_some {dir l : Location} {isFile : Bool} {x : String} {b : Bool} :
    childOf? dir isFile l = some (x, b) ↔
      ∃ s rest, l = dir ++ s :: rest ∧ s.text = x ∧ (!isFile || !rest.isEmpty) = b := by
  unfold childOf?
  split
  · rename_i hpre
    obtain ⟨m, rfl⟩ := List.isPrefixOf_iff_prefix.1 hpre
    rw [List.drop_left]
    cases m with
    | nil => simp
    | cons s rest => simp
  · rename_i hpre
    simp only [reduceCtorEq, false_iff, not_exists, not_and]
    rintro s rest rfl
    exact absurd (List.isPrefixOf_iff_prefix.2 (List.prefix_append dir _)) hpre

/-- The members from which the names below a location are collected. -/
def members (t : Tree) (dir : Location) : List (String × Bool) :=
  t.files.filterMap (fun f => childOf? dir true f.1) ++ t.dirs.filterMap (childOf? dir false)

theorem mem_members {t : Tree} {dir : Location} {x : String} {b : Bool} :
    (x, b) ∈ t.members dir ↔ ∃ s rest, s.text = x ∧
      ((t.hasFile (dir ++ s :: rest) = true ∧ (!rest.isEmpty) = b) ∨
        (dir ++ s :: rest ∈ t.dirs ∧ b = true)) := by
  simp only [members, List.mem_append, List.mem_filterMap, childOf?_eq_some, hasFile_iff_mem]
  constructor
  · rintro (⟨f, hf, s, rest, hl, hx, hb⟩ | ⟨d, hd, s, rest, rfl, hx, hb⟩)
    · exact ⟨s, rest, hx, Or.inl ⟨⟨f, hf, hl⟩, by simpa using hb⟩⟩
    · exact ⟨s, rest, hx, Or.inr ⟨hd, by simpa using hb.symm⟩⟩
  · rintro ⟨s, rest, hx, ⟨⟨f, hf, hl⟩, hb⟩ | ⟨hd, rfl⟩⟩
    · exact Or.inl ⟨f, hf, s, rest, hl, hx, by simpa using hb⟩
    · exact Or.inr ⟨_, hd, s, rest, rfl, hx, rfl⟩

theorem mem_insertChild_name {c : String × Bool} {l : List (String × Bool)} {x : String} :
    (∃ b, (x, b) ∈ insertChild c l) ↔ x = c.1 ∨ ∃ b, (x, b) ∈ l := by
  induction l with
  | nil => simp [insertChild, Prod.ext_iff]
  | cons d rest ih =>
    unfold insertChild
    split
    · rename_i h
      simp only [List.mem_cons, Prod.ext_iff, exists_or, h, exists_and_left, exists_eq, and_true]
      tauto
    · split
      · simp only [List.mem_cons, Prod.ext_iff, exists_or, exists_and_left, exists_eq, and_true]
      · simp only [List.mem_cons, exists_or, ih]
        tauto

theorem mem_insertChild_true {c : String × Bool} {l : List (String × Bool)} {x : String} :
    (x, true) ∈ insertChild c l ↔ (x, true) = c ∨ (x, true) ∈ l := by
  induction l with
  | nil => simp [insertChild]
  | cons d rest ih =>
    unfold insertChild
    split
    · rename_i h
      obtain ⟨c₁, c₂⟩ := c
      obtain ⟨d₁, d₂⟩ := d
      obtain rfl : c₁ = d₁ := h
      cases c₂ <;> cases d₂ <;> simp
    · split
      · simp
      · simp only [List.mem_cons, ih]
        tauto

theorem insertChild_ascending {c : String × Bool} {l : List (String × Bool)}
    (h : l.Pairwise fun a b => a.1 < b.1) :
    (insertChild c l).Pairwise fun a b => a.1 < b.1 := by
  induction l with
  | nil => simp [insertChild]
  | cons d rest ih =>
    obtain ⟨hd, hrest⟩ := List.pairwise_cons.1 h
    unfold insertChild
    split
    · exact List.pairwise_cons.2 ⟨hd, hrest⟩
    · rename_i hne
      split
      · rename_i hlt
        refine List.pairwise_cons.2 ⟨fun e he => ?_, h⟩
        rcases List.mem_cons.1 he with rfl | he
        · exact hlt
        · exact String.lt_trans hlt (hd e he)
      · rename_i hnlt
        refine List.pairwise_cons.2 ⟨fun e he => ?_, ih hrest⟩
        rcases mem_insertChild_name.1 ⟨e.2, he⟩ with hc | ⟨b, hb⟩
        · rw [hc]
          exact String.not_le.1 fun hle => hne (String.le_antisymm hle (String.not_lt.1 hnlt))
        · exact hd (e.1, b) hb

theorem children_eq (t : Tree) (dir : Location) :
    t.children dir = (t.members dir).foldr insertChild [] := rfl

/-- The names below a location stand in ascending order. -/
theorem children_ascending (t : Tree) (dir : Location) :
    (t.children dir).Pairwise fun a b => a.1 < b.1 := by
  rw [children_eq]
  induction t.members dir with
  | nil => exact .nil
  | cons c rest ih => exact insertChild_ascending ih

theorem mem_children_name {t : Tree} {dir : Location} {x : String} :
    (∃ b, (x, b) ∈ t.children dir) ↔ ∃ b, (x, b) ∈ t.members dir := by
  rw [children_eq]
  induction t.members dir with
  | nil => simp
  | cons c rest ih =>
    rw [List.foldr_cons, mem_insertChild_name, ih]
    simp [Prod.ext_iff, exists_or]

theorem mem_children_true {t : Tree} {dir : Location} {x : String} :
    (x, true) ∈ t.children dir ↔ (x, true) ∈ t.members dir := by
  rw [children_eq]
  induction t.members dir with
  | nil => simp
  | cons c rest ih => rw [List.foldr_cons, mem_insertChild_true, ih, List.mem_cons]

/-- A name below a location occurs once. -/
theorem children_unique {t : Tree} {dir : Location} {x : String} {b b' : Bool}
    (hb : (x, b) ∈ t.children dir) (hb' : (x, b') ∈ t.children dir) : b = b' := by
  by_contra hne
  have hsymm : Std.Symm fun a c : String × Bool => a.1 ≠ c.1 := ⟨fun _ _ h => Ne.symm h⟩
  have hdiff : (x, b) ≠ (x, b') := fun h => hne (Prod.ext_iff.1 h).2
  exact ((children_ascending t dir).imp fun h => String.ne_of_lt h).forall hb hb' hdiff rfl

section

variable {t : Tree} {dir : Location} {x : String}

/-- A name stands for a directory if one of the steps with this text leads to a directory. -/
theorem mem_children_true_iff :
    (x, true) ∈ t.children dir ↔ ∃ s : Step, s.text = x ∧ t.hasDir (dir ++ [s]) = true := by
  rw [mem_children_true, mem_members]
  constructor
  · rintro ⟨s, rest, hs, ⟨hfile, hrest⟩ | ⟨hd, -⟩⟩
    · rw [List.append_cons] at hfile
      exact ⟨s, hs, hasDir_of_hasFile hfile (by simpa using hrest)⟩
    · rw [List.append_cons] at hd
      exact ⟨s, hs, hasDir_iff.2 (Or.inr (Or.inl ⟨_, hd, List.prefix_append _ _⟩))⟩
  · rintro ⟨s, hs, hdir⟩
    rcases hasDir_iff.1 hdir with h | ⟨d, hd, rest, rfl⟩ | ⟨k, hk, hne, rest, rfl⟩
    · exact absurd h (by simp)
    · rw [← List.append_cons] at hd
      exact ⟨s, rest, hs, Or.inr ⟨hd, rfl⟩⟩
    · rw [← List.append_cons] at hk
      exact ⟨s, rest, hs, Or.inl ⟨hk, by simpa using hne⟩⟩

/-- A name is listed if one of the steps with this text leads to a file or a directory. -/
theorem exists_mem_children_iff : (∃ b, (x, b) ∈ t.children dir) ↔
    ∃ s : Step, s.text = x ∧ (t.hasFile (dir ++ [s]) = true ∨ t.hasDir (dir ++ [s]) = true) := by
  constructor
  · rw [mem_children_name]
    rintro ⟨b, hb⟩
    obtain ⟨s, rest, hs, h⟩ := mem_members.1 hb
    refine ⟨s, hs, ?_⟩
    rw [List.append_cons] at h
    rcases h with ⟨hfile, -⟩ | ⟨hd, -⟩
    · cases rest with
      | nil => exact Or.inl (by simpa using hfile)
      | cons s' rest => exact Or.inr (hasDir_of_hasFile hfile (List.cons_ne_nil _ _))
    · exact Or.inr (hasDir_iff.2 (Or.inr (Or.inl ⟨_, hd, List.prefix_append _ _⟩)))
  · rintro ⟨s, rfl, hfile | hdir⟩
    · exact mem_children_name.2 ⟨false, mem_members.2 ⟨s, [], rfl, Or.inl ⟨hfile, rfl⟩⟩⟩
    · exact ⟨true, mem_children_true_iff.2 ⟨s, rfl, hdir⟩⟩

end

section

variable {t : Tree} (ht : t.Spelled) {dir : Location} {s : Step} (hs : s.IsSegment)
include ht hs

/-- In a tree of spelled places, the text of a segment stands for this segment only. -/
theorem Spelled.step_eq {s' : Step}
    (h : t.hasFile (dir ++ [s']) = true ∨ t.hasDir (dir ++ [s']) = true)
    (htext : s'.text = s.text) : s' = s := by
  obtain ⟨p, rest, hp⟩ : ∃ (p : Path) (rest : Location), p.location = dir ++ [s'] ++ rest := by
    rcases h with hfile | hdir
    · obtain ⟨p, hp⟩ := ht _ (Or.inl hfile)
      exact ⟨p, [], by simpa using hp⟩
    · rcases hasDir_iff.1 hdir with h | ⟨d, hd, rest, rfl⟩ | ⟨k, hk, -, rest, rfl⟩
      · exact absurd h (by simp)
      · obtain ⟨p, hp⟩ := ht _ (Or.inr hd)
        exact ⟨p, rest, hp⟩
      · obtain ⟨p, hp⟩ := ht _ (Or.inl hk)
        exact ⟨p, rest, hp⟩
  have hmem : s' ∈ p.location := by simp [hp]
  rcases Path.isSegment_or_eq_root hmem with hs' | rfl
  · exact Option.some.inj (hs'.1.symm.trans (htext ▸ hs.1))
  · exact absurd (htext ▸ hs.2) (by decide)

/-- A name stands for a directory exactly if there is a directory. -/
theorem mem_children_dir : (s.text, true) ∈ t.children dir ↔ t.hasDir (dir ++ [s]) = true := by
  rw [mem_children_true_iff]
  constructor
  · rintro ⟨s', htext, h⟩
    rwa [ht.step_eq hs (Or.inr h) htext] at h
  · exact fun h => ⟨s, rfl, h⟩

theorem exists_mem_children : (∃ b, (s.text, b) ∈ t.children dir) ↔
    t.hasFile (dir ++ [s]) = true ∨ t.hasDir (dir ++ [s]) = true := by
  rw [exists_mem_children_iff]
  constructor
  · rintro ⟨s', htext, h⟩
    rwa [ht.step_eq hs h htext] at h
  · exact fun h => ⟨s, rfl, h⟩

/-- The names below a location: there is a file or a directory, and which of the two is told. -/
theorem mem_children {b : Bool} : (s.text, b) ∈ t.children dir ↔
    (t.hasFile (dir ++ [s]) = true ∨ t.hasDir (dir ++ [s]) = true) ∧ b = t.hasDir (dir ++ [s]) := by
  have hkind {b : Bool} (hb : (s.text, b) ∈ t.children dir) : b = t.hasDir (dir ++ [s]) := by
    cases hdir : t.hasDir (dir ++ [s]) with
    | true => exact children_unique hb ((mem_children_dir ht hs).2 hdir)
    | false =>
      refine Bool.eq_false_iff.2 fun htrue => ?_
      exact absurd ((mem_children_dir ht hs).1 (htrue ▸ hb)) (by simp [hdir])
  rw [← exists_mem_children ht hs]
  constructor
  · exact fun hb => ⟨⟨b, hb⟩, hkind hb⟩
  · rintro ⟨⟨b', hb'⟩, rfl⟩
    exact hkind hb' ▸ hb'

end

/-- Every name below a location is the text of a step. -/
theorem exists_step_of_mem_children {t : Tree} (ht : t.Spelled) {dir : Location} {c : String × Bool}
    (hc : c ∈ t.children dir) :
    ∃ s : Step, s.text = c.1 ∧ (s.IsSegment ∨ dir = [] ∧ s = .root) := by
  obtain ⟨b, hb⟩ := mem_children_name.1 ⟨c.2, hc⟩
  obtain ⟨s, rest, hs, h⟩ := mem_members.1 hb
  obtain ⟨p, hp⟩ := ht (dir ++ s :: rest) (h.imp And.left And.left)
  refine ⟨s, hs, ?_⟩
  cases dir with
  | nil =>
    refine (Path.isSegment_or_eq_root (p := p) (s := s) ?_).imp_right fun h => ⟨rfl, h⟩
    rw [hp]
    exact List.mem_cons_self
  | cons r dir =>
    refine Or.inl (Path.isSegment_of_mem_tail (p := p) ?_)
    rw [hp]
    simp

end Tree

end ViewHolder
