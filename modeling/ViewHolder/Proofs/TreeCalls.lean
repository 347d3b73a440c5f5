import Mathlib.Data.Set.Insert
import ViewHolder.Proofs.Tree

/-!
# Calls of a tree and its log

A tree is used by calls, and each of them either succeeds or leaves the tree exactly as it was.
Whatever the calls and however their paths are spelled, the log is faithful: replaying it over the
files that the tree was built from gives the files that are there.  The text of a file is the one
that was last written to its location, unless the file was removed since.  Where changes are
denied nothing changes any more.

## Main definitions

* `Tree.Call`, `Tree.Answer`, `Tree.call`, `Tree.after` : the uses of a tree.
* `Tree.Allows`, `Tree.Call.effect` : when a call succeeds, and what it does then.
* `Change.replay` : the places of files after a change.
* `Tree.Spares`, `Tree.Wrote` : calls that leave a file alone, and calls that last wrote a text.
* `Tree.FaithfulTo` : a tree can be told from the files that it was built from and from its calls.

## Main results

* `Tree.call_cases` : what a call does.
* `Tree.textAt?_after_iff` : the texts after some calls.
* `Tree.after_faithful` : what the log, the texts, the errors and the denials tell after any calls.
-/

namespace ViewHolder

/-! ### Replaying a log -/

/-- The places of files after a change, given those before it. -/
def Change.replay (places : Set Location) : Change → Set Location
  | write l => insert l places
  | createDir _ => places
  | remove l => places \ {l}

namespace Tree

/-! ### Calls -/

/-- A use of a tree. -/
inductive Call where
  /-- A file is read. -/
  | read (p : Path)
  /-- A text is put into a file. -/
  | write (p : Path) (text : String)
  /-- A file is removed. -/
  | remove (p : Path)
  /-- A directory is created. -/
  | createDir (p : Path)
  /-- The members of a directory that satisfy a condition are listed. -/
  | list (dir : Path) (keep : Entry → Bool)
  /-- The listing of a directory is denied from now on. -/
  | denyList (dir : Path)
  /-- Changes at and below a directory are denied from now on. -/
  | denyWrite (dir : Path)

/-- What a successful call gives back. -/
inductive Answer where
  /-- Nothing: the call was carried out. -/
  | done
  /-- The text of a file. -/
  | text (text : String)
  /-- The members of a directory. -/
  | members (entries : List Entry)
  deriving DecidableEq, Repr

/-- Carry out a call. -/
def call (t : Tree) : Call → Except StoreError Answer × Tree
  | .read p => ((t.read p).map .text, t)
  | .write p text => ((t.write p text).1.map fun _ => .done, (t.write p text).2)
  | .remove p => ((t.remove p).1.map fun _ => .done, (t.remove p).2)
  | .createDir p => ((t.createDir p).1.map fun _ => .done, (t.createDir p).2)
  | .list dir keep => ((t.list dir).map fun entries => .members (entries.filter keep), t)
  | .denyList dir => (.ok .done, t.denyList dir)
  | .denyWrite dir => (.ok .done, t.denyWrite dir)

/-- A tree after some calls, one after the other. -/
def after (t : Tree) (calls : List Call) : Tree := calls.foldl (fun t c => (t.call c).2) t

theorem after_append (t : Tree) (calls more : List Call) :
    t.after (calls ++ more) = (t.after calls).after more := List.foldl_append

/-- The tree allows a call. -/
def Allows (t : Tree) : Call → Prop
  | .read p => t.hasFile p.location = true
  | .write p _ => t.isFrozen p.location = false
  | .remove p => t.isFrozen p.location = false ∧ t.hasFile p.location = true
  | .createDir p => t.hasFile p.location = false ∧ t.isFrozen p.location = false
  | .list dir _ => t.unlistable.contains dir.location = false ∧ t.hasFile dir.location = false ∧
      t.hasDir dir.location = true
  | .denyList _ => True
  | .denyWrite _ => True

/-- A tree after a call that it allows. -/
def Call.effect (t : Tree) : Call → Tree
  | .read _ => t
  | .write p text => t.addFile p.location text
  | .remove p => t.dropFile p.location
  | .createDir p => t.addDir p.location
  | .list _ _ => t
  | .denyList dir => t.denyList dir
  | .denyWrite dir => t.denyWrite dir

/-- **A call takes effect or leaves the tree as it is**: it succeeds exactly if it is allowed, and
otherwise it changes nothing. -/
theorem call_cases (t : Tree) (c : Call) :
    (t.Allows c ∧ (∃ a, (t.call c).1 = .ok a) ∧ (t.call c).2 = c.effect t) ∨
      (¬ t.Allows c ∧ (∃ e, (t.call c).1 = .error e) ∧ (t.call c).2 = t) := by
  cases c with
  | read p =>
    rw [Allows, hasFile, call, Tree.read]
    cases t.textAt? p.location with
    | some text => exact .inl ⟨rfl, ⟨_, rfl⟩, rfl⟩
    | none => exact .inr ⟨Bool.false_ne_true, ⟨_, rfl⟩, rfl⟩
  | write p text =>
    rw [Allows, call, write_eq]
    cases t.isFrozen p.location with
    | false => exact .inl ⟨rfl, ⟨_, rfl⟩, rfl⟩
    | true => exact .inr ⟨by decide, ⟨_, rfl⟩, rfl⟩
  | remove p =>
    rw [Allows, call, remove_eq]
    cases t.isFrozen p.location <;> cases t.hasFile p.location <;> simp [Except.map, Call.effect]
  | createDir p =>
    rw [Allows, call, createDir_eq]
    cases t.isFrozen p.location <;> cases t.hasFile p.location <;> simp [Except.map, Call.effect]
  | list dir keep =>
    rw [Allows, call, Tree.list]
    cases t.unlistable.contains dir.location <;> cases t.hasFile dir.location <;>
      cases t.hasDir dir.location <;> simp [Except.map, Call.effect]
  | denyList dir => exact .inl ⟨trivial, ⟨_, rfl⟩, rfl⟩
  | denyWrite dir => exact .inl ⟨trivial, ⟨_, rfl⟩, rfl⟩

/-- A call that fails changes nothing. -/
theorem call_of_error {t : Tree} {c : Call} {e : StoreError} (h : (t.call c).1 = .error e) :
    (t.call c).2 = t := by
  rcases t.call_cases c with ⟨-, ⟨a, ha⟩, -⟩ | ⟨-, -, hsame⟩
  · cases ha.symm.trans h
  · exact hsame

/-- A call fails exactly if the tree does not allow it. -/
theorem call_fails_iff {t : Tree} {c : Call} :
    (∃ e, (t.call c).1 = .error e) ↔ ¬ t.Allows c := by
  rcases t.call_cases c with ⟨hallowed, ⟨a, ha⟩, -⟩ | ⟨hrefused, hfails, -⟩
  · simp [hallowed, ha]
  · exact iff_of_true hfails hrefused

/-! ### The files of a tree -/

/-- Where the files of a tree lie. -/
def places (t : Tree) : Set Location := {l | t.hasFile l = true}

section

variable {t : Tree} {l : Location} {text : String}

theorem places_addFile : (t.addFile l text).places = insert l t.places := by
  ext k
  rw [places, Set.mem_ofPred_eq, hasFile, textAt?_addFile, Function.update_apply,
    Set.mem_insert_iff]
  by_cases hk : k = l
  · simp [hk]
  · rw [if_neg hk, or_iff_right hk]
    rfl

theorem places_dropFile : (t.dropFile l).places = t.places \ {l} := by
  ext k
  rw [places, Set.mem_ofPred_eq, hasFile, textAt?_dropFile, Function.update_apply, Set.mem_sdiff,
    Set.mem_singleton_iff]
  by_cases hk : k = l
  · simp [hk]
  · rw [if_neg hk, and_iff_left hk]
    rfl

end

theorem places_seed (t : Tree) (p : Path) (text : String) :
    (t.seed p text).places = insert p.location t.places := by
  have hplaces : (t.addFile p.location text).places = insert p.location t.places := places_addFile
  exact hplaces

/-- The text that some files give to a location: the last one counts. -/
def lastText? (files : List (Path × String)) (l : Location) : Option String :=
  (files.reverse.find? fun f => f.1.location = l).map Prod.snd

section

variable (files : List (Path × String))

theorem ofFiles_concat (f : Path × String) :
    ofFiles (files ++ [f]) = (ofFiles files).seed f.1 f.2 := by
  rw [ofFiles, List.foldl_append]
  rfl

/-- The files of a tree are those that it was built from. -/
theorem places_ofFiles : (ofFiles files).places = {l | ∃ f ∈ files, f.1.location = l} := by
  induction files using List.reverseRecOn with
  | nil => simp [places, ofFiles, hasFile, textAt?, empty]
  | append_singleton files f ih =>
    rw [ofFiles_concat, places_seed, ih]
    ext l
    simp [or_comm, eq_comm]

/-- The texts of a tree are those that it was built from. -/
theorem textAt?_ofFiles (l : Location) : (ofFiles files).textAt? l = lastText? files l := by
  induction files using List.reverseRecOn with
  | nil => rfl
  | append_singleton files f ih =>
    rw [ofFiles_concat, textAt?, seed, lookup_put, lastText?, List.reverse_concat, List.find?_cons]
    by_cases hl : l = f.1.location
    · simp [hl]
    · simp only [if_neg hl, Ne.symm hl, decide_false]
      exact ih

/-- Building a tree creates no directory. -/
theorem dirs_ofFiles : (ofFiles files).dirs = [] := by
  induction files using List.reverseRecOn with
  | nil => rfl
  | append_singleton files f ih => rwa [ofFiles_concat]

/-- Building a tree logs nothing. -/
theorem log_ofFiles : (ofFiles files).log = [] := by
  induction files using List.reverseRecOn with
  | nil => rfl
  | append_singleton files f ih => rwa [ofFiles_concat]

end

/-- The log of a tree, replayed over some places, gives the places of its files. -/
def ReplaysFrom (start : Set Location) (t : Tree) : Prop :=
  t.places = t.log.foldl Change.replay start

/-- Every call keeps the log and the files in step. -/
theorem ReplaysFrom.call {start : Set Location} {t : Tree} (h : t.ReplaysFrom start) (c : Call) :
    (t.call c).2.ReplaysFrom start := by
  have hlog (log : List Change) (change : Change) :
      (log ++ [change]).foldl Change.replay start =
        change.replay (log.foldl Change.replay start) := List.foldl_concat ..
  rcases t.call_cases c with ⟨-, -, heffect⟩ | ⟨-, -, hsame⟩
  · rw [heffect]
    cases c with
    | read _ | list _ _ | denyList _ | denyWrite _ => exact h
    | write p text =>
      have hplaces : (t.addFile p.location text).places = insert p.location t.places :=
        places_addFile
      exact hplaces.trans ((congrArg _ h).trans (hlog _ (.write p.location)).symm)
    | remove p =>
      have hplaces : (t.dropFile p.location).places = t.places \ {p.location} := places_dropFile
      exact hplaces.trans ((congrArg (· \ _) h).trans (hlog _ (.remove p.location)).symm)
    | createDir p => exact h.trans (hlog _ (.createDir p.location)).symm
  · rwa [hsame]

theorem ReplaysFrom.after {start : Set Location} {t : Tree} (h : t.ReplaysFrom start)
    (calls : List Call) : (t.after calls).ReplaysFrom start := by
  induction calls generalizing t with
  | nil => exact h
  | cons c calls ih => exact ih (h.call c)

/-! ### The texts of a tree -/

/-- The file that a call writes or removes. -/
def Call.file? : Call → Option Location
  | .write p _ => some p.location
  | .remove p => some p.location
  | _ => none

/-- A call writes or removes the file at a location, and succeeds. -/
def Changes (t : Tree) (c : Call) (l : Location) : Prop :=
  c.file? = some l ∧ ∃ a, (t.call c).1 = .ok a

/-- None of some calls changes the file at a location. -/
def Spares (t : Tree) (calls : List Call) (l : Location) : Prop :=
  ∀ before c later, calls = before ++ c :: later → ¬ (t.after before).Changes c l

/-- Among some calls the last one that changes the file at a location writes a text. -/
def Wrote (t : Tree) (calls : List Call) (l : Location) (text : String) : Prop :=
  ∃ before p later, calls = before ++ .write p text :: later ∧
    (t.after before).Changes (.write p text) l ∧
    (t.after (before ++ [.write p text])).Spares later l

section

variable {t : Tree} {c : Call} {calls : List Call} {l : Location} {text : String}

theorem spares_nil : t.Spares [] l := by
  intro before c later h
  simp at h

theorem spares_cons :
    t.Spares (c :: calls) l ↔ ¬ t.Changes c l ∧ (t.call c).2.Spares calls l := by
  constructor
  · intro h
    refine ⟨h [] c calls rfl, fun before d later hcalls => ?_⟩
    exact h (c :: before) d later (congrArg (c :: ·) hcalls)
  · rintro ⟨hfirst, hothers⟩ before d later hcalls
    cases before with
    | nil =>
      obtain ⟨rfl, rfl⟩ := List.cons.inj hcalls
      exact hfirst
    | cons b before =>
      obtain ⟨rfl, hrest⟩ := List.cons.inj hcalls
      exact hothers before d later hrest

theorem not_wrote_nil : ¬ t.Wrote [] l text := by
  rintro ⟨before, p, later, h, -⟩
  simp at h

theorem wrote_cons : t.Wrote (c :: calls) l text ↔
    ((∃ p, c = .write p text) ∧ t.Changes c l ∧ (t.call c).2.Spares calls l) ∨
      (t.call c).2.Wrote calls l text := by
  constructor
  · rintro ⟨before, p, later, hcalls, hchanges, hspared⟩
    cases before with
    | nil =>
      obtain ⟨rfl, rfl⟩ := List.cons.inj hcalls
      exact .inl ⟨⟨p, rfl⟩, hchanges, hspared⟩
    | cons b before =>
      obtain ⟨rfl, rfl⟩ := List.cons.inj hcalls
      exact .inr ⟨before, p, later, rfl, hchanges, hspared⟩
  · rintro (⟨⟨p, rfl⟩, hchanges, hspared⟩ | ⟨before, p, later, rfl, hchanges, hspared⟩)
    · exact ⟨[], p, calls, rfl, hchanges, hspared⟩
    · exact ⟨c :: before, p, later, rfl, hchanges, hspared⟩

/-- A file has a text after a call that puts it there, or after a call that does not change the file
if it had the text before. -/
theorem textAt?_call : (t.call c).2.textAt? l = some text ↔
    ((∃ p, c = .write p text) ∧ t.Changes c l) ∨ (¬ t.Changes c l ∧ t.textAt? l = some text) := by
  rcases t.call_cases c with ⟨-, hok, heffect⟩ | ⟨-, ⟨e, he⟩, hsame⟩
  · rw [heffect, Changes, and_iff_left hok]
    cases c with
    | read _ | createDir _ | list _ _ | denyList _ | denyWrite _ =>
      simp [Call.file?, Call.effect, addDir, denyList, denyWrite, textAt?]
    | write p text' =>
      rw [Call.effect, textAt?_addFile, Function.update_apply, Call.file?, Option.some.injEq]
      by_cases hl : l = p.location
      · simp [hl]
      · simp [hl, Ne.symm hl]
    | remove p =>
      rw [Call.effect, textAt?_dropFile, Function.update_apply, Call.file?, Option.some.injEq]
      by_cases hl : l = p.location
      · simp [hl]
      · simp [hl, Ne.symm hl]
  · rw [hsame, Changes, he]
    simp

/-- **The texts after some calls** are those that were last written and not removed since, and those
of files that no call has changed. -/
theorem textAt?_after_iff : (t.after calls).textAt? l = some text ↔
    t.Wrote calls l text ∨ (t.Spares calls l ∧ t.textAt? l = some text) := by
  induction calls generalizing t with
  | nil => simp [after, spares_nil, not_wrote_nil]
  | cons c calls ih =>
    rw [wrote_cons, spares_cons]
    refine (ih (t := (t.call c).2)).trans ?_
    rw [textAt?_call]
    tauto

end

/-! ### Denied changes -/

/-- Two trees agree at a location where changes are denied: it stays so, and what is there stays. -/
structure Keeps (l : Location) (t t' : Tree) : Prop where
  /-- Changes are still denied. -/
  isFrozen : t'.isFrozen l = true
  /-- The file is there with the same text, or still not there. -/
  textAt? : t'.textAt? l = t.textAt? l
  /-- The directory was created or not, as before. -/
  dirs : l ∈ t'.dirs ↔ l ∈ t.dirs

/-- Where changes are denied a call changes nothing. -/
theorem keeps_call {t : Tree} {l : Location} (h : t.isFrozen l = true) (c : Call) :
    Keeps l t (t.call c).2 := by
  have helsewhere {k : Location} (hk : t.isFrozen k = false) : l ≠ k := by
    rintro rfl
    exact Bool.noConfusion (h.symm.trans hk)
  rcases t.call_cases c with ⟨hallowed, -, heffect⟩ | ⟨-, -, hsame⟩
  · rw [heffect]
    cases c with
    | read _ | list _ _ | denyList _ => exact ⟨h, rfl, .rfl⟩
    | write p text =>
      refine ⟨h, ?_, .rfl⟩
      rw [Call.effect, textAt?_addFile, Function.update_of_ne (helsewhere hallowed)]
    | remove p =>
      refine ⟨h, ?_, .rfl⟩
      rw [Call.effect, textAt?_dropFile, Function.update_of_ne (helsewhere hallowed.1)]
    | createDir p =>
      refine ⟨h, rfl, ?_⟩
      rw [Call.effect, mem_dirs_addDir, or_iff_right (helsewhere hallowed.2)]
    | denyWrite dir =>
      refine ⟨?_, rfl, .rfl⟩
      rw [Tree.isFrozen] at h
      rw [Call.effect, denyWrite, Tree.isFrozen, List.any_cons, h, Bool.or_true]
  · rw [hsame]
    exact ⟨h, rfl, .rfl⟩

theorem keeps_after {t : Tree} {l : Location} (h : t.isFrozen l = true) (calls : List Call) :
    Keeps l t (t.after calls) := by
  induction calls generalizing t with
  | nil => exact ⟨h, rfl, .rfl⟩
  | cons c calls ih =>
    have hfirst := keeps_call h c
    have hrest := ih hfirst.isFrozen
    exact ⟨hrest.isFrozen, hrest.textAt?.trans hfirst.textAt?, hrest.dirs.trans hfirst.dirs⟩

/-- Denying changes freezes the directory and all that lies below it. -/
theorem isFrozen_denyWrite {t : Tree} {dir : Path} {l : Location} (h : dir.location <+: l) :
    (t.denyWrite dir).isFrozen l = true := by
  rw [isFrozen, denyWrite, List.any_cons, List.isPrefixOf_iff_prefix.2 h, Bool.true_or]

/-- Where changes are denied, writing, removing and creating fail; that a file stands in the place
of a directory is noticed first. -/
theorem call_of_isFrozen {t : Tree} {p : Path} (h : t.isFrozen p.location = true) :
    (∀ text, t.call (.write p text) = (.error (.denied p.location.path), t)) ∧
      t.call (.remove p) = (.error (.denied p.location.path), t) ∧
      t.call (.createDir p) = (.error (if t.hasFile p.location = true then .notADirectory p
        else .denied p.location.path), t) := by
  refine ⟨fun text => ?_, ?_, ?_⟩
  · rw [call, write_eq, if_pos h]
    rfl
  · rw [call, remove_eq, if_pos h]
    rfl
  · rw [call, createDir_eq, if_pos h]
    split <;> rfl

/-! ### Faithful logs -/

/-- A tree that was built from files and used by calls can be told from these: its log and its texts
are faithful, and failures are atomic. -/
structure FaithfulTo (files : List (Path × String)) (calls : List Call) (t : Tree) : Prop where
  /-- Replaying the log over the places of the first files gives the places of the files. -/
  log : {l | t.hasFile l = true} =
    t.log.foldl Change.replay {l | ∃ f ∈ files, f.1.location = l}
  /-- A file has the text that was last written to its location and not removed since, or else the
  text that it was built with. -/
  texts : ∀ l text, t.textAt? l = some text ↔ (ofFiles files).Wrote calls l text ∨
    ((ofFiles files).Spares calls l ∧ lastText? files l = some text)
  /-- A call that fails changes nothing. -/
  atomic : ∀ c e, (t.call c).1 = .error e → (t.call c).2 = t
  /-- Since changes were denied for a directory, nothing has changed at and below it. -/
  kept : ∀ before dir between, calls = before ++ .denyWrite dir :: between →
    ∀ l, dir.location <+: l → t.textAt? l = ((ofFiles files).after before).textAt? l ∧
      (l ∈ t.dirs ↔ l ∈ ((ofFiles files).after before).dirs)
  /-- Writing, removing and creating are refused there. -/
  refused : ∀ before dir between, calls = before ++ .denyWrite dir :: between →
    ∀ p : Path, dir.location <+: p.location →
      (∀ text, t.call (.write p text) = (.error (.denied p.location.path), t)) ∧
      t.call (.remove p) = (.error (.denied p.location.path), t) ∧
      t.call (.createDir p) = (.error (if t.hasFile p.location = true then .notADirectory p
        else .denied p.location.path), t)

/-- **The log of a tree is faithful, and failures are atomic**, whatever files the tree was built
from and whatever calls were made since. -/
theorem after_faithful (files : List (Path × String)) (calls : List Call) :
    FaithfulTo files calls ((ofFiles files).after calls) := by
  have hkeeps {before between : List Call} {dir : Path} {l : Location}
      (hcalls : calls = before ++ .denyWrite dir :: between) (hl : dir.location <+: l) :
      Keeps l (((ofFiles files).after before).denyWrite dir) ((ofFiles files).after calls) := by
    rw [hcalls, after_append]
    exact keeps_after (isFrozen_denyWrite hl) between
  refine ⟨?_, fun l text => ?_, fun c e => call_of_error, fun before dir between hcalls l hl => ?_,
    fun before dir between hcalls p hp => call_of_isFrozen (hkeeps hcalls hp).isFrozen⟩
  · have hstart : (ofFiles files).ReplaysFrom {l | ∃ f ∈ files, f.1.location = l} := by
      rw [ReplaysFrom, places_ofFiles, log_ofFiles, List.foldl_nil]
    exact hstart.after calls
  · rw [textAt?_after_iff, textAt?_ofFiles]
  · exact ⟨(hkeeps hcalls hl).textAt?, (hkeeps hcalls hl).dirs⟩

/-- Calls that spell one file in several ways, before and after changes are denied. -/
def aliasedCalls : List Call :=
  [.write ⟨"./a/b"⟩ "1", .write ⟨"a//b"⟩ "2", .remove ⟨"c/."⟩, .denyWrite ⟨"./a/"⟩,
    .write ⟨"a/b"⟩ "3"]

theorem after_faithful_aliasedCalls :
    ((ofFiles [(⟨"c"⟩, "x")]).after aliasedCalls).hasFile (Path.location ⟨"c"⟩) = false ∧
    ((ofFiles [(⟨"c"⟩, "x")]).after aliasedCalls).textAt? (Path.location ⟨"a/b"⟩) = some "2" ∧
    (((ofFiles [(⟨"c"⟩, "x")]).after aliasedCalls).call (.remove ⟨"a/b/c"⟩)).1 =
      .error (.denied ⟨"a/b/c"⟩) ∧
    (((ofFiles [(⟨"c"⟩, "x")]).after aliasedCalls).call (.createDir ⟨"a/./b"⟩)).1 =
      .error (.notADirectory ⟨"a/./b"⟩) := by
  obtain ⟨hlog, -, -, hkept, hrefused⟩ := after_faithful [(⟨"c"⟩, "x")] aliasedCalls
  have hcalls : aliasedCalls =
      [.write ⟨"./a/b"⟩ "1", .write ⟨"a//b"⟩ "2", .remove ⟨"c/."⟩] ++ .denyWrite ⟨"./a/"⟩ ::
        [.write ⟨"a/b"⟩ "3"] := rfl
  have htext := (hkept _ _ _ hcalls (Path.location ⟨"a/b"⟩) (by decide +kernel)).1
  obtain ⟨-, hremove, -⟩ := hrefused _ _ _ hcalls ⟨"a/b/c"⟩ (by decide +kernel)
  obtain ⟨-, -, hcreate⟩ := hrefused _ _ _ hcalls ⟨"a/./b"⟩ (by decide +kernel)
  refine ⟨?_, htext.trans (by decide +kernel), ?_, ?_⟩
  · have hchanges : ((ofFiles [(⟨"c"⟩, "x")]).after aliasedCalls).log =
        [.write (Path.location ⟨"a/b"⟩), .write (Path.location ⟨"a/b"⟩),
          .remove (Path.location ⟨"c"⟩)] := by decide +kernel
    have hgone : Path.location ⟨"c"⟩ ∉
        {l | ((ofFiles [(⟨"c"⟩, "x")]).after aliasedCalls).hasFile l = true} := by
      rw [hlog, hchanges]
      exact fun hmem => hmem.2 rfl
    exact Bool.eq_false_iff.2 hgone
  · rw [hremove]
    decide +kernel
  · rw [hcreate]
    decide +kernel

end Tree

end ViewHolder
