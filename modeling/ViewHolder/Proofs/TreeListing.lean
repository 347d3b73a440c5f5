import ViewHolder.Proofs.Listing
import ViewHolder.Proofs.TextBytes
import ViewHolder.Proofs.TreeCalls

/-!
# Listing a directory of a tree

A directory of a tree is there because files lie below it, or because it was created or one below
it was.  A listing refuses what is denied, what is a file and what is not there, in this order.
Else it puts the names from files and created directories together: each name occurs once, the
names ascend, and a name is a directory if anything is below it.

## Main definitions

* `Tree.Plain` : a tree whose paths consist of names.
* `Tree.Holds` : something lies below a location, or a directory was created there.
* `Tree.Follows` : a name follows a location on the way to a file or a created directory.
* `Tree.IsListing` : the names below a location, with what they are.

## Main results

* `Tree.isListing_children` : the names that a tree finds are a listing.
* `Tree.list_exact` : what listing a directory answers.
-/

namespace ViewHolder

/-- A step to a named entry. -/
def Step.isName : Step → Bool
  | name _ => true
  | _ => false

theorem Step.eq_name {s : Step} (h : s.isName = true) : s = .name s.text := by
  cases s with
  | name x => rfl
  | root | here | up => cases h

namespace Tree

/-- Every path of a tree, of a file or a created directory, is relative and has no `..`. -/
structure Plain (t : Tree) : Prop where
  files : ∀ f ∈ t.files, ∀ s ∈ f.1, s.isName = true
  dirs : ∀ d ∈ t.dirs, ∀ s ∈ d, s.isName = true

instance (t : Tree) : Decidable t.Plain :=
  decidable_of_iff ((∀ f ∈ t.files, ∀ s ∈ f.1, s.isName = true) ∧
      ∀ d ∈ t.dirs, ∀ s ∈ d, s.isName = true)
    ⟨fun h => ⟨h.1, h.2⟩, fun h => ⟨h.files, h.dirs⟩⟩

/-- A file lies strictly below a location, or a created directory lies at or below it. -/
def Holds (t : Tree) (l : Location) : Prop :=
  (∃ k, t.hasFile k = true ∧ l <+: k ∧ k ≠ l) ∨ ∃ d ∈ t.dirs, l <+: d

/-- A name follows a location in the path of a file or of a created directory. -/
def Follows (t : Tree) (l : Location) (x : String) : Prop :=
  ∃ rest, t.hasFile (l ++ .name x :: rest) = true ∨ l ++ .name x :: rest ∈ t.dirs

/-- Some names, each with whether it is a directory, are what is to be found below a location. -/
structure IsListing (t : Tree) (l : Location) (names : List (String × Bool)) : Prop where
  /-- The names ascend strictly, in the order of their bytes. -/
  ascending : names.Pairwise fun a b => Text.bytes a.1 < Text.bytes b.1
  /-- The names are those that follow the location. -/
  names_iff : ∀ x, (∃ b, (x, b) ∈ names) ↔ t.Follows l x
  /-- A name is a directory if anything is below it. -/
  isDir_iff : ∀ x b, (x, b) ∈ names → (b = true ↔ t.Holds (l ++ [.name x]))

section

variable {t : Tree} {l : Location}

theorem hasDir_iff_holds : t.hasDir l = true ↔ l = [] ∨ t.Holds l := by
  rw [hasDir_iff, Holds, or_comm (b := ∃ d ∈ t.dirs, l <+: d)]
  simp only [and_comm]

variable (h : t.Plain)
include h

/-- On the way to a file or a created directory there are names only. -/
theorem Plain.eq_name {s : Step} {rest : Location}
    (hstep : t.hasFile (l ++ s :: rest) = true ∨ l ++ s :: rest ∈ t.dirs) : s = .name s.text := by
  refine Step.eq_name ?_
  rcases hstep with hfile | hdir
  · obtain ⟨f, hf, hl⟩ := hasFile_iff_mem.1 hfile
    exact h.files f hf s (hl ▸ by simp)
  · exact h.dirs _ hdir s (by simp)

theorem exists_mem_children_iff_follows {x : String} :
    (∃ b, (x, b) ∈ t.children l) ↔ t.Follows l x := by
  simp only [mem_children_name, mem_members]
  constructor
  · rintro ⟨b, s, rest, rfl, hstep⟩
    have hplace := hstep.imp And.left And.left
    rw [h.eq_name hplace] at hplace
    exact ⟨rest, hplace⟩
  · rintro ⟨rest, hfile | hdir⟩
    · exact ⟨_, .name x, rest, rfl, .inl ⟨hfile, rfl⟩⟩
    · exact ⟨true, .name x, rest, rfl, .inr ⟨hdir, rfl⟩⟩

theorem mem_children_true_iff_holds {x : String} :
    (x, true) ∈ t.children l ↔ t.Holds (l ++ [.name x]) := by
  have hne (s : Step) : l ++ [s] ≠ [] := by simp
  rw [mem_children_true_iff]
  simp only [hasDir_iff_holds, hne, false_or]
  constructor
  · rintro ⟨s, rfl, hholds⟩
    have hstep : ∃ rest, t.hasFile (l ++ s :: rest) = true ∨ l ++ s :: rest ∈ t.dirs := by
      rcases hholds with ⟨k, hk, ⟨rest, rfl⟩, -⟩ | ⟨d, hd, ⟨rest, rfl⟩⟩
      · exact ⟨rest, .inl (by simpa using hk)⟩
      · exact ⟨rest, .inr (by simpa using hd)⟩
    obtain ⟨rest, hplace⟩ := hstep
    rwa [h.eq_name hplace] at hholds
  · exact fun hholds => ⟨.name x, rfl, hholds⟩

/-- **The names that a tree finds below a location** are a listing. -/
theorem isListing_children (l : Location) : t.IsListing l (t.children l) := by
  refine ⟨?_, fun x => exists_mem_children_iff_follows h, fun x b hb => ?_⟩
  · exact (children_ascending t l).imp fun hlt => Text.bytes_lt_bytes hlt
  · rw [← mem_children_true_iff_holds h]
    constructor
    · rintro rfl
      exact hb
    · exact fun htrue => children_unique hb htrue

/-- **Listing a directory.**  It is refused if it is denied, else if there is a file, else if the
directory is not there.  Otherwise it answers with the names below the directory, of those that
satisfy the condition. -/
theorem list_exact (dir : Path) (keep : Entry → Bool) :
    ((t.call (.list dir keep)).1 = .error (.denied dir) ↔ dir.location ∈ t.unlistable) ∧
    (dir.location ∉ t.unlistable →
      ((t.call (.list dir keep)).1 = .error (.notADirectory dir) ↔
        t.hasFile dir.location = true) ∧
      (t.hasFile dir.location = false →
        ((t.call (.list dir keep)).1 = .error (.notFound dir) ↔
          dir.location ≠ [] ∧ ¬ t.Holds dir.location) ∧
        (dir.location = [] ∨ t.Holds dir.location →
          ∃ names, t.IsListing dir.location names ∧ (t.call (.list dir keep)).1 =
            .ok (.members ((names.map (Entry.below dir)).filter keep))))) := by
  rw [call, Tree.list, ← List.contains_iff_mem, ← not_or, ← hasDir_iff_holds]
  cases hdenied : t.unlistable.contains dir.location with
  | true => simp [Except.map]
  | false =>
    cases hfile : t.hasFile dir.location with
    | true => simp [Except.map]
    | false =>
      cases hdir : t.hasDir dir.location with
      | false => simp [Except.map]
      | true =>
        simpa [Except.map] using ⟨_, isListing_children h dir.location, rfl⟩

end

/-- A tree with files at several depths, a created directory and a denied one. -/
def mixedTree : Tree :=
  (ofFiles [(⟨"res/layout/main.xml"⟩, "x"), (⟨"res/a.txt"⟩, ""), (⟨"./key/b"⟩, "")]).after
    [.createDir ⟨"res//gen/./sub"⟩, .write ⟨"res/layout-land"⟩ "", .denyList ⟨"./key"⟩]

theorem list_exact_mixedTree : mixedTree.Plain ∧
    (mixedTree.call (.list ⟨"key/"⟩ Entry.isDir)).1 = .error (.denied ⟨"key/"⟩) ∧
    (mixedTree.call (.list ⟨"./res/a.txt"⟩ Entry.isDir)).1 =
      .error (.notADirectory ⟨"./res/a.txt"⟩) ∧
    (mixedTree.call (.list ⟨"res/lay"⟩ Entry.isDir)).1 = .error (.notFound ⟨"res/lay"⟩) ∧
    ∃ names, mixedTree.IsListing (Path.location ⟨"./res"⟩) names ∧
      (mixedTree.call (.list ⟨"./res"⟩ Entry.isDir)).1 =
        .ok (.members ((names.map (Entry.below ⟨"./res"⟩)).filter Entry.isDir)) := by
  have hplain : mixedTree.Plain := by decide +kernel
  have hlist := list_exact hplain
  refine ⟨hplain, (hlist ⟨"key/"⟩ _).1.2 (by decide +kernel), ?_, ?_, ?_⟩
  · exact ((hlist ⟨"./res/a.txt"⟩ _).2 (by decide +kernel)).1.2 (by decide +kernel)
  · refine (((hlist ⟨"res/lay"⟩ _).2 (by decide +kernel)).2 (by decide +kernel)).1.2 ?_
    rw [← not_or, ← hasDir_iff_holds]
    decide +kernel
  · refine (((hlist ⟨"./res"⟩ _).2 (by decide +kernel)).2 (by decide +kernel)).2 ?_
    rw [← hasDir_iff_holds]
    decide +kernel

end Tree

end ViewHolder
