import Mathlib.Data.Option.Basic
import ViewHolder.Layout.File
import ViewHolder.Proofs.Path

/-!
# Layout files by their steps

A path is a layout file exactly when its last two steps are the name of a variant directory and
the name of a file; what stands before them is the resource root.  The name of the layout depends
on the last step only.

## Main definitions

* `Path.stemAt` : the name of the layout at given steps.
* `sourceName` : the file name of a layout.

## Main results

* `LayoutFile.steps_of_ofPath?`, `LayoutFile.exists_ofPath?` : the last two steps of a layout file.
* `LayoutFile.steps_inVariant` : the steps of the same file in another variant directory.
* `Path.stem_of_steps`, `Path.stemAt_sourceName` : the name of the layout.
-/

namespace ViewHolder

/-! ### Names of layouts -/

namespace Path

/-- The stem of a path with given steps. -/
def stemAt (k : List Step) : String :=
  match k.getLast? with
  | some (.name x) => String.ofList (stemOfName x.toList)
  | _ => ""

theorem stem_eq_stemAt (p : Path) : p.stem = stemAt p.steps := by
  rw [stem, fileName?, stemAt]
  cases p.steps.getLast? with
  | none => rfl
  | some s => cases s <;> rfl

@[simp]
theorem stemAt_concat (k : List Step) (x : String) :
    stemAt (k ++ [.name x]) = String.ofList (stemOfName x.toList) := by
  rw [stemAt, List.getLast?_concat]

/-- The stem of a path depends on its last step only. -/
theorem stem_of_steps {p : Path} {l : List Step} {x : String} (h : p.steps = l ++ [.name x]) :
    p.stem = String.ofList (stemOfName x.toList) := by
  rw [stem_eq_stemAt, h, stemAt_concat]

theorem stemOfName_ne_nil {name : List Char} (h : name ≠ []) : stemOfName name ≠ [] := by
  unfold stemOfName
  dsimp only
  split <;> simp_all

theorem mem_of_mem_stemOfName {name : List Char} {c : Char} (h : c ∈ stemOfName name) :
    c ∈ name := by
  unfold stemOfName at h
  dsimp only at h
  split at h
  · exact h
  · exact h
  · rename_i hrest
    have hmem : c ∈ name.reverse.dropWhile (· != '.') :=
      hrest ▸ List.mem_cons_of_mem _ (List.mem_reverse.1 h)
    exact List.mem_reverse.1 ((List.dropWhile_sublist _).subset hmem)

theorem slash_notMem_stem (p : Path) : '/' ∉ p.stem.toList := by
  unfold stem
  split
  · rename_i x hx
    obtain ⟨l, hl⟩ := fileName?_eq_some.1 hx
    have hname : IsEntryName x := isEntryName_of_mem_steps (p := p) (by simp [hl])
    rw [String.toList_ofList]
    exact fun h => hname.2.2.2 (mem_of_mem_stemOfName h)
  · simp

theorem stem_ne_empty {p : Path} {l : List Step} {x : String} (h : p.steps = l ++ [.name x]) :
    p.stem ≠ "" := by
  have hname : IsEntryName x := isEntryName_of_mem_steps (p := p) (by simp [h])
  rw [stem_of_steps h, Ne, String.ofList_eq_empty_iff]
  exact stemOfName_ne_nil fun hx => hname.1 (String.toList_eq_nil_iff.1 hx)

end Path

/-- The file name of the layout `n`. -/
def sourceName (n : String) : String := n ++ ".xml"

theorem toList_sourceName (n : String) : (sourceName n).toList = n.toList ++ ['.', 'x', 'm', 'l'] :=
  String.toList_append

theorem sourceName_injective : Function.Injective sourceName := fun m n h => by
  have := congrArg String.toList h
  rw [toList_sourceName, toList_sourceName] at this
  exact String.toList_injective (List.append_cancel_right this)

/-- A file name that is not hidden has something before its extension. -/
theorem toList_ne_nil_of_not_hidden {n : String} (h : isHiddenName (sourceName n) = false) :
    n.toList ≠ [] := by
  rintro hnil
  rw [isHiddenName, Text.startsWith, toList_sourceName, hnil] at h
  exact absurd h (by decide +kernel)

theorem Path.stemAt_sourceName {n : String} (hn : isHiddenName (sourceName n) = false)
    (k : List Step) : stemAt (k ++ [.name (sourceName n)]) = n := by
  have hne : n.toList ≠ [] := toList_ne_nil_of_not_hidden hn
  rw [stemAt_concat, toList_sourceName]
  obtain ⟨front, last, hlast⟩ := (List.eq_nil_or_concat n.toList).resolve_left hne
  rw [List.concat_eq_append] at hlast
  have hcut : stemOfName (n.toList ++ ['.', 'x', 'm', 'l']) = n.toList := by
    rw [hlast]
    simp [stemOfName]
  rw [hcut, String.ofList_toList]

/-! ### Layout files -/

namespace LayoutFile

theorem path_of_ofPath? {p : Path} {f : LayoutFile} (h : ofPath? p = some f) : f.path = p := by
  simp only [ofPath?, Option.bind_eq_bind, Option.bind_eq_some_iff, Option.pure_def,
    Option.some.injEq] at h
  obtain ⟨x, -, d, -, v, -, -, -, rfl⟩ := h
  rfl

/-- The last two steps of a layout file are its variant directory and its name. -/
theorem steps_of_ofPath? {p : Path} {f : LayoutFile} (h : ofPath? p = some f) :
    isVariantName f.variant = true ∧
      p.steps = f.root.steps ++ [.name f.variant, .name f.fileName] := by
  simp only [ofPath?, Option.bind_eq_bind, Option.bind_eq_some_iff, Option.pure_def,
    Option.some.injEq, Option.guard_eq_some'] at h
  obtain ⟨x, hx, d, hd, v, hv, -, hvariant, rfl⟩ := h
  obtain ⟨l, hl⟩ := Path.fileName?_eq_some.1 hx
  obtain ⟨d', hd', hsteps⟩ := Path.exists_parent? hl
  obtain rfl : d = d' := Option.some.inj (hd.symm.trans hd')
  obtain ⟨k, hk⟩ := Path.fileName?_eq_some.1 hv
  obtain ⟨root, hroot, hrootsteps⟩ := Path.exists_parent? hk
  refine ⟨hvariant, ?_⟩
  simp only [hroot, Option.getD_some, hrootsteps]
  rw [hl, ← hsteps, hk, List.append_assoc, List.singleton_append]

/-- A path whose last two steps are a variant directory and a name is a layout file. -/
theorem exists_ofPath? {p : Path} {l : List Step} {v x : String}
    (h : p.steps = l ++ [.name v, .name x]) (hv : isVariantName v = true) :
    ∃ f, ofPath? p = some f ∧ f.variant = v ∧ f.fileName = x ∧ f.root.steps = l := by
  have hsplit : p.steps = (l ++ [.name v]) ++ [.name x] := by simpa using h
  obtain ⟨d, hd, hdsteps⟩ := Path.exists_parent? hsplit
  obtain ⟨root, hroot, hrootsteps⟩ := Path.exists_parent? hdsteps
  refine ⟨⟨p, x, v, root⟩, ?_, rfl, rfl, hrootsteps⟩
  simp [ofPath?, Path.fileName?_eq_some.2 ⟨_, hsplit⟩, hd, Path.fileName?_eq_some.2 ⟨_, hdsteps⟩,
    hv, hroot]

section

variable {p : Path} {f : LayoutFile} (h : ofPath? p = some f)
include h

theorem isEntryName_fileName : IsEntryName f.fileName :=
  Path.isEntryName_of_mem_steps (p := p) (by simp [(steps_of_ofPath? h).2])

theorem location_of_ofPath? :
    p.location = f.root.location ++ [.name f.variant, .name f.fileName] :=
  Path.location_eq_of_steps (steps_of_ofPath? h).2 (by simp)

theorem layoutName_of_ofPath? : f.layoutName = p.stem := by
  rw [layoutName, path_of_ofPath? h]

/-- The variants of a layout file have its stem. -/
theorem stemAt_variant (k : List Step) (v : Step) :
    Path.stemAt (k ++ [v, .name f.fileName]) = p.stem := by
  rw [Path.stem_eq_stemAt, (steps_of_ofPath? h).2]
  simp [Path.stemAt]

theorem stem_ne_empty : p.stem ≠ "" := by
  have hsteps : p.steps = f.root.steps ++ [.name f.variant] ++ [.name f.fileName] := by
    simp [(steps_of_ofPath? h).2]
  exact Path.stem_ne_empty hsteps

/-- The same file in another variant directory differs in the last but one step. -/
theorem steps_inVariant {d : String} (hd : IsEntryName d) :
    (f.inVariant d).steps = f.root.steps ++ [.name d, .name f.fileName] := by
  rw [inVariant, Path.steps_join_name (isEntryName_fileName h), Path.steps_join_name hd,
    List.append_assoc, List.singleton_append]

end

theorem location_listingRoot (f : LayoutFile) : f.listingRoot.location = f.root.location := by
  unfold listingRoot
  split
  · rename_i h
    rw [Path.location_of_isEmpty h]
    decide +kernel
  · rfl

end LayoutFile

end ViewHolder
