import ViewHolder.Proofs.LayoutFile

/-!
# Moving between variants

A layout file is moved to another variant directory by spelling its name below that directory of its
resource root.  However the path of the file was spelled, the result is a layout file of the same
name in the same root, and moving it back leads to the first file again.  So two layout files of one
name in different variant directories of one root lead to each other.

## Main definitions

* `LayoutFile.IsMovedTo` : a layout file that was moved to a variant directory.
* `LayoutFile.LeadsTo` : a layout file that another one is moved to.

## Main results

* `LayoutFile.exists_isMovedTo` : moving gives a layout file, from which one can move back.
* `LayoutFile.leadsTo_iff` : which layout files are moved to each other.
* `LayoutFile.moves_reversible` : moving between variants can be undone.
-/

namespace ViewHolder

/-- The name of a variant directory is a name between two separators. -/
theorem isEntryName_of_isVariantName {d : String} (hd : isVariantName d = true)
    (hslash : '/' ∉ d.toList) : IsEntryName d := by
  have hne {x : String} (hx : isVariantName x = false) : d ≠ x := by
    rintro rfl
    exact Bool.noConfusion (hx.symm.trans hd)
  exact ⟨hne (by decide +kernel), hne (by decide +kernel), hne (by decide +kernel), hslash⟩

namespace LayoutFile

/-- The layout file `f` of the path `p`, moved to the variant directory `d`, is the layout file
`g`. -/
structure IsMovedTo (p : Path) (f : LayoutFile) (d : String) (g : LayoutFile) : Prop where
  /-- The file lies in the variant directory. -/
  variant : g.variant = d
  /-- It has the same name. -/
  fileName : g.fileName = f.fileName
  /-- It is a variant of the same layout. -/
  layoutName : g.layoutName = f.layoutName
  /-- It lies in the same resource root. -/
  root : g.root.same f.root = true
  /-- Moving it back gives the first path. -/
  back : (g.inVariant f.variant).same p = true
  /-- Seen from the first file, the directory is another one exactly if its name differs. -/
  sibling : f.isSiblingVariant d = true ↔ d ≠ f.variant
  /-- Seen from the moved file, the first directory is another one in the same case. -/
  sibling_back : g.isSiblingVariant f.variant = true ↔ d ≠ f.variant

/-- A layout file lies where another one lies once it is moved to another variant directory. -/
def LeadsTo (f g : LayoutFile) : Prop :=
  f.isSiblingVariant g.variant = true ∧ (f.inVariant g.variant).same g.path = true

theorem isSiblingVariant_iff {f : LayoutFile} {d : String} (hd : isVariantName d = true) :
    f.isSiblingVariant d = true ↔ d ≠ f.variant := by
  rw [isSiblingVariant, hd, Bool.true_and, bne_iff_ne]

section

variable {p q : Path} {f g : LayoutFile} (hf : ofPath? p = some f)
include hf

theorem isEntryName_variant : IsEntryName f.variant :=
  Path.isEntryName_of_mem_steps (p := p) (by simp [(steps_of_ofPath? hf).2])

/-- A layout file that is moved to its own variant directory stays where it is. -/
theorem steps_inVariant_self : (f.inVariant f.variant).steps = p.steps := by
  rw [steps_inVariant hf (isEntryName_variant hf), (steps_of_ofPath? hf).2]

/-- **A moved layout file is a layout file**, and it can be moved back. -/
theorem exists_isMovedTo {d : String} (hd : isVariantName d = true) (hslash : '/' ∉ d.toList) :
    ∃ g, ofPath? (f.inVariant d) = some g ∧ IsMovedTo p f d g := by
  obtain ⟨hvariant, hsteps⟩ := steps_of_ofPath? hf
  have hmoved := steps_inVariant hf (isEntryName_of_isVariantName hd hslash)
  obtain ⟨g, hg, rfl, hname, hroot⟩ := exists_ofPath? hmoved hd
  refine ⟨g, hg, rfl, hname, ?_, ?_, ?_, isSiblingVariant_iff hd, ?_⟩
  · rw [layoutName_of_ofPath? hg, layoutName_of_ofPath? hf, Path.stem_eq_stemAt, hmoved]
    exact stemAt_variant hf f.root.steps (.name g.variant)
  · rw [Path.same, hroot, BEq.rfl]
  · rw [Path.same, steps_inVariant hg (isEntryName_variant hf), hroot, hname, ← hsteps, BEq.rfl]
  · rw [isSiblingVariant_iff hvariant, ne_comm]

/-- A layout file leads to those of the same name in the other variant directories of its root. -/
theorem leadsTo_iff (hg : ofPath? q = some g) : f.LeadsTo g ↔
    f.variant ≠ g.variant ∧ f.fileName = g.fileName ∧ f.root.same g.root = true := by
  obtain ⟨hvariant, hsteps⟩ := steps_of_ofPath? hg
  have hmoved := steps_inVariant hf (isEntryName_variant hg)
  have hpath : (f.inVariant g.variant).same g.path = true ↔
      f.fileName = g.fileName ∧ f.root.same g.root = true := by
    rw [Path.same, Path.same, path_of_ofPath? hg, hmoved, hsteps, beq_iff_eq, beq_iff_eq]
    constructor
    · intro h
      obtain ⟨hroot, hlast⟩ := List.append_inj' h rfl
      exact ⟨by simpa using hlast, hroot⟩
    · rintro ⟨hname, hroot⟩
      rw [hname, hroot]
  rw [LeadsTo, hpath, isSiblingVariant_iff hvariant, ne_comm]

/-- Leading to each other is symmetric. -/
theorem leadsTo_comm (hg : ofPath? q = some g) : f.LeadsTo g ↔ g.LeadsTo f := by
  rw [leadsTo_iff hf hg, leadsTo_iff hg hf, ne_comm, eq_comm, Path.same, Path.same, Bool.beq_comm]

/-- **Moving between variants can be undone.**  A layout file can be moved to every variant
directory: it stays a variant of its layout in its resource root, and moving it back leads to the
path that it had.  It leads to the layout files of its name in the other variant directories of its
root, and these lead to it. -/
theorem moves_reversible :
    (∀ d, isVariantName d = true → '/' ∉ d.toList →
      ∃ g, ofPath? (f.inVariant d) = some g ∧ IsMovedTo p f d g) ∧
    (f.inVariant f.variant).same p = true ∧
    ∀ q g, ofPath? q = some g →
      (f.LeadsTo g ↔
        f.variant ≠ g.variant ∧ f.fileName = g.fileName ∧ f.root.same g.root = true) ∧
      (f.LeadsTo g ↔ g.LeadsTo f) := by
  refine ⟨fun d => exists_isMovedTo hf, ?_, fun q g hg => ⟨leadsTo_iff hf hg, leadsTo_comm hf hg⟩⟩
  rw [Path.same, steps_inVariant_self hf, BEq.rfl]

end

/-- A file that is spelled with repeated separators and `.` segments below a root with `..`, and
another spelling of it in another variant directory. -/
theorem moves_reversible_spelledFile :
    let p : Path := ⟨"..//res/./layout//main.xml/."⟩
    let f : LayoutFile := ⟨p, "main.xml", "layout", ⟨"..//res"⟩⟩
    let q : Path := ⟨"../res/layout-land/main.xml"⟩
    let g : LayoutFile := ⟨q, "main.xml", "layout-land", ⟨"../res"⟩⟩
    ofPath? p = some f ∧ isVariantName "layout-land" = true ∧ '/' ∉ "layout-land".toList ∧
      (∃ g, ofPath? (f.inVariant "layout-land") = some g ∧ IsMovedTo p f "layout-land" g) ∧
      ofPath? q = some g ∧ f.LeadsTo g ∧ g.LeadsTo f := by
  intro p f q g
  have hf : ofPath? p = some f := by decide +kernel
  have hg : ofPath? q = some g := by decide +kernel
  obtain ⟨hmoves, -, hleads⟩ := moves_reversible hf
  obtain ⟨hiff, hcomm⟩ := hleads q g hg
  have hlead : f.LeadsTo g := hiff.2 ⟨by decide, rfl, by decide +kernel⟩
  exact ⟨hf, by decide +kernel, by decide, hmoves "layout-land" (by decide +kernel) (by decide), hg,
    hlead, hcomm.1 hlead⟩

end LayoutFile

end ViewHolder
