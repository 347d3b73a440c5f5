import Mathlib.Data.List.Induction
import ViewHolder.Compile.Run
import ViewHolder.Proofs.Path

/-!
# Files of holders

The holder of a layout is the file of its class in the directory `holdr` of the package.  Two
layouts share a holder exactly if they share a class name, and no holder is a layout file.

## Main results

* `location_holderPath` : where the holder of a layout lies.
* `location_holderPath_inj` : layouts that share a holder share a class name.
* `location_holderPath_ne` : no holder lies in a variant directory.
* `below_outputDir` : holders lie below the output directory.
-/

namespace ViewHolder

/-! ### Class names -/

namespace Text

private theorem eq_of_ofNat_eq {m : Nat} {x : Char} (hpos : 0 < x.toNat)
    (h : Char.ofNat m = x) : m = x.toNat := by
  by_cases hm : m.isValidChar
  · rw [Char.ofNat, dif_pos hm] at h
    exact congrArg Char.toNat h
  · rw [Char.ofNat, dif_neg hm] at h
    exact absurd hpos (h ▸ by decide)

/-- No other character has a character from before the letters in its upper-case form. -/
theorem notMem_upper {x c : Char} (hpos : 0 < x.toNat) (hlow : x.toNat < 65) (hc : c ≠ x) :
    x ∉ upper c := by
  unfold upper
  split
  · rename_i form hform
    have htable : ∀ e ∈ upperExpansions, ∀ m ∈ e.2, 65 ≤ m := by decide +kernel
    intro hmem
    obtain ⟨m, hm, hx⟩ := List.mem_map.1 hmem
    obtain ⟨front, back, hsplit, -⟩ := List.lookup_eq_some_iff.1 hform
    have hletter := htable (c.toNat, form) (by simp [hsplit]) m hm
    rw [eq_of_ofNat_eq hpos hx] at hletter
    omega
  · split
    · rename_i run hrun
      have htable : ∀ run ∈ upperRuns, 65 ≤ run.first + run.shift := by decide +kernel
      intro hmem
      have hsum : (c.toNat + run.shift).toNat = x.toNat :=
        eq_of_ofNat_eq hpos (List.mem_singleton.1 hmem).symm
      have hletter := htable run (List.mem_of_find?_eq_some hrun)
      have hfirst : run.first ≤ c.toNat := by
        have hcontains : run.contains c.toNat = true := by simpa using List.find?_some hrun
        simp only [CaseRun.contains, Bool.and_eq_true, decide_eq_true_eq] at hcontains
        exact hcontains.1.1
      omega
    · exact fun h => hc (List.mem_singleton.1 h).symm

end Text

namespace Holder

section

variable {x : Char} (hpos : 0 < x.toNat) (hlow : x.toNat < 65)
include hpos hlow

private theorem notMem_capitalize {cs : List Char} (h : x ∉ cs) : x ∉ Text.capitalize cs := by
  cases cs with
  | nil => exact h
  | cons c cs =>
    have hc : c ≠ x := fun hc => h (hc ▸ List.mem_cons_self)
    exact List.not_mem_append (Text.notMem_upper hpos hlow hc) fun hcs =>
      h (List.mem_cons_of_mem c hcs)

omit hpos in
private theorem notMem_guardDigit {cs : List Char} (h : x ∉ cs) : x ∉ guardDigit cs := by
  have hx : x ≠ '_' := fun hx => absurd hlow (hx ▸ by decide)
  unfold guardDigit
  split
  · split
    · exact fun hmem => (List.mem_cons.1 hmem).elim hx h
    · exact h
  · exact h

/-- A character from before the letters gets into a class name from within a word only. -/
theorem notMem_className {n : String} (h : x ∈ n.toList → isWordSeparator x = true) :
    x ∉ (className n).toList := by
  have hwords : x ∉ (words n).flatMap Text.capitalize := by
    intro hmem
    obtain ⟨w, hw, hx⟩ := List.mem_flatMap.1 hmem
    refine notMem_capitalize hpos hlow (fun hxw => ?_) hx
    obtain ⟨hxn, hword⟩ := Text.mem_of_mem_pieces (List.mem_filter.1 hw).1 hxw
    rw [h hxn] at hword
    cases hword
  have hletters : ∀ c ∈ "Holder".toList, 65 ≤ c.toNat := by simp
  rw [className, String.toList_append, String.toList_ofList]
  exact List.not_mem_append (notMem_guardDigit hlow hwords) fun hx =>
    absurd (hletters x hx) (Nat.not_le_of_lt hlow)

end

theorem slash_notMem_className {n : String} (h : '/' ∉ n.toList) :
    '/' ∉ (className n).toList :=
  notMem_className (by decide) (by decide) fun hslash => absurd hslash h

/-- The name of the file of a holder. -/
def fileName (n : String) : String := className n ++ ".java"

theorem isEntryName_fileName {n : String} (h : '/' ∉ n.toList) : IsEntryName (fileName n) := by
  have hlong {x : String} (hx : fileName n = x) : 5 ≤ x.toList.length := by
    rw [← hx, fileName, String.toList_append, List.length_append]
    exact Nat.le_add_left ..
  refine ⟨fun hx => ?_, fun hx => ?_, fun hx => ?_, ?_⟩
  · exact absurd (hlong hx) (by decide)
  · exact absurd (hlong hx) (by decide)
  · exact absurd (hlong hx) (by decide)
  · rw [fileName, String.toList_append]
    exact List.not_mem_append (slash_notMem_className h) (by decide)

/-! ### The directory of the holders -/

/-- The parts of the package of the holders end in `holdr`. -/
theorem packageParts_package (base : String) :
    packageParts (package base) = packageParts base ++ ["holdr"] := by
  have hcut := @Text.pieces_append_sep (· == '.') '.' rfl base.toList "holdr".toList
  have htext : (package base).toList = base.toList ++ '.' :: "holdr".toList := by
    rw [package, String.toList_append]
    rfl
  have hlast : Text.pieces (· == '.') "holdr".toList = ["holdr".toList] := by decide +kernel
  rw [packageParts, Text.splitBy, htext, hcut, hlast, List.filter_append, List.map_append]
  rfl

theorem isEntryName_of_mem_packageParts {base part : String} (h : '/' ∉ base.toList)
    (hpart : part ∈ packageParts base) : IsEntryName part := by
  obtain ⟨cs, hcs, rfl⟩ := List.mem_map.1 hpart
  obtain ⟨hpiece, hne⟩ := List.mem_filter.1 hcs
  have hchars {c : Char} (hc : c ∈ cs) := Text.mem_of_mem_pieces hpiece hc
  have hdot {x : String} (hx : String.ofList cs = x) : '.' ∉ x.toList := by
    rw [← hx, String.toList_ofList]
    exact fun hmem => absurd (hchars hmem).2 (by decide)
  refine ⟨fun hx => ?_, fun hx => ?_, fun hx => ?_, ?_⟩
  · rw [String.ofList_eq_empty_iff] at hx
    simp [hx] at hne
  · exact hdot hx (by decide)
  · exact hdot hx (by decide)
  · rw [String.toList_ofList]
    exact fun hmem => h (hchars hmem).1

end Holder

/-! ### The files of holders -/

section

variable {opts : CompileOptions} {m n : String}

/-- The holder of a layout lies in the directory of the generated classes. -/
theorem holderPath_eq_join : holderPath opts n =
    (Holder.outputDir opts.package opts.outputDir).join ⟨Holder.fileName n⟩ := rfl

theorem steps_holderPath (hn : '/' ∉ n.toList) : (holderPath opts n).steps =
    (Holder.outputDir opts.package opts.outputDir).steps ++ [.name (Holder.fileName n)] := by
  rw [holderPath_eq_join, Path.steps_join_name (Holder.isEntryName_fileName hn)]

theorem location_holderPath (hn : '/' ∉ n.toList) : (holderPath opts n).location =
    (Holder.outputDir opts.package opts.outputDir).location ++ [.name (Holder.fileName n)] := by
  rw [holderPath_eq_join, Path.location_join_name (Holder.isEntryName_fileName hn)]

/-- Layouts that share a holder share a class name. -/
theorem location_holderPath_inj (hm : '/' ∉ m.toList) (hn : '/' ∉ n.toList)
    (h : (holderPath opts m).location = (holderPath opts n).location) :
    Holder.className m = Holder.className n := by
  rw [location_holderPath hm, location_holderPath hn] at h
  have hname : Holder.fileName m = Holder.fileName n := by simpa using h
  have hchars := congrArg String.toList hname
  rw [Holder.fileName, Holder.fileName, String.toList_append, String.toList_append] at hchars
  exact String.toList_injective (List.append_cancel_right hchars)

theorem exists_location_outputDir (base : String) (dir : Path) :
    ∃ l, (Holder.outputDir base dir).location = l ++ [.name "holdr"] := by
  rw [Holder.outputDir, Holder.packageParts_package, List.foldl_append, List.foldl_cons,
    List.foldl_nil]
  exact ⟨_, Path.location_join_name (by decide +kernel) _⟩

/-- No holder lies in a variant directory. -/
theorem location_holderPath_ne (hn : '/' ∉ n.toList) {l : Location} {v : String} {s : Step}
    (hv : isVariantName v = true) : (holderPath opts n).location ≠ l ++ [.name v, s] := by
  intro h
  obtain ⟨k, hk⟩ := exists_location_outputDir opts.package opts.outputDir
  rw [location_holderPath hn, hk, List.append_assoc, List.singleton_append] at h
  have hlast := (List.append_inj' h rfl).2
  obtain rfl : "holdr" = v := by simpa using (List.cons.inj hlast).1
  exact absurd hv (by decide +kernel)

/-- Holders lie below the output directory. -/
theorem below_outputDir (hpackage : '/' ∉ opts.package.toList) (hn : '/' ∉ n.toList) :
    opts.outputDir.location <+: (holderPath opts n).location := by
  have hparts : ∀ part ∈ Holder.packageParts (Holder.package opts.package), IsEntryName part := by
    rw [Holder.packageParts_package]
    intro part hpart
    rcases List.mem_append.1 hpart with hpart | hpart
    · exact Holder.isEntryName_of_mem_packageParts hpackage hpart
    · rw [List.mem_singleton.1 hpart]
      decide +kernel
  have hdir : opts.outputDir.location <+:
      (Holder.outputDir opts.package opts.outputDir).location := by
    unfold Holder.outputDir
    generalize Holder.packageParts (Holder.package opts.package) = parts at hparts
    induction parts using List.reverseRecOn with
    | nil => exact List.prefix_rfl
    | append_singleton parts part ih =>
      rw [List.foldl_append, List.foldl_cons, List.foldl_nil,
        Path.location_join_name (hparts part (by simp))]
      exact (ih fun q hq => hparts q (by simp [hq])).trans (List.prefix_append _ _)
  rw [location_holderPath hn]
  exact hdir.trans (List.prefix_append _ _)

end

end ViewHolder
