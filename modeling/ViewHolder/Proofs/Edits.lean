import ViewHolder.Proofs.Run
import ViewHolder.Proofs.Sources

/-!
# Edits between runs

Between two runs files are written and removed.  Edits change the edited files only and runs change
holders only, so the layouts of a tree survive a run, and its holders survive edits of sources.

## Main definitions

* `Edit`, `Tree.edit` : an edit of a file, and a tree after some edits.
* `Tree.HasView` : some variant of a layout has a view.

## Main results

* `Tree.edit_changedAt` : edits change the edited files only.
* `Tree.ChangedAt.layoutAt?_eq` : a tree in which holders changed has the same layouts.
-/

namespace ViewHolder

/-! ### Edits -/

/-- An edit of a file. -/
inductive Edit where
  /-- A text is put into a file. -/
  | write (file : Path) (text : String)
  /-- A file is removed. -/
  | remove (file : Path)
  deriving DecidableEq, Inhabited, Repr

/-- The edited file. -/
def Edit.file : Edit → Path
  | write p _ => p
  | remove p => p

/-- A tree after an edit. -/
def Edit.apply (t : Tree) : Edit → Tree
  | write p text => (t.write p text).2
  | remove p => (t.remove p).2

/-- A tree after some edits, one after the other. -/
def Tree.edit (t : Tree) (es : List Edit) : Tree := es.foldl Edit.apply t

theorem Edit.apply_changedAt (t : Tree) (e : Edit) :
    Tree.ChangedAt (· = e.file.location) t (e.apply t) := by
  cases e with
  | write p text => exact write_changedAt t p text
  | remove p => exact remove_changedAt t p

/-- Edits change the edited files only. -/
theorem Tree.edit_changedAt (t : Tree) (es : List Edit) :
    ChangedAt (fun k => ∃ e ∈ es, k = e.file.location) t (t.edit es) := by
  induction es generalizing t with
  | nil => exact .refl _ t
  | cons e es ih =>
    refine ChangedAt.trans ((e.apply_changedAt t).mono fun k hk => ?_) ((ih _).mono fun k hk => ?_)
    · exact ⟨e, List.mem_cons_self, hk⟩
    · obtain ⟨e', he', hk⟩ := hk
      exact ⟨e', List.mem_cons_of_mem e he', hk⟩

/-! ### Layouts with views -/

/-- The place of a variant of a layout. -/
def variantPlace (r : Path) (v n : String) : List Step :=
  r.steps ++ [.name v, .name (sourceName n)]

/-- Where a variant of a layout lies. -/
def variantLocation (r : Path) (v n : String) : Location :=
  r.location ++ [.name v, .name (sourceName n)]

theorem filter_variantPlace (r : Path) (v n : String) :
    (variantPlace r v n).filter (· != .here) = variantLocation r v n := by
  rw [variantPlace, List.filter_append]
  rfl

/-- Some variant of a layout has a view. -/
def Tree.HasView (t : Tree) (opts : CompileOptions) (r : Path) (n : String) : Prop :=
  ∃ v, isVariantName v = true ∧ ∃ l, t.layoutAt? opts (variantPlace r v n) = some l ∧ l.views ≠ []

section

variable {opts : CompileOptions} {t t' : Tree} {r : Path} {n v : String}

theorem Tree.hasFile_variant {l : Layout}
    (hl : t.layoutAt? opts (variantPlace r v n) = some l) :
    t.hasFile (variantLocation r v n) = true := by
  have hfile := hasFile_of_layoutAt? hl
  rwa [filter_variantPlace] at hfile

theorem Tree.HasView.hasLayout (h : t.HasView opts r n) : t.HasLayout r n := by
  obtain ⟨v, hv, l, hl, -⟩ := h
  exact ⟨v, hv, hasFile_variant hl⟩

theorem Tree.HasLayout.slash_notMem (ht : t.Spelled) (h : t.HasLayout r n) : '/' ∉ n.toList := by
  obtain ⟨v, -, hfile⟩ := h
  have hname : IsEntryName (sourceName n) := ht.isEntryName hfile (by simp)
  exact fun hn => hname.2.2.2 (by rw [toList_sourceName]; exact List.mem_append_left _ hn)

theorem Tree.layoutAt?_eq_of_text
    (h : t'.textAt? (variantLocation r v n) = t.textAt? (variantLocation r v n)) :
    t'.layoutAt? opts (variantPlace r v n) = t.layoutAt? opts (variantPlace r v n) :=
  layoutAt?_eq_of_textAt? (by rwa [filter_variantPlace])

theorem Tree.hasLayout_congr (h : ∀ v, isVariantName v = true →
    t'.textAt? (variantLocation r v n) = t.textAt? (variantLocation r v n)) :
    t'.HasLayout r n ↔ t.HasLayout r n :=
  exists_congr fun v => and_congr_right fun hv => by
    rw [hasFile, hasFile, ← variantLocation, h v hv]

theorem Tree.hasView_congr (h : ∀ v, isVariantName v = true →
    t'.layoutAt? opts (variantPlace r v n) = t.layoutAt? opts (variantPlace r v n)) :
    t'.HasView opts r n ↔ t.HasView opts r n :=
  exists_congr fun v => and_congr_right fun hv => by rw [h v hv]

variable {ns : String → Prop} (hns : ∀ m, ns m → '/' ∉ m.toList)
  (h : Tree.ChangedAt (fun k => ∃ m, ns m ∧ k = holderLocation opts m) t t')
include hns h

/-- A tree in which holders changed has the same files in variant directories. -/
theorem Tree.ChangedAt.textAt?_variant {l : Location} {s : Step} (hv : isVariantName v = true) :
    t'.textAt? (l ++ [.name v, s]) = t.textAt? (l ++ [.name v, s]) := by
  refine h.textAt _ ?_
  rintro ⟨m, hm, hloc⟩
  exact location_holderPath_ne (hns m hm) hv hloc.symm

/-- A tree in which holders changed has the same layouts. -/
theorem Tree.ChangedAt.layoutAt?_eq (hv : isVariantName v = true) :
    t'.layoutAt? opts (variantPlace r v n) = t.layoutAt? opts (variantPlace r v n) :=
  layoutAt?_eq_of_text (h.textAt?_variant hns hv)

theorem Tree.ChangedAt.hasLayout_iff : t'.HasLayout r n ↔ t.HasLayout r n :=
  hasLayout_congr fun _ hv => h.textAt?_variant hns hv

end

/-! ### A small project -/

/-- The layouts `main` and `item` have different class names. -/
theorem className_main_item {m n : String} (hm : m = "main" ∨ m = "item")
    (hn : n = "main" ∨ n = "item") (h : Holder.className m = Holder.className n) : m = n := by
  rcases hm with rfl | rfl <;> rcases hn with rfl | rfl
  · rfl
  · exact absurd h (by decide +kernel)
  · exact absurd h (by decide +kernel)
  · rfl

end ViewHolder
