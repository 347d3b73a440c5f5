import ViewHolder.Proofs.Catalog

/-!
# Merging as grouping

Adding variants to a catalog one after the other is grouping them by name: the layout of a name has
the views of all its variants in order, without those whose id an earlier view has.  Variants that
are there already, and the order of the variants, make no difference to which ids there are.

## Main definitions

* `firstOfEachId` : the views without those whose id an earlier view has.

## Main results

* `Layout.foldl_push` : adding views in order keeps the first view of each new id.
* `Layout.nodup_ids_read` : the views of a layout that was read have different ids.
* `Layout.views_mergeAll` : merged variants have the first view of each id.
* `Catalog.mem_ids_ofList` : the ids of a name are those of its variants.
* `Catalog.layouts_ofList` : a catalog groups its variants by name.
-/

namespace ViewHolder

/-! ### The first view of each id -/

/-- The views without those whose id an earlier view has. -/
def firstOfEachId : List View → List View
  | [] => []
  | v :: vs => v :: (firstOfEachId vs).filter (·.id ≠ v.id)

theorem mem_ids_firstOfEachId {vs : List View} {id : String} :
    id ∈ (firstOfEachId vs).map (·.id) ↔ id ∈ vs.map (·.id) := by
  induction vs with
  | nil => rfl
  | cons v vs ih =>
    by_cases hv : id = v.id
    · simp [firstOfEachId, hv]
    · have hkept : id ∈ ((firstOfEachId vs).filter (·.id ≠ v.id)).map (·.id) ↔
          id ∈ (firstOfEachId vs).map (·.id) := by
        simp only [List.mem_map, List.mem_filter, decide_eq_true_eq]
        exact ⟨fun ⟨w, ⟨hw, _⟩, hid⟩ => ⟨w, hw, hid⟩, fun ⟨w, hw, hid⟩ =>
          ⟨w, ⟨hw, hid ▸ hv⟩, hid⟩⟩
      rw [firstOfEachId, List.map_cons, List.mem_cons, hkept, ih, List.map_cons, List.mem_cons]

theorem nodup_ids_firstOfEachId (vs : List View) : ((firstOfEachId vs).map (·.id)).Nodup := by
  induction vs with
  | nil => exact .nil
  | cons v vs ih =>
    rw [firstOfEachId, List.map_cons, List.nodup_cons]
    refine ⟨fun hv => ?_, ih.sublist (List.filter_sublist.map _)⟩
    obtain ⟨w, hw, hid⟩ := List.mem_map.1 hv
    exact (of_decide_eq_true (List.mem_filter.1 hw).2) hid

theorem firstOfEachId_of_nodup {vs : List View} (h : (vs.map (·.id)).Nodup) :
    firstOfEachId vs = vs := by
  induction vs with
  | nil => rfl
  | cons v vs ih =>
    obtain ⟨hv, hvs⟩ := List.nodup_cons.1 h
    have hall : vs.filter (·.id ≠ v.id) = vs := List.filter_eq_self.2 fun w hw =>
      decide_eq_true fun hid => hv (List.mem_map.2 ⟨w, hw, hid⟩)
    rw [firstOfEachId, ih hvs, hall]

/-- The first view of an id is kept. -/
theorem find?_firstOfEachId (vs : List View) (id : String) :
    (firstOfEachId vs).find? (·.id == id) = vs.find? (·.id == id) := by
  induction vs with
  | nil => rfl
  | cons v vs ih =>
    rw [firstOfEachId]
    by_cases hv : v.id = id
    · rw [List.find?_cons_of_pos (by simpa using hv), List.find?_cons_of_pos (by simpa using hv)]
    · have hother (w : View) :
          (decide (w.id ≠ v.id) = true ∧ (w.id == id) = true) ↔ (w.id == id) = true :=
        ⟨And.right, fun hw => ⟨decide_eq_true fun hwv => hv (hwv ▸ beq_iff_eq.1 hw), hw⟩⟩
      rw [List.find?_cons_of_neg (by simpa using hv), List.find?_cons_of_neg (by simpa using hv),
        List.find?_filter, ← ih]
      simp only [hother, Bool.decide_eq_true]

namespace Layout

/-- Adding views in order keeps the first view of each id that is new. -/
theorem foldl_push (l : Layout) (vs : List View) :
    vs.foldl push l =
      { l with views := l.views ++ (firstOfEachId vs).filter (·.id ∉ l.views.map (·.id)) } := by
  induction vs generalizing l with
  | nil => simp [firstOfEachId]
  | cons v vs ih =>
    have htaken : (l.find? v.id).isSome = true ↔ v.id ∈ l.views.map (·.id) := by
      simp [find?]
    rw [List.foldl_cons, ih, firstOfEachId, push]
    by_cases hv : v.id ∈ l.views.map (·.id)
    · have hsame (w : View) : decide (w.id ∉ l.views.map (·.id)) =
          (decide (w.id ∉ l.views.map (·.id)) && decide (w.id ≠ v.id)) := by
        rw [eq_comm, Bool.and_eq_left_iff_imp, decide_eq_true_eq, decide_eq_true_eq]
        exact fun hw hwv => hw (hwv ▸ hv)
      rw [if_pos (htaken.2 hv), List.filter_cons_of_neg (by simpa using hv), List.filter_filter]
      simp only [← hsame]
    · have hsame (w : View) : decide (w.id ∉ (l.views ++ [v]).map (·.id)) =
          (decide (w.id ∉ l.views.map (·.id)) && decide (w.id ≠ v.id)) := by
        rw [← Bool.decide_and, decide_eq_decide, List.map_append, List.mem_append, not_or,
          List.map_singleton, List.mem_singleton]
      rw [if_neg (mt htaken.1 hv), List.filter_cons_of_pos (by simpa using hv), List.filter_filter]
      simp only [hsame, List.append_assoc, List.singleton_append]

/-- A layout whose views come from a list of views gains the first of each new id of another. -/
theorem views_merge {l : Layout} {vs : List View} (h : l.views = firstOfEachId vs)
    (other : Layout) : (l.merge other).views = firstOfEachId (vs ++ other.views) := by
  have hdrop (ws : List View) : firstOfEachId (vs ++ ws) =
      firstOfEachId vs ++ (firstOfEachId ws).filter (·.id ∉ vs.map (·.id)) := by
    clear h
    induction vs with
    | nil => simp [firstOfEachId]
    | cons v vs ih =>
      rw [List.cons_append, firstOfEachId, ih, List.filter_append, firstOfEachId,
        List.cons_append, List.filter_filter]
      simp only [List.map_cons, List.mem_cons, not_or, Bool.decide_and]
  rw [merge, foldl_push, hdrop, h]
  simp only [mem_ids_firstOfEachId]

theorem nodup_ids_push {l : Layout} (h : l.ids.Nodup) (v : View) : (l.push v).ids.Nodup := by
  rw [ids_push]
  split
  · exact h
  · rename_i hv
    exact List.nodup_append.2 ⟨h, by simp, by
      rintro a ha b hb rfl
      exact hv (List.mem_singleton.1 hb ▸ ha)⟩

theorem nodup_ids_pushElements {opts : ReadingOptions} {l l' : Layout}
    {es : List Markup.Element} (h : l.pushElements opts es = .ok l') (hl : l.ids.Nodup) :
    l'.ids.Nodup := by
  induction es generalizing l with
  | nil => exact Except.ok.inj h ▸ hl
  | cons e es ih =>
    rw [pushElements] at h
    split at h
    · cases h
    · exact ih h hl
    · exact ih h (nodup_ids_push hl _)

/-- The views of a layout that was read have different ids. -/
theorem nodup_ids_read {opts : ReadingOptions} {name source : String} {l : Layout}
    (h : Layout.read opts name source = .ok l) : l.ids.Nodup := by
  unfold Layout.read at h
  dsimp only at h
  split at h
  · cases h
  · rename_i l' hl'
    split at h
    · cases h
    · exact Except.ok.inj h ▸ nodup_ids_pushElements hl' .nil

/-- **Merged variants have the first view of each id** among the views of all variants in order. -/
theorem views_mergeAll {ls : List Layout} (hnodup : ∀ l ∈ ls, l.ids.Nodup) {merged : Layout}
    (h : mergeAll ls = some merged) : merged.views = firstOfEachId (ls.flatMap (·.views)) := by
  induction ls using List.reverseRecOn generalizing merged with
  | nil => cases h
  | append_singleton ls l ih =>
    rw [mergeAll_concat] at h
    obtain rfl := Option.some.inj h
    rw [List.flatMap_append, List.flatMap_singleton]
    cases hfront : mergeAll ls with
    | none =>
      obtain rfl := mergeAll_eq_none.1 hfront
      exact (firstOfEachId_of_nodup (hnodup l (by simp))).symm
    | some front => exact views_merge (ih (fun m hm => hnodup m (by simp [hm])) hfront) l

/-- A variant without new ids adds nothing. -/
theorem merge_of_ids_subset {l other : Layout} (h : other.ids ⊆ l.ids) : l.merge other = l := by
  have hnone : (firstOfEachId other.views).filter (·.id ∉ l.views.map (·.id)) = [] := by
    refine List.filter_eq_nil_iff.2 fun v hv => ?_
    have hid : v.id ∈ other.ids := mem_ids_firstOfEachId.1 (List.mem_map_of_mem hv)
    simpa [ids] using h hid
  rw [merge, foldl_push, hnone, List.append_nil]

end Layout

/-! ### Catalogs -/

namespace Catalog

/-- The ids that a catalog has for a name are those of the variants of that name. -/
theorem mem_ids_ofList {ls : List Layout} {n id : String} :
    (∃ m, (ofList ls).find? n = some m ∧ id ∈ m.ids) ↔ ∃ l ∈ ls, l.name = n ∧ id ∈ l.ids := by
  rw [find?_ofList]
  constructor
  · rintro ⟨m, hm, hid⟩
    obtain ⟨l, hl, hlid⟩ := (Layout.mem_ids_mergeAll hm).1 hid
    obtain ⟨hmem, hname⟩ := List.mem_filter.1 hl
    exact ⟨l, hmem, beq_iff_eq.1 hname, hlid⟩
  · rintro ⟨l, hl, hname, hid⟩
    have hmem : l ∈ ls.filter (·.name == n) := List.mem_filter.2 ⟨hl, beq_iff_eq.2 hname⟩
    obtain ⟨m, hm⟩ := Option.ne_none_iff_exists'.1 fun hnone =>
      List.ne_nil_of_mem hmem (Layout.mergeAll_eq_none.1 hnone)
    exact ⟨m, hm, (Layout.mem_ids_mergeAll hm).2 ⟨l, hmem, hid⟩⟩

/-- A variant whose ids the layout of its name has already is added without effect. -/
theorem addTo_eq_self {l : Layout} {ms : List Layout} {m : Layout}
    (h : ms.find? (·.name == l.name) = some m) (hids : l.ids ⊆ m.ids) : addTo l ms = ms := by
  induction ms with
  | nil => cases h
  | cons k ms ih =>
    rw [addTo]
    by_cases hk : k.name = l.name
    · rw [List.find?_cons_of_pos (by simpa using hk)] at h
      rw [if_pos hk, Option.some.inj h, Layout.merge_of_ids_subset hids]
    · rw [List.find?_cons_of_neg (by simpa using hk)] at h
      rw [if_neg hk, ih h]

/-- Adding a variant for the second time changes nothing. -/
theorem add_of_mem {ls : List Layout} {l : Layout} (h : l ∈ ls) :
    (ofList ls).add l = ofList ls := by
  have hmem : l ∈ ls.filter (·.name == l.name) := List.mem_filter.2 ⟨h, beq_self_eq_true _⟩
  obtain ⟨m, hm⟩ := Option.ne_none_iff_exists'.1 fun hnone =>
    List.ne_nil_of_mem hmem (Layout.mergeAll_eq_none.1 hnone)
  have hids : l.ids ⊆ m.ids := fun id hid => (Layout.mem_ids_mergeAll hm).2 ⟨l, hmem, hid⟩
  exact congrArg Catalog.mk (addTo_eq_self ((find?_ofList ls l.name).trans hm) hids)

/-- The layout of a name has the first view of each id among the views of its variants. -/
theorem views_of_mem {ls : List Layout} (hnodup : ∀ l ∈ ls, l.ids.Nodup) {m : Layout}
    (hm : m ∈ (ofList ls).layouts) :
    m.views = firstOfEachId ((ls.filter (·.name == m.name)).flatMap (·.views)) := by
  rw [mem_layouts_iff, find?_ofList] at hm
  exact Layout.views_mergeAll (fun l hl => hnodup l (List.mem_filter.1 hl).1) hm

/-- **A catalog groups its variants by name.**  The names stand in the order in which they were
first seen, and the layout of a name has the views of its variants in order without those whose id
an earlier view has: its ids are different, and the view of an id is that of the first variant that
has one.  Adding a variant for the second time changes nothing, and variants in another order give
the same names with the same ids.  The variants that a run reads have different ids each. -/
theorem layouts_ofList {ls : List Layout} (hnodup : ∀ l ∈ ls, l.ids.Nodup) :
    (ofList ls).layouts = (ls.map (·.name)).eraseDups.map (fun n =>
        ⟨n, firstOfEachId ((ls.filter (·.name == n)).flatMap (·.views))⟩) ∧
      ((ofList ls).layouts.map (·.name)).Nodup ∧
      (∀ m ∈ (ofList ls).layouts, m.ids.Nodup ∧
        ∀ id, m.find? id = (ls.filter (·.name == m.name)).findSome? (·.find? id)) ∧
      (∀ l ∈ ls, ∀ later, ofList (ls ++ l :: later) = ofList (ls ++ later)) ∧
      (∀ ms, ms.Perm ls →
        (∀ n, n ∈ (ofList ms).layouts.map (·.name) ↔ n ∈ (ofList ls).layouts.map (·.name)) ∧
        ∀ n id, (∃ m, (ofList ms).find? n = some m ∧ id ∈ m.ids) ↔
          ∃ m, (ofList ls).find? n = some m ∧ id ∈ m.ids) ∧
      ∀ opts name source l, Layout.read opts name source = .ok l → l.ids.Nodup := by
  refine ⟨?groups, names_nodup ls, ?views, ?again, ?order, fun _ _ _ _ => Layout.nodup_ids_read⟩
  case groups =>
    rw [← names_ofList, List.map_map, List.map_congr_left (g := id) fun m hm => ?_, List.map_id]
    exact congrArg (Layout.mk m.name) (views_of_mem hnodup hm).symm
  case views =>
    intro m hm
    refine ⟨?_, fun id => ?_⟩
    · rw [Layout.ids, views_of_mem hnodup hm]
      exact nodup_ids_firstOfEachId _
    · rw [Layout.find?, views_of_mem hnodup hm, find?_firstOfEachId, List.find?_flatMap]
      rfl
  case again =>
    intro l hl later
    rw [ofList, List.foldl_append, List.foldl_cons]
    exact (congrArg (later.foldl add) (add_of_mem hl)).trans List.foldl_append.symm
  case order =>
    intro ms hperm
    refine ⟨fun n => ?_, fun n id => ?_⟩
    · rw [names_ofList, names_ofList, List.mem_eraseDups, List.mem_eraseDups]
      exact (hperm.map _).mem_iff
    · rw [mem_ids_ofList, mem_ids_ofList]
      exact exists_congr fun l => and_congr_left' hperm.mem_iff

/-- Variants of two layouts by turns, of which two disagree about the view of one id. -/
def interleavedVariants : List Layout :=
  [⟨"main", [⟨"android.widget.TextView", "title", false, some "heading"⟩]⟩,
    ⟨"item", [⟨"android.widget.TextView", "title", false, none⟩]⟩,
    ⟨"main", [⟨"android.widget.ListView", "list", true, none⟩,
      ⟨"android.widget.Button", "title", false, some "button"⟩]⟩]

theorem layouts_ofList_interleavedVariants :
    (∀ l ∈ interleavedVariants, l.ids.Nodup) ∧
      (ofList interleavedVariants).layouts =
        [⟨"main", [⟨"android.widget.TextView", "title", false, some "heading"⟩,
            ⟨"android.widget.ListView", "list", true, none⟩]⟩,
          ⟨"item", [⟨"android.widget.TextView", "title", false, none⟩]⟩] ∧
      ofList (interleavedVariants ++ interleavedVariants) = ofList interleavedVariants ∧
      ∃ m, (ofList interleavedVariants.reverse).find? "main" = some m ∧ "title" ∈ m.ids := by
  have hnodup : ∀ l ∈ interleavedVariants, l.ids.Nodup := by decide +kernel
  obtain ⟨hgroups, -, -, hagain, horder, -⟩ := layouts_ofList hnodup
  have htwice (later : List Layout) (hlater : later ⊆ interleavedVariants) :
      ofList (interleavedVariants ++ later) = ofList interleavedVariants := by
    induction later with
    | nil => rw [List.append_nil]
    | cons l later ih =>
      obtain ⟨hl, hlater⟩ := List.cons_subset.1 hlater
      rw [hagain l hl, ih hlater]
  refine ⟨hnodup, hgroups.trans (by decide +kernel), htwice _ (List.Subset.refl _), ?_⟩
  refine ((horder _ (List.reverse_perm _)).2 "main" "title").2 (mem_ids_ofList.2 ?_)
  exact ⟨_, List.mem_cons_self, rfl, by decide +kernel⟩

end Catalog

end ViewHolder
