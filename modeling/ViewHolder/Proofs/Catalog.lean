import Mathlib.Data.List.Induction
import Mathlib.Data.List.Nodup
import ViewHolder.Compile.Options
import ViewHolder.Layout.Reader
import ViewHolder.Proofs.LayoutFile
import ViewHolder.Proofs.PathSet
import ViewHolder.Proofs.Tree

/-!
# Merged variants

The variants of one layout are merged one after the other, and the first view of an id wins: the
order of the variants decides which views are taken and where they stand, but not their ids.

## Main definitions

* `Layout.mergeAll` : the variants of a layout merged in order.
* `Tree.layoutAt?` : the layout that the file at given steps holds.
* `Tree.merged?` : the layout of the files at some places, merged in order.

## Main results

* `Layout.mem_ids_mergeAll` : the ids of merged variants are those of any of them.
* `Catalog.find?_ofList` : a catalog has the merged variants of each name.
* `Catalog.names_ofList` : the layouts of a catalog stand in the order in which they were seen.
* `Catalog.filter_ofList` : the layouts of some names are those of the variants with these names.
-/

namespace ViewHolder

/-! ### Merging -/

namespace Layout

/-- The ids of the views of a layout. -/
def ids (l : Layout) : List String := l.views.map (·.id)

theorem ids_push (l : Layout) (v : View) :
    (l.push v).ids = if v.id ∈ l.ids then l.ids else l.ids ++ [v.id] := by
  have htaken : (l.find? v.id).isSome = true ↔ v.id ∈ l.ids := by
    simp [find?, ids]
  unfold push
  by_cases hv : v.id ∈ l.ids
  · rw [if_pos (htaken.2 hv), if_pos hv]
  · rw [if_neg (mt htaken.1 hv), if_neg hv]
    exact List.map_append

theorem name_push (l : Layout) (v : View) : (l.push v).name = l.name := by
  unfold push
  split <;> rfl

theorem name_merge (l other : Layout) : (l.merge other).name = l.name := by
  unfold merge
  generalize other.views = vs
  induction vs generalizing l with
  | nil => rfl
  | cons v vs ih => exact (ih (l.push v)).trans (l.name_push v)

/-- Merging a variant adds its ids. -/
theorem mem_ids_merge {l other : Layout} {id : String} :
    id ∈ (l.merge other).ids ↔ id ∈ l.ids ∨ id ∈ other.ids := by
  rw [merge, ids.eq_def other]
  generalize other.views = vs
  induction vs generalizing l with
  | nil => simp
  | cons v vs ih =>
    rw [List.foldl_cons, ih, ids_push, List.map_cons, List.mem_cons]
    split
    · rename_i hv
      exact ⟨fun h => h.imp_right Or.inr, fun h => h.elim Or.inl fun h =>
        h.elim (fun h => Or.inl (h ▸ hv)) Or.inr⟩
    · rw [List.mem_append, List.mem_singleton, or_assoc]

theorem views_ne_nil_iff {l : Layout} : l.views ≠ [] ↔ ∃ id, id ∈ l.ids := by
  constructor
  · intro h
    obtain ⟨v, hv⟩ := List.exists_mem_of_ne_nil _ h
    exact ⟨v.id, List.mem_map_of_mem hv⟩
  · rintro ⟨id, hid⟩ h
    rw [ids, h] at hid
    cases hid

theorem merge_self (l : Layout) : l.merge l = l := by
  have hpush (v : View) (hv : v ∈ l.views) : l.push v = l := by
    have htaken : (l.find? v.id).isSome = true := List.find?_isSome.2 ⟨v, hv, by simp⟩
    rw [push, if_pos htaken]
  rw [merge]
  generalize l.views = vs at hpush
  induction vs with
  | nil => rfl
  | cons v vs ih =>
    rw [List.foldl_cons, hpush v List.mem_cons_self]
    exact ih fun w hw => hpush w (List.mem_cons_of_mem v hw)

/-- The variants of a layout merged in order. -/
def mergeAll : List Layout → Option Layout
  | [] => none
  | l :: ls => some (ls.foldl merge l)

theorem mergeAll_concat (ls : List Layout) (l : Layout) :
    mergeAll (ls ++ [l]) = some (((mergeAll ls).map (·.merge l)).getD l) := by
  cases ls with
  | nil => rfl
  | cons m ls => simp [mergeAll, List.foldl_append]

theorem mergeAll_eq_none {ls : List Layout} : mergeAll ls = none ↔ ls = [] := by
  cases ls with
  | nil => simp [mergeAll]
  | cons l ls => simp [mergeAll]

/-- Copies of a layout are merged into the layout itself. -/
theorem mergeAll_eq_self {ls : List Layout} {l : Layout} (hne : ls ≠ [])
    (h : ∀ m ∈ ls, m = l) : mergeAll ls = some l := by
  induction ls using List.reverseRecOn with
  | nil => exact absurd rfl hne
  | append_singleton ls m ih =>
    obtain rfl : m = l := h m (by simp)
    rw [mergeAll_concat]
    by_cases hnil : ls = []
    · rw [hnil]
      rfl
    · rw [ih hnil fun k hk => h k (List.mem_append_left _ hk), Option.map_some, Option.getD_some,
        merge_self]

/-- **The ids of merged variants** are those of any of them, whatever the order. -/
theorem mem_ids_mergeAll {ls : List Layout} {merged : Layout} (h : mergeAll ls = some merged)
    {id : String} : id ∈ merged.ids ↔ ∃ l ∈ ls, id ∈ l.ids := by
  induction ls using List.reverseRecOn generalizing merged with
  | nil => cases h
  | append_singleton ls l ih =>
    rw [mergeAll_concat] at h
    obtain rfl := Option.some.inj h
    cases hfront : mergeAll ls with
    | none =>
      obtain rfl := mergeAll_eq_none.1 hfront
      simp
    | some front =>
      simp [mem_ids_merge, ih hfront, or_and_right, exists_or]

/-- Merged variants have a view exactly if some variant has one. -/
theorem views_mergeAll_ne_nil {ls : List Layout} {merged : Layout}
    (h : mergeAll ls = some merged) : merged.views ≠ [] ↔ ∃ l ∈ ls, l.views ≠ [] := by
  simp only [views_ne_nil_iff, mem_ids_mergeAll h]
  exact ⟨fun ⟨id, l, hl, hid⟩ => ⟨l, hl, id, hid⟩, fun ⟨l, hl, id, hid⟩ => ⟨id, l, hl, hid⟩⟩

end Layout

/-! ### Catalogs -/

namespace Catalog

theorem ofList_concat (ls : List Layout) (l : Layout) :
    ofList (ls ++ [l]) = (ofList ls).add l := by
  rw [ofList, List.foldl_append]
  rfl

theorem find?_add (c : Catalog) (l : Layout) (n : String) :
    (c.add l).find? n =
      if l.name = n then some (((c.find? n).map (·.merge l)).getD l) else c.find? n := by
  obtain ⟨ms⟩ := c
  simp only [add, find?]
  induction ms with
  | nil =>
    rw [addTo]
    split <;> simp_all
  | cons m ms ih =>
    rw [addTo]
    split
    · rename_i hm
      by_cases hn : l.name = n
      · simp [hn, hm, m.name_merge]
      · simp [hn, hm, m.name_merge]
    · rename_i hm
      by_cases hmn : m.name = n
      · have hn : l.name ≠ n := fun h => hm (hmn.trans h.symm)
        simp [hmn, hn]
      · simpa [hmn] using ih

/-- **A catalog has the merged variants of each name**, in the order in which they were added. -/
theorem find?_ofList (ls : List Layout) (n : String) :
    (ofList ls).find? n = Layout.mergeAll (ls.filter (·.name == n)) := by
  induction ls using List.reverseRecOn with
  | nil => rfl
  | append_singleton ls l ih =>
    rw [ofList_concat, find?_add, ih, List.filter_append]
    by_cases hn : l.name = n
    · rw [if_pos hn, List.filter_cons_of_pos (by simpa using hn), List.filter_nil,
        Layout.mergeAll_concat]
    · rw [if_neg hn, List.filter_cons_of_neg (by simpa using hn), List.filter_nil, List.append_nil]

theorem names_addTo (l : Layout) (ms : List Layout) :
    (addTo l ms).map (·.name) =
      if l.name ∈ ms.map (·.name) then ms.map (·.name) else ms.map (·.name) ++ [l.name] := by
  induction ms with
  | nil => rfl
  | cons m ms ih =>
    rw [addTo]
    by_cases hm : m.name = l.name
    · simp [hm, Layout.name_merge]
    · rw [if_neg hm, List.map_cons, ih, List.map_cons]
      by_cases hl : l.name ∈ ms.map (·.name)
      · rw [if_pos hl, if_pos (List.mem_cons_of_mem _ hl)]
      · rw [if_neg hl, if_neg (by simpa [Ne.symm hm] using hl), List.cons_append]

/-- **The layouts of a catalog** stand in the order in which their names were first seen. -/
theorem names_ofList (ls : List Layout) :
    (ofList ls).layouts.map (·.name) = (ls.map (·.name)).eraseDups := by
  induction ls using List.reverseRecOn with
  | nil => rfl
  | append_singleton ls l ih =>
    rw [ofList_concat, add, names_addTo, ih, List.map_append, List.map_singleton, eraseDups_concat]
    simp only [List.mem_eraseDups]

theorem names_nodup (ls : List Layout) : ((ofList ls).layouts.map (·.name)).Nodup := by
  induction ls using List.reverseRecOn with
  | nil => exact .nil
  | append_singleton ls l ih =>
    rw [ofList_concat, add, names_addTo]
    split
    · exact ih
    · rename_i hl
      exact List.nodup_append.2 ⟨ih, by simp, by
        rintro a ha b hb rfl
        exact hl (List.mem_singleton.1 hb ▸ ha)⟩

/-- A name stands for one layout of a catalog. -/
theorem mem_layouts_iff {ls : List Layout} {l : Layout} :
    l ∈ (ofList ls).layouts ↔ (ofList ls).find? l.name = some l := by
  constructor
  · intro hl
    obtain ⟨m, hm⟩ : ∃ m, (ofList ls).find? l.name = some m := by
      refine Option.isSome_iff_exists.1 (List.find?_isSome.2 ⟨l, hl, ?_⟩)
      simp
    have hname : m.name = l.name := by simpa using List.find?_some hm
    rw [hm, List.inj_on_of_nodup_map (names_nodup ls) (List.mem_of_find?_eq_some hm) hl hname]
  · exact List.mem_of_find?_eq_some

/-- Adding a variant adds it to the layouts of some names if it has one of these names. -/
theorem filter_addTo (p : String → Bool) (l : Layout) (ms : List Layout) :
    (addTo l ms).filter (fun m => p m.name) = if p l.name then addTo l (ms.filter fun m => p m.name)
      else ms.filter fun m => p m.name := by
  induction ms with
  | nil =>
    rw [addTo, List.filter_nil, List.filter_cons]
    rfl
  | cons m ms ih =>
    rw [addTo]
    by_cases hm : m.name = l.name
    · rw [if_pos hm, List.filter_cons, List.filter_cons, m.name_merge, hm]
      by_cases hp : p l.name = true
      · rw [if_pos hp, if_pos hp, if_pos hp, addTo, if_pos hm]
      · rw [if_neg hp, if_neg hp, if_neg hp]
    · rw [if_neg hm, List.filter_cons, List.filter_cons, ih]
      by_cases hp : p l.name = true
      · rw [if_pos hp, if_pos hp]
        split
        · rw [addTo, if_neg hm]
        · rfl
      · rw [if_neg hp, if_neg hp]

/-- **The layouts of some names** in a catalog are those of the variants with these names. -/
theorem filter_ofList (p : String → Bool) (ls : List Layout) :
    (ofList ls).layouts.filter (fun l => p l.name) =
      (ofList (ls.filter fun l => p l.name)).layouts := by
  induction ls using List.reverseRecOn with
  | nil => rfl
  | append_singleton ls l ih =>
    rw [ofList_concat, add, filter_addTo, ih, List.filter_append]
    by_cases hp : p l.name = true
    · rw [if_pos hp, List.filter_cons, if_pos hp, List.filter_nil, ofList_concat, add]
    · rw [if_neg hp, List.filter_cons, if_neg hp, List.filter_nil, List.append_nil]

end Catalog

/-! ### Layouts at places -/

theorem Layout.name_pushElements {opts : ReadingOptions} {l l' : Layout}
    {es : List Markup.Element} (h : l.pushElements opts es = .ok l') : l'.name = l.name := by
  induction es generalizing l with
  | nil => rw [Except.ok.inj h]
  | cons e es ih =>
    rw [pushElements] at h
    split at h
    · cases h
    · exact ih h
    · exact (ih h).trans (l.name_push _)

theorem Layout.name_read {opts : ReadingOptions} {name source : String} {l : Layout}
    (h : Layout.read opts name source = .ok l) : l.name = name := by
  unfold Layout.read at h
  dsimp only at h
  split at h
  · cases h
  · rename_i l' hl'
    split at h
    · cases h
    · rw [← Except.ok.inj h, Layout.name_pushElements hl']

/-- The layout that the file at given steps holds, if there is one and it is well-formed. -/
def Tree.layoutAt? (t : Tree) (opts : CompileOptions) (k : List Step) : Option Layout :=
  match t.textAt? (k.filter (· != .here)) with
  | none => none
  | some text => (Layout.read opts.reading (Path.stemAt k) text).toOption

theorem Tree.layoutAt?_eq_some {t : Tree} {opts : CompileOptions} {k : List Step} {l : Layout} :
    t.layoutAt? opts k = some l ↔ ∃ text, t.textAt? (k.filter (· != .here)) = some text ∧
      Layout.read opts.reading (Path.stemAt k) text = .ok l := by
  unfold layoutAt?
  split
  · rename_i h
    simp [h]
  · rename_i text h
    simp only [h, Option.some.injEq, exists_eq_left']
    cases Layout.read opts.reading (Path.stemAt k) text <;> simp [Except.toOption]

theorem Tree.name_of_layoutAt? {t : Tree} {opts : CompileOptions} {k : List Step} {l : Layout}
    (h : t.layoutAt? opts k = some l) : l.name = Path.stemAt k := by
  obtain ⟨text, -, hread⟩ := layoutAt?_eq_some.1 h
  exact Layout.name_read hread

theorem Tree.hasFile_of_layoutAt? {t : Tree} {opts : CompileOptions} {k : List Step} {l : Layout}
    (h : t.layoutAt? opts k = some l) : t.hasFile (k.filter (· != .here)) = true := by
  obtain ⟨text, htext, -⟩ := layoutAt?_eq_some.1 h
  exact hasFile_iff.2 ⟨text, htext⟩

/-- What the file at given steps holds depends on its text. -/
theorem Tree.layoutAt?_eq_of_textAt? {t t' : Tree} {opts : CompileOptions} {k : List Step}
    (h : t'.textAt? (k.filter (· != .here)) = t.textAt? (k.filter (· != .here))) :
    t'.layoutAt? opts k = t.layoutAt? opts k := by
  rw [layoutAt?, layoutAt?, h]

/-- The layout of the files at some places, merged in order. -/
def Tree.merged? (t : Tree) (opts : CompileOptions) (ks : List (List Step)) : Option Layout :=
  Layout.mergeAll (ks.filterMap (t.layoutAt? opts))

/-- The layouts of some names among those read from some places are those read from the places of
these names. -/
theorem Tree.filter_layouts {t : Tree} {opts : CompileOptions} {ks : List (List Step)}
    (p : String → Bool) : (ks.filterMap (t.layoutAt? opts)).filter (fun l => p l.name) =
      (ks.filter fun k => p (Path.stemAt k)).filterMap (t.layoutAt? opts) := by
  rw [List.filter_filterMap, List.filterMap_filter]
  refine List.filterMap_congr fun k _ => ?_
  cases hk : t.layoutAt? opts k with
  | none => simp
  | some l => simp [name_of_layoutAt? hk, Option.filter]

/-- The catalog of the layouts at some places has the merged layout of each name. -/
theorem Tree.find?_catalog (t : Tree) (opts : CompileOptions) (ks : List (List Step))
    (n : String) : (Catalog.ofList (ks.filterMap (t.layoutAt? opts))).find? n =
      t.merged? opts (ks.filter (Path.stemAt · == n)) := by
  rw [Catalog.find?_ofList, filter_layouts (· == n), merged?]

section

variable {t : Tree} {opts : CompileOptions} {ks : List (List Step)} {l : Layout}

/-- Places of which one holds a layout have a merged layout. -/
theorem Tree.exists_merged? {k : List Step} (hk : k ∈ ks) (hl : t.layoutAt? opts k = some l) :
    ∃ merged, t.merged? opts ks = some merged := by
  refine Option.ne_none_iff_exists'.1 fun hnone => ?_
  have hmem : l ∈ ks.filterMap (t.layoutAt? opts) := List.mem_filterMap.2 ⟨k, hk, hl⟩
  rw [Layout.mergeAll_eq_none.1 hnone] at hmem
  cases hmem

/-- Places that all hold the same layout have it as their merged layout. -/
theorem Tree.merged?_eq_self (hne : ks ≠ []) (h : ∀ k ∈ ks, t.layoutAt? opts k = some l) :
    t.merged? opts ks = some l := by
  refine Layout.mergeAll_eq_self ?_ fun m hm => ?_
  · obtain ⟨k, hk⟩ := List.exists_mem_of_ne_nil ks hne
    exact List.ne_nil_of_mem (List.mem_filterMap.2 ⟨k, hk, h k hk⟩)
  · obtain ⟨k, hk, hkm⟩ := List.mem_filterMap.1 hm
    exact Option.some.inj (hkm.symm.trans (h k hk))

variable {merged : Layout} (h : t.merged? opts ks = some merged)
include h

theorem Tree.mem_ids_merged? {id : String} : id ∈ merged.ids ↔
    ∃ k ∈ ks, ∃ l, t.layoutAt? opts k = some l ∧ id ∈ l.ids := by
  rw [Layout.mem_ids_mergeAll h]
  simp only [List.mem_filterMap]
  exact ⟨fun ⟨l, ⟨k, hk, hl⟩, hid⟩ => ⟨k, hk, l, hl, hid⟩, fun ⟨k, hk, l, hl, hid⟩ =>
    ⟨l, ⟨k, hk, hl⟩, hid⟩⟩

theorem Tree.views_merged?_ne_nil : merged.views ≠ [] ↔
    ∃ k ∈ ks, ∃ l, t.layoutAt? opts k = some l ∧ l.views ≠ [] := by
  rw [Layout.views_mergeAll_ne_nil h]
  simp only [List.mem_filterMap]
  exact ⟨fun ⟨l, ⟨k, hk, hl⟩, hv⟩ => ⟨k, hk, l, hl, hv⟩, fun ⟨k, hk, l, hl, hv⟩ =>
    ⟨l, ⟨k, hk, hl⟩, hv⟩⟩

end

end ViewHolder
