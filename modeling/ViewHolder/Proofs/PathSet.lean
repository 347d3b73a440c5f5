import Mathlib.Data.List.Induction
import ViewHolder.Path.Set

/-!
# Sets of paths by their places

A set of paths is described by the steps of its members: adding paths one after the other keeps
the first spelling of every place, in the order of arrival.

## Main definitions

* `PathSet.places` : the steps of the members, in order.
* `Path.firstSpellings` : a list of paths without those whose place an earlier one names.

## Main results

* `PathSet.places_ofList` : the set of a list has the places of the list, each where it first
  occurs.
* `PathSet.toList_ofList_eq` : the set of a list has its first spellings.
* `PathSet.places_erase` : removing a path takes its place out.
-/

namespace ViewHolder

theorem eraseDups_concat {α : Type} [BEq α] [LawfulBEq α] (l : List α) (a : α) [Decidable (a ∈ l)] :
    (l ++ [a]).eraseDups = if a ∈ l then l.eraseDups else l.eraseDups ++ [a] := by
  rw [List.eraseDups_append]
  split <;> rename_i h <;> simp [List.removeAll, h, List.eraseDups_cons]

/-- Dropping repetitions and dropping members commute. -/
theorem filter_eraseDups {α : Type} [BEq α] [LawfulBEq α] (p : α → Bool) (l : List α) :
    l.eraseDups.filter p = (l.filter p).eraseDups := by
  classical
  induction l using List.reverseRecOn with
  | nil => rfl
  | append_singleton l a ih =>
    rw [eraseDups_concat, List.filter_append]
    by_cases hp : p a
    · rw [List.filter_cons_of_pos hp, List.filter_nil, eraseDups_concat, ← ih]
      by_cases ha : a ∈ l <;> simp [ha, hp]
    · rw [List.filter_cons_of_neg hp, List.filter_nil, List.append_nil, ← ih]
      split <;> simp [hp]

theorem eraseDups_of_nodup {α : Type} [BEq α] [LawfulBEq α] {l : List α} (h : l.Nodup) :
    l.eraseDups = l := by
  induction l with
  | nil => rfl
  | cons a l ih =>
    obtain ⟨ha, hl⟩ := List.nodup_cons.1 h
    have hfilter : l.filter (fun b => !b == a) = l :=
      List.filter_eq_self.2 fun b hb => by simpa using fun hba : b = a => ha (hba ▸ hb)
    rw [List.eraseDups_cons, hfilter, ih hl]

/-! ### First spellings -/

namespace Path

/-- A list of paths without those whose place an earlier one names. -/
def firstSpellings : List Path → List Path
  | [] => []
  | p :: ps => p :: (firstSpellings ps).filter (·.steps ≠ p.steps)

theorem firstSpellings_concat (ps : List Path) (p : Path) :
    firstSpellings (ps ++ [p]) =
      if p.steps ∈ ps.map Path.steps then firstSpellings ps else firstSpellings ps ++ [p] := by
  induction ps with
  | nil => rfl
  | cons q ps ih =>
    simp only [List.cons_append, firstSpellings, ih, List.map_cons, List.mem_cons]
    by_cases hq : p.steps = q.steps
    · -- the filter for `q` takes `p` out again, wherever it was put
      split <;> simp [hq]
    · by_cases hp : p.steps ∈ ps.map Path.steps
      · rw [if_pos hp, if_pos (.inr hp)]
      · rw [if_neg hp, if_neg (not_or.2 ⟨hq, hp⟩), List.filter_append,
          List.filter_cons_of_pos (by simpa using hq), List.filter_nil]

end Path

namespace PathSet

/-! ### Places -/

/-- The steps of the members, in order. -/
def places (s : PathSet) : List (List Step) := s.toList.map Path.steps

theorem places_nodup (s : PathSet) : s.places.Nodup := List.pairwise_map.2 s.distinct

theorem contains_iff_mem_places {s : PathSet} {p : Path} :
    s.contains p = true ↔ p.steps ∈ s.places := by
  rw [contains_iff, places, List.mem_map]
  exact exists_congr fun q => and_congr_right fun _ => eq_comm

theorem toList_insert (s : PathSet) (p : Path) :
    (s.insert p).toList = if p.steps ∈ s.places then s.toList else s.toList ++ [p] := by
  unfold insert
  split
  · rename_i h
    rw [if_pos (contains_iff_mem_places.1 h)]
  · rename_i h
    rw [if_neg (mt contains_iff_mem_places.2 h)]

theorem places_insert (s : PathSet) (p : Path) :
    (s.insert p).places = if p.steps ∈ s.places then s.places else s.places ++ [p.steps] := by
  rw [places, toList_insert]
  split
  · rfl
  · rw [List.map_append, List.map_singleton, places]

theorem ofList_concat (ps : List Path) (p : Path) :
    ofList (ps ++ [p]) = (ofList ps).insert p := by
  rw [ofList, extend, List.foldl_append]
  rfl

/-- The set of a list has the places of the list, each where it first occurs. -/
theorem places_ofList (ps : List Path) : (ofList ps).places = (ps.map Path.steps).eraseDups := by
  induction ps using List.reverseRecOn with
  | nil => rfl
  | append_singleton ps p ih =>
    rw [ofList_concat, places_insert, ih, List.map_append, List.map_singleton, eraseDups_concat]
    simp only [List.mem_eraseDups]

theorem mem_places_ofList {ps : List Path} {k : List Step} :
    k ∈ (ofList ps).places ↔ k ∈ ps.map Path.steps := by
  rw [places_ofList, List.mem_eraseDups]

theorem places_erase (s : PathSet) (p : Path) :
    (s.erase p).places = s.places.filter (· != p.steps) := by
  rw [places, places, List.filter_map]
  refine congrArg _ (List.filter_congr fun q _ => ?_)
  simp [Path.same, bne, Bool.beq_comm]

theorem places_foldl_erase (s : PathSet) (ps : List Path) :
    (ps.foldl erase s).places = s.places.filter (· ∉ ps.map Path.steps) := by
  induction ps generalizing s with
  | nil => exact (List.filter_eq_self.2 (by simp)).symm
  | cons p ps ih =>
    rw [List.foldl_cons, ih, places_erase, List.filter_filter]
    refine List.filter_congr fun k _ => ?_
    by_cases hk : k = p.steps <;> simp [hk]

/-! ### Members -/

/-- The set of a list keeps the first spelling of every place, in the order of arrival. -/
theorem toList_ofList_eq (ps : List Path) : (ofList ps).toList = Path.firstSpellings ps := by
  induction ps using List.reverseRecOn with
  | nil => rfl
  | append_singleton ps p ih =>
    simp only [ofList_concat, toList_insert, mem_places_ofList, ih, Path.firstSpellings_concat]

theorem count_firstSpellings (ps : List Path) (k : List Step) :
    ((Path.firstSpellings ps).map Path.steps).count k = if k ∈ ps.map Path.steps then 1 else 0 := by
  have hplaces : (Path.firstSpellings ps).map Path.steps = (ofList ps).places := by
    rw [places, toList_ofList_eq]
  rw [hplaces, (places_nodup _).count]
  simp only [mem_places_ofList]

theorem extend_of_contains {s : PathSet} {ps : List Path} (h : ∀ p ∈ ps, s.contains p = true) :
    s.extend ps = s := by
  unfold extend
  induction ps with
  | nil => rfl
  | cons p ps ih =>
    have hinsert : s.insert p = s := dif_pos (h p List.mem_cons_self)
    rw [List.foldl_cons, hinsert]
    exact ih fun q hq => h q (List.mem_cons_of_mem p hq)

theorem ofList_append (ps qs : List Path) : ofList (ps ++ qs) = (ofList ps).extend qs :=
  List.foldl_append

/-- The set of paths to different places has them in their order. -/
theorem toList_ofList {ps : List Path} (h : ps.Pairwise fun p q => p.steps ≠ q.steps) :
    (ofList ps).toList = ps := by
  induction ps using List.reverseRecOn with
  | nil => rfl
  | append_singleton ps p ih =>
    obtain ⟨hfront, -, hlast⟩ := List.pairwise_append.1 h
    have hnew : ¬ (ofList ps).contains p = true := by
      rw [contains_iff, ih hfront]
      rintro ⟨q, hq, hpq⟩
      exact hlast q hq p List.mem_cons_self hpq.symm
    rw [ofList_concat, insert, dif_neg hnew]
    exact congrArg (· ++ [p]) (ih hfront)

theorem ext_toList {s s' : PathSet} (h : s.toList = s'.toList) : s = s' := by
  obtain ⟨l, hl⟩ := s
  obtain ⟨l', hl'⟩ := s'
  obtain rfl : l = l' := h
  rfl

end PathSet

end ViewHolder
