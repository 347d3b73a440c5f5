import Mathlib.Data.List.Perm.Subperm
import ViewHolder.Proofs.PathSet

/-!
# Calls of a set of paths

A set of paths is used by calls in any order: paths are added and removed, and it is asked for one
path or for all of them.  Whatever the calls and however their paths are spelled, the set behaves as
a list in which no two paths have the same steps.  What is in it can also be read off the calls
alone: the paths that were added and whose place was not removed since, each place in the spelling
in which it came first.  So sets that were filled in different orders are equal exactly if they name
the same places.

## Main definitions

* `PathSet.after`, `PathSet.answers` : a set after some calls, and what these give back.
* `PathSet.Acts`, `PathSet.Runs` : what calls do to a list of paths that are told apart by steps.
* `PathSet.standing` : the paths that were added and whose place was not removed since.

## Main results

* `PathSet.acts_iff`, `PathSet.runs_iff` : a set does to its members what the list does.
* `PathSet.after_empty` : a set is determined by the standing paths.
* `PathSet.sameAs_iff` : sets are equal exactly if they have the same places.
* `PathSet.behaves_as_list` : what any calls do to a set that starts out empty.
-/

namespace ViewHolder

theorem Path.firstSpellings_filter (keep : List Step → Bool) (ps : List Path) :
    firstSpellings (ps.filter (keep ·.steps)) = (firstSpellings ps).filter (keep ·.steps) := by
  induction ps with
  | nil => rfl
  | cons p ps ih =>
    by_cases hp : keep p.steps = true
    · rw [List.filter_cons, if_pos hp, firstSpellings, ih, firstSpellings, List.filter_cons,
        if_pos hp, List.filter_filter, List.filter_filter]
      simp only [Bool.and_comm]
    · rw [List.filter_cons, if_neg hp, ih, firstSpellings, List.filter_cons, if_neg hp,
        List.filter_filter]
      -- what is kept is not spelled as `p`, so the filter for `p` takes nothing out
      refine List.filter_congr fun q _ => ?_
      by_cases hq : q.steps = p.steps
      · simp [hq, hp]
      · simp [hq]

namespace PathSet

/-! ### Calls one after the other -/

/-- A set after some calls. -/
def after (s : PathSet) (calls : List Call) : PathSet := calls.foldl (fun t c => (t.call c).2) s

/-- What the calls of a sequence give back, one after the other. -/
def answers (s : PathSet) : List Call → List Answer
  | [] => []
  | c :: cs => (s.call c).1 :: answers (s.call c).2 cs

/-! ### Lists of paths that are told apart by steps -/

/-- What a call of a list of paths gives back, and the list that it leaves. -/
inductive Acts : List Path → Call → Answer → List Path → Prop
  /-- A new path goes to the end. -/
  | insertNew {l p} (h : ∀ q ∈ l, p.steps ≠ q.steps) : Acts l (.insert p) (.said true) (l ++ [p])
  /-- A path whose place is there leaves the list as it is, also the spelling of that place. -/
  | insertOld {l p q} (hq : q ∈ l) (h : p.steps = q.steps) : Acts l (.insert p) (.said false) l
  /-- Adding no paths does nothing. -/
  | extendNil {l} : Acts l (.extend []) .done l
  /-- Several paths are added one after the other. -/
  | extendCons {l m n p ps a} (first : Acts l (.insert p) a m)
      (rest : Acts m (.extend ps) .done n) : Acts l (.extend (p :: ps)) .done n
  /-- The path whose place is removed is taken out, and the others keep their order. -/
  | removeOld {l l' p q} (h : p.steps = q.steps) :
      Acts (l ++ q :: l') (.remove p) (.said true) (l ++ l')
  /-- Removing what is not there does nothing. -/
  | removeNew {l p} (h : ∀ q ∈ l, p.steps ≠ q.steps) : Acts l (.remove p) (.said false) l
  /-- A path is a member if its place is there, in whatever spelling. -/
  | containsOld {l p q} (hq : q ∈ l) (h : p.steps = q.steps) : Acts l (.contains p) (.said true) l
  /-- Otherwise it is no member. -/
  | containsNew {l p} (h : ∀ q ∈ l, p.steps ≠ q.steps) : Acts l (.contains p) (.said false) l
  /-- The members are listed in order. -/
  | list {l} : Acts l .list (.members l) l

/-- What some calls of a list of paths give back, and the list that they leave. -/
inductive Runs : List Path → List Call → List Answer → List Path → Prop
  /-- No calls leave the list as it is. -/
  | nil {l} : Runs l [] [] l
  /-- The later calls find the list that the first one leaves. -/
  | cons {l m n c cs a as} (first : Acts l c a m) (rest : Runs m cs as n) :
      Runs l (c :: cs) (a :: as) n

section

variable {s : PathSet} {p q : Path} {l l' : List Path}

theorem contains_eq_false_iff : s.contains p = false ↔ ∀ q ∈ s.toList, p.steps ≠ q.steps := by
  rw [← Bool.not_eq_true, contains_iff]
  simp

theorem toList_insert_of_contains (h : s.contains p = true) : (s.insert p).toList = s.toList := by
  rw [toList_insert, if_pos (contains_iff_mem_places.1 h)]

theorem toList_insert_of_new (h : s.contains p = false) :
    (s.insert p).toList = s.toList ++ [p] := by
  rw [toList_insert, if_neg (mt contains_iff_mem_places.2 (Bool.not_eq_true _ ▸ h))]

theorem toList_erase_of_new (h : s.contains p = false) : (s.erase p).toList = s.toList :=
  List.filter_eq_self.2 fun q hq => by simpa [Path.same] using contains_eq_false_iff.1 h q hq

/-- Removing a path takes out the one member that names its place. -/
theorem toList_erase_of_split (hs : s.toList = l ++ q :: l') (h : p.steps = q.steps) :
    (s.erase p).toList = l ++ l' := by
  obtain ⟨-, hback, hfront⟩ := List.pairwise_append.1 (hs ▸ s.distinct)
  have hl : l.filter (fun r => !p.same r) = l := List.filter_eq_self.2 fun r hr => by
    simpa [Path.same, h] using (hfront r hr q List.mem_cons_self).symm
  have hl' : l'.filter (fun r => !p.same r) = l' := List.filter_eq_self.2 fun r hr => by
    simpa [Path.same, h] using (List.pairwise_cons.1 hback).1 r hr
  have hq : ¬ (!p.same q) = true := by simp [Path.same, h]
  show s.toList.filter (fun r => !p.same r) = l ++ l'
  rw [hs, List.filter_append, hl, List.filter_cons, if_neg hq, hl']

end

/-- A call of a set does to its members what it does to a list. -/
theorem acts_call (s : PathSet) (c : Call) : Acts s.toList c (s.call c).1 (s.call c).2.toList := by
  have hinsert (s : PathSet) (p : Path) :
      Acts s.toList (.insert p) (.said (!s.contains p)) (s.insert p).toList := by
    cases h : s.contains p with
    | false =>
      rw [toList_insert_of_new h]
      exact .insertNew (contains_eq_false_iff.1 h)
    | true =>
      rw [toList_insert_of_contains h]
      obtain ⟨q, hq, hpq⟩ := contains_iff.1 h
      exact .insertOld hq hpq
  cases c with
  | insert p => exact hinsert s p
  | extend ps =>
    induction ps generalizing s with
    | nil => exact .extendNil
    | cons p ps ih => exact .extendCons (hinsert s p) (ih (s.insert p))
  | remove p =>
    rw [call]
    cases h : s.contains p with
    | false =>
      rw [toList_erase_of_new h]
      exact .removeNew (contains_eq_false_iff.1 h)
    | true =>
      obtain ⟨q, hq, hpq⟩ := contains_iff.1 h
      obtain ⟨l, l', hs⟩ := List.append_of_mem hq
      rw [toList_erase_of_split hs hpq, hs]
      exact .removeOld hpq
  | contains p =>
    rw [call]
    cases h : s.contains p with
    | false => exact .containsNew (contains_eq_false_iff.1 h)
    | true =>
      obtain ⟨q, hq, hpq⟩ := contains_iff.1 h
      exact .containsOld hq hpq
  | list => exact .list

/-- The members of a set leave a call of the list no choice. -/
theorem eq_of_acts {s : PathSet} {c : Call} {a : Answer} {l m : List Path} (h : Acts l c a m)
    (hl : s.toList = l) : (s.call c).1 = a ∧ (s.call c).2.toList = m := by
  have hnew {s : PathSet} {p : Path} {l : List Path} (hl : s.toList = l)
      (h : ∀ q ∈ l, p.steps ≠ q.steps) : s.contains p = false :=
    contains_eq_false_iff.2 (hl ▸ h)
  have hold {s : PathSet} {p q : Path} {l : List Path} (hl : s.toList = l) (hq : q ∈ l)
      (h : p.steps = q.steps) : s.contains p = true :=
    contains_iff.2 ⟨q, hl ▸ hq, h⟩
  induction h generalizing s with
  | insertNew h =>
    simp [call, hnew hl h, toList_insert_of_new (hnew hl h), hl]
  | insertOld hq h =>
    simp [call, hold hl hq h, toList_insert_of_contains (hold hl hq h), hl]
  | extendNil => exact ⟨rfl, hl⟩
  | extendCons _ _ ihfirst ihrest => exact ihrest (ihfirst hl).2
  | removeOld h =>
    have hmem := hold hl (List.mem_append_right _ List.mem_cons_self) h
    simp [call, hmem, toList_erase_of_split hl h]
  | removeNew h =>
    simp [call, hnew hl h, toList_erase_of_new (hnew hl h), hl]
  | containsOld hq h => simp [call, hold hl hq h, hl]
  | containsNew h => simp [call, hnew hl h, hl]
  | list => simp [call, hl]

/-- **A set does to its members what the list does**, and nothing else. -/
theorem acts_iff {s : PathSet} {c : Call} {a : Answer} {l : List Path} :
    Acts s.toList c a l ↔ (s.call c).1 = a ∧ (s.call c).2.toList = l := by
  constructor
  · exact fun h => eq_of_acts h rfl
  · rintro ⟨rfl, rfl⟩
    exact s.acts_call c

/-- The calls of a sequence do to the members of a set what they do to a list. -/
theorem runs_iff {s : PathSet} {calls : List Call} {as : List Answer} {l : List Path} :
    Runs s.toList calls as l ↔ s.answers calls = as ∧ (s.after calls).toList = l := by
  induction calls generalizing s as with
  | nil =>
    constructor
    · rintro ⟨⟩
      exact ⟨rfl, rfl⟩
    · rintro ⟨rfl, rfl⟩
      exact .nil
  | cons c calls ih =>
    constructor
    · rintro (_ | ⟨hfirst, hrest⟩)
      obtain ⟨rfl, rfl⟩ := acts_iff.1 hfirst
      obtain ⟨rfl, rfl⟩ := ih.1 hrest
      exact ⟨rfl, rfl⟩
    · rintro ⟨rfl, rfl⟩
      exact .cons (s.acts_call c) (ih.2 ⟨rfl, rfl⟩)

/-! ### Standing paths -/

/-- The paths that a call adds. -/
def Call.added : Call → List Path
  | .insert p => [p]
  | .extend ps => ps
  | _ => []

/-- Whether a call removes the place of a path. -/
def Call.removes : Call → Path → Bool
  | .remove q, p => q.same p
  | _, _ => false

/-- The paths that some calls add and whose place no later call removes, in order. -/
def standing : List Call → List Path
  | [] => []
  | c :: cs => (c.added.filter fun p => !cs.any (·.removes p)) ++ standing cs

theorem standing_concat (calls : List Call) (c : Call) :
    standing (calls ++ [c]) = (standing calls).filter (!c.removes ·) ++ c.added := by
  induction calls with
  | nil => simp [standing]
  | cons d calls ih =>
    have hlater (p : Path) : (!(calls ++ [c]).any (·.removes p)) =
        (!c.removes p && !calls.any (·.removes p)) := by
      simp [Bool.and_comm]
    rw [List.cons_append, standing, ih, standing, List.filter_append, List.filter_filter,
      List.append_assoc]
    simp only [hlater]

theorem ofList_filter (ps : List Path) (p : Path) :
    ofList (ps.filter (!p.same ·)) = (ofList ps).erase p := by
  have hfilter := Path.firstSpellings_filter (fun k => !p.steps == k) ps
  refine ext_toList ?_
  rw [toList_ofList_eq]
  exact hfilter.trans (by rw [← toList_ofList_eq]; rfl)

/-- A call changes the set of some paths as it changes the standing paths. -/
theorem call_ofList (ps : List Path) (c : Call) :
    ((ofList ps).call c).2 = ofList (ps.filter (!c.removes ·) ++ c.added) := by
  cases c with
  | insert p => simp [call, Call.removes, Call.added, ofList_concat]
  | extend qs => simp [call, Call.removes, Call.added, ofList_append]
  | remove p => simp [call, Call.removes, Call.added, ofList_filter]
  | contains p | list => simp [call, Call.removes, Call.added]

/-- **A set that started out empty is the set of the standing paths.** -/
theorem after_empty (calls : List Call) : empty.after calls = ofList (standing calls) := by
  induction calls using List.reverseRecOn with
  | nil => rfl
  | append_singleton calls c ih =>
    rw [standing_concat, ← call_ofList, ← ih, after, List.foldl_append]
    rfl

/-! ### Equal sets -/

/-- **Sets are equal exactly if they have the same places**, in whatever order and spelling. -/
theorem sameAs_iff {s t : PathSet} : s.sameAs t = true ↔ ∀ k, k ∈ s.places ↔ k ∈ t.places := by
  have hsubset : s.toList.all t.contains = true ↔ s.places ⊆ t.places := by
    simp [List.subset_def, contains_iff_mem_places, places]
  have hsize : (s.size == t.size) = true ↔ s.places.length = t.places.length := by
    simp [size, places]
  rw [sameAs, Bool.and_eq_true, hsize, hsubset]
  constructor
  · rintro ⟨hlength, hsub⟩ k
    exact ((List.subperm_of_subset s.places_nodup hsub).perm_of_length_le
      (Nat.le_of_eq hlength.symm)).mem_iff
  · intro h
    have hperm := (List.perm_ext_iff_of_nodup s.places_nodup t.places_nodup).2 h
    exact ⟨hperm.length_eq, hperm.subset⟩

theorem sameAs_ofList_iff {ps qs : List Path} : (ofList ps).sameAs (ofList qs) = true ↔
    ∀ k, k ∈ ps.map Path.steps ↔ k ∈ qs.map Path.steps := by
  simp only [sameAs_iff, mem_places_ofList]

/-! ### Any calls -/

/-- **A set of paths is an ordered set under equality of steps.**  Whatever calls are made, in
whatever spellings: the answers and the members are those of a list in which every place is named
once; the members are the paths that were added and whose place was not removed since, each place in
its first spelling; and two sets are equal exactly if they name the same places, in whatever order
they were filled. -/
theorem behaves_as_list :
    (∀ (calls : List Call) (as : List Answer) (l : List Path),
      Runs [] calls as l ↔ empty.answers calls = as ∧ (empty.after calls).toList = l) ∧
    (∀ calls : List Call,
      (empty.after calls).toList.Pairwise (fun p q => p.steps ≠ q.steps) ∧
        (empty.after calls).toList = Path.firstSpellings (standing calls)) ∧
    (∀ calls calls' : List Call,
      (empty.after calls).sameAs (empty.after calls') = true ↔
        ∀ k, k ∈ (standing calls).map Path.steps ↔ k ∈ (standing calls').map Path.steps) ∧
    ∀ ps qs : List Path, (ofList ps).sameAs (ofList qs) = true ↔
      ∀ k, k ∈ ps.map Path.steps ↔ k ∈ qs.map Path.steps := by
  refine ⟨fun calls as l => @runs_iff empty calls as l,
    fun calls => ⟨(empty.after calls).distinct, ?_⟩, fun calls calls' => ?_,
    fun ps qs => sameAs_ofList_iff⟩
  · rw [after_empty, toList_ofList_eq]
  · rw [after_empty, after_empty, sameAs_ofList_iff]

/-- Repeated separators, inner and trailing `.` name the same place, a leading `.` names another. -/
example :
    empty.answers [.insert ⟨"a//b"⟩, .insert ⟨"./a/b"⟩, .insert ⟨"a/./b"⟩, .contains ⟨"a/b/"⟩,
        .list, .remove ⟨"a/b/."⟩, .remove ⟨"a/b"⟩, .extend [⟨"./a//b"⟩, ⟨"a/b"⟩], .list] =
      [.said true, .said true, .said false, .said true, .members [⟨"a//b"⟩, ⟨"./a/b"⟩], .said true,
        .said false, .done, .members [⟨"./a/b"⟩, ⟨"a/b"⟩]] := by
  decide +kernel

end PathSet

end ViewHolder
