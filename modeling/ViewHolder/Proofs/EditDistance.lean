import Mathlib.Data.List.Induction
import Mathlib.Order.Bounds.Basic
import Mathlib.Order.MinMax
import ViewHolder.Proofs.TextBytes
import ViewHolder.Settings.Warning

/-!
# Edit distances

The distance of two lists is the least number of edits that make the second list out of the first
one, where an edit inserts, deletes or exchanges one element.  Row by row the distances between the
beginnings of the lists are worked out, and two buffers are enough to hold the rows.  Of some
candidates the first one at the least distance is the nearest.

## Main definitions

* `Text.IsEdit`, `Text.BecomesIn` : one edit of a list, and some edits one after the other.
* `Text.fewestEdits` : the least number of edits, worked out from the heads of the lists.
* `Text.rowOf` : the distances from one list to the beginnings of another one.
* `Text.bufferedDistance?` : the distance, worked out in two buffers whose accesses are checked.

## Main results

* `Text.isLeast_fewestEdits` : `fewestEdits` is the least number of edits.
* `Text.distance_eq` : the distance is the least number of edits.
* `Text.bufferedDistance?_eq` : two buffers are enough, and no access leaves them.
* `editDistance_nearest` : the distance of texts, and the setting that is nearest to a name.
-/

namespace ViewHolder

namespace Text

/-! ### Edits -/

section Edits

variable {α : Type}

/-- One list becomes another one by a single edit. -/
inductive IsEdit : List α → List α → Prop
  /-- An element is inserted. -/
  | insert (front back : List α) (x : α) : IsEdit (front ++ back) (front ++ x :: back)
  /-- An element is deleted. -/
  | delete (front back : List α) (x : α) : IsEdit (front ++ x :: back) (front ++ back)
  /-- An element is exchanged for another one. -/
  | exchange (front back : List α) (x y : α) : IsEdit (front ++ x :: back) (front ++ y :: back)

/-- One list becomes another one by a number of edits. -/
inductive BecomesIn : Nat → List α → List α → Prop
  /-- Without an edit a list stays what it is. -/
  | refl (xs : List α) : BecomesIn 0 xs xs
  /-- One more edit comes first. -/
  | step {n : Nat} {xs ys zs : List α} (hedit : IsEdit xs ys) (hrest : BecomesIn n ys zs) :
    BecomesIn (n + 1) xs zs

variable {xs ys zs : List α} {n m : Nat}

theorem IsEdit.symm (h : IsEdit xs ys) : IsEdit ys xs := by
  cases h with
  | insert front back x => exact .delete front back x
  | delete front back x => exact .insert front back x
  | exchange front back x y => exact .exchange front back y x

theorem IsEdit.cons (h : IsEdit xs ys) (z : α) : IsEdit (z :: xs) (z :: ys) := by
  cases h with
  | insert front back x => exact .insert (z :: front) back x
  | delete front back x => exact .delete (z :: front) back x
  | exchange front back x y => exact .exchange (z :: front) back x y

theorem IsEdit.reverse (h : IsEdit xs ys) : IsEdit xs.reverse ys.reverse := by
  cases h with
  | insert front back x => simpa using IsEdit.insert back.reverse front.reverse x
  | delete front back x => simpa using IsEdit.delete back.reverse front.reverse x
  | exchange front back x y => simpa using IsEdit.exchange back.reverse front.reverse x y

theorem BecomesIn.trans (h : BecomesIn n xs ys) (h' : BecomesIn m ys zs) :
    BecomesIn (n + m) xs zs := by
  induction h with
  | refl xs => rwa [Nat.zero_add]
  | step hedit _ ih =>
    rw [Nat.add_right_comm]
    exact .step hedit (ih h')

theorem BecomesIn.symm (h : BecomesIn n xs ys) : BecomesIn n ys xs := by
  induction h with
  | refl xs => exact .refl xs
  | step hedit _ ih => exact ih.trans (.step hedit.symm (.refl _))

theorem BecomesIn.cons (h : BecomesIn n xs ys) (z : α) : BecomesIn n (z :: xs) (z :: ys) := by
  induction h with
  | refl xs => exact .refl (z :: xs)
  | step hedit _ ih => exact .step (hedit.cons z) ih

theorem BecomesIn.reverse (h : BecomesIn n xs ys) : BecomesIn n xs.reverse ys.reverse := by
  induction h with
  | refl xs => exact .refl xs.reverse
  | step hedit _ ih => exact .step hedit.reverse ih

theorem becomesIn_reverse_iff : BecomesIn n xs.reverse ys.reverse ↔ BecomesIn n xs ys :=
  ⟨fun h => by simpa using h.reverse, BecomesIn.reverse⟩

/-- Only equal lists become one another without an edit. -/
theorem becomesIn_zero : BecomesIn 0 xs ys ↔ xs = ys := by
  constructor
  · intro h
    cases h
    rfl
  · rintro rfl
    exact .refl xs

theorem becomesIn_of_nil (ys : List α) : BecomesIn ys.length [] ys := by
  induction ys with
  | nil => exact .refl []
  | cons y ys ih => exact .step (.insert [] [] y) (ih.cons y)

end Edits

/-! ### The least number of edits -/

section Fewest

variable {α : Type} [DecidableEq α]

/-- The least number of edits that make one list out of another one: the first element is deleted
or the first element of the other list inserted, or the two first elements go together. -/
def fewestEdits : List α → List α → Nat
  | [], ys => ys.length
  | x :: xs, [] => (x :: xs).length
  | x :: xs, y :: ys =>
    min (min (fewestEdits xs (y :: ys) + 1) (fewestEdits (x :: xs) ys + 1))
      (fewestEdits xs ys + if x = y then 0 else 1)
termination_by xs ys => xs.length + ys.length

variable {x y : α} {xs ys zs : List α} {n : Nat}

theorem fewestEdits_nil_left : fewestEdits [] ys = ys.length := by rw [fewestEdits]

theorem fewestEdits_nil_right : fewestEdits xs [] = xs.length := by
  cases xs <;> rw [fewestEdits]

theorem fewestEdits_cons_cons : fewestEdits (x :: xs) (y :: ys) =
    min (min (fewestEdits xs (y :: ys) + 1) (fewestEdits (x :: xs) ys + 1))
      (fewestEdits xs ys + if x = y then 0 else 1) := by
  rw [fewestEdits]

/-- That many edits are enough. -/
theorem becomesIn_fewestEdits (xs ys : List α) : BecomesIn (fewestEdits xs ys) xs ys := by
  fun_induction fewestEdits xs ys with
  | case1 ys => exact becomesIn_of_nil ys
  | case2 x xs => exact (becomesIn_of_nil (x :: xs)).symm
  | case3 x xs y ys hdelete hinsert hexchange =>
    rcases min_choice (min (fewestEdits xs (y :: ys) + 1) (fewestEdits (x :: xs) ys + 1))
      (fewestEdits xs ys + if x = y then 0 else 1) with h | h <;> rw [h]
    · rcases min_choice (fewestEdits xs (y :: ys) + 1) (fewestEdits (x :: xs) ys + 1) with
        h | h <;> rw [h]
      · exact .step (.delete [] xs x) hdelete
      · exact .step (.insert [] (x :: xs) y) (hinsert.cons y)
    · by_cases hxy : x = y
      · rw [if_pos hxy, hxy]
        exact hexchange.cons y
      · rw [if_neg hxy]
        exact .step (.exchange [] xs x y) (hexchange.cons y)

theorem fewestEdits_self (xs : List α) : fewestEdits xs xs = 0 := by
  induction xs with
  | nil => exact fewestEdits_nil_left
  | cons x xs ih =>
    rw [fewestEdits_cons_cons, if_pos rfl, ih]
    omega

theorem fewestEdits_cons_right_le (xs : List α) (y : α) (ys : List α) :
    fewestEdits xs (y :: ys) ≤ fewestEdits xs ys + 1 := by
  cases xs with
  | nil => simp [fewestEdits_nil_left]
  | cons x xs =>
    rw [fewestEdits_cons_cons]
    omega

theorem fewestEdits_cons_left_le (x : α) (xs ys : List α) :
    fewestEdits (x :: xs) ys ≤ fewestEdits xs ys + 1 := by
  cases ys with
  | nil => simp [fewestEdits_nil_right]
  | cons y ys =>
    rw [fewestEdits_cons_cons]
    omega

theorem fewestEdits_le_cons_left (x : α) (xs ys : List α) :
    fewestEdits xs ys ≤ fewestEdits (x :: xs) ys + 1 := by
  induction ys with
  | nil =>
    rw [fewestEdits_nil_right, fewestEdits_nil_right, List.length_cons]
    omega
  | cons y ys ih =>
    have hmore := fewestEdits_cons_right_le xs y ys
    rw [fewestEdits_cons_cons]
    omega

theorem fewestEdits_exchange_le (x y : α) (xs zs : List α) :
    fewestEdits (x :: xs) zs ≤ fewestEdits (y :: xs) zs + 1 := by
  induction zs with
  | nil => simp [fewestEdits_nil_right]
  | cons z zs ih =>
    rw [fewestEdits_cons_cons, fewestEdits_cons_cons]
    split_ifs <;> omega

/-- What holds of two lists whose numbers of edits differ by one holds behind a common element. -/
theorem fewestEdits_cons_le_cons (h : ∀ zs, fewestEdits xs zs ≤ fewestEdits ys zs + 1) (x : α)
    (zs : List α) : fewestEdits (x :: xs) zs ≤ fewestEdits (x :: ys) zs + 1 := by
  induction zs with
  | nil => simpa [fewestEdits_nil_right] using h []
  | cons z zs ih =>
    have hdelete := h (z :: zs)
    have hexchange := h zs
    rw [fewestEdits_cons_cons, fewestEdits_cons_cons]
    split_ifs <;> omega

/-- An edit changes the least number of edits by one at most. -/
theorem fewestEdits_le_of_isEdit (h : IsEdit xs ys) (zs : List α) :
    fewestEdits xs zs ≤ fewestEdits ys zs + 1 := by
  cases h with
  | insert front back x =>
    induction front generalizing zs with
    | nil => exact fewestEdits_le_cons_left x back zs
    | cons c front ih => exact fewestEdits_cons_le_cons ih c zs
  | delete front back x =>
    induction front generalizing zs with
    | nil => exact fewestEdits_cons_left_le x back zs
    | cons c front ih => exact fewestEdits_cons_le_cons ih c zs
  | exchange front back x y =>
    induction front generalizing zs with
    | nil => exact fewestEdits_exchange_le x y back zs
    | cons c front ih => exact fewestEdits_cons_le_cons ih c zs

/-- Fewer edits are not enough. -/
theorem fewestEdits_le (h : BecomesIn n xs ys) : fewestEdits xs ys ≤ n := by
  induction h with
  | refl xs => rw [fewestEdits_self]
  | step hedit _ ih => exact (fewestEdits_le_of_isEdit hedit _).trans (Nat.succ_le_succ ih)

/-- **The least number of edits** is what its name says. -/
theorem isLeast_fewestEdits (xs ys : List α) :
    IsLeast {n | BecomesIn n xs ys} (fewestEdits xs ys) :=
  ⟨becomesIn_fewestEdits xs ys, fun _ => fewestEdits_le⟩

end Fewest

/-! ### Rows -/

section Rows

variable {α : Type} [DecidableEq α]

/-- The distances from one list to the beginnings of another one that are at least as long as a
first part.  The list and this part are given in reverse, and the rest of the other list is not. -/
def rowOf (done front : List α) : List α → List Nat
  | [] => [fewestEdits done front]
  | y :: ys => fewestEdits done front :: rowOf done (y :: front) ys

theorem rowOf_eq_cons (done front ys : List α) :
    rowOf done front ys = fewestEdits done front :: (rowOf done front ys).tail := by
  cases ys <;> rfl

theorem length_rowOf (done front ys : List α) : (rowOf done front ys).length = ys.length + 1 := by
  induction ys generalizing front with
  | nil => rfl
  | cons y ys ih => rw [rowOf, List.length_cons, List.length_cons, ih]

theorem getLast?_rowOf (done front ys : List α) :
    (rowOf done front ys).getLast? = some (fewestEdits done (ys.reverse ++ front)) := by
  induction ys generalizing front with
  | nil => rfl
  | cons y ys ih =>
    rw [rowOf, rowOf_eq_cons, List.getLast?_cons_cons, ← rowOf_eq_cons, ih, List.reverse_cons,
      List.append_assoc, List.singleton_append]

/-- The row of the empty list counts up. -/
theorem rowOf_nil (front ys : List α) :
    rowOf [] front ys = List.range' front.length (ys.length + 1) := by
  induction ys generalizing front with
  | nil => rw [rowOf, fewestEdits_nil_left]; rfl
  | cons y ys ih => rw [rowOf, ih, fewestEdits_nil_left, List.length_cons, ← List.range'_succ]; rfl

theorem range_eq_rowOf (ys : List α) : List.range (ys.length + 1) = rowOf [] [] ys := by
  rw [rowOf_nil, List.range_eq_range']
  rfl

/-- The entry of a row, from the entry before and the two above. -/
theorem entry_eq (x y : α) (done front : List α) :
    min (min (fewestEdits done (y :: front) + 1) (fewestEdits (x :: done) front + 1))
      (fewestEdits done front + if x = y then 0 else 1) =
    fewestEdits (x :: done) (y :: front) := fewestEdits_cons_cons.symm

/-- Filling a row from the row above. -/
theorem rowFrom_eq (x : α) (done front ys : List α) :
    rowFrom x (fewestEdits (x :: done) front) ys (rowOf done front ys) =
      (rowOf (x :: done) front ys).tail := by
  induction ys generalizing front with
  | nil => rfl
  | cons y ys ih =>
    rw [rowOf, rowOf_eq_cons, rowFrom, entry_eq, ← rowOf_eq_cons, ih, ← rowOf_eq_cons]
    rfl

theorem nextRow_eq (ys done : List α) (x : α) :
    nextRow ys (rowOf done [] ys) x = rowOf (x :: done) [] ys := by
  have hfirst : (rowOf done [] ys).headD 0 + 1 = fewestEdits (x :: done) [] := by
    rw [rowOf_eq_cons, List.headD_cons, fewestEdits_nil_right, fewestEdits_nil_right]
    rfl
  rw [nextRow, hfirst, rowFrom_eq, ← rowOf_eq_cons]

/-- Row after row is the row of a longer beginning. -/
theorem foldl_nextRow (ys done xs : List α) :
    xs.foldl (nextRow ys) (rowOf done [] ys) = rowOf (xs.reverse ++ done) [] ys := by
  induction xs generalizing done with
  | nil => rfl
  | cons x xs ih =>
    rw [List.foldl_cons, nextRow_eq, ih, List.reverse_cons, List.append_assoc,
      List.singleton_append]

/-- The distance is the least number of edits, from the ends of the lists. -/
theorem distance_eq (xs ys : List α) : distance xs ys = fewestEdits xs.reverse ys.reverse := by
  rw [distance, range_eq_rowOf, foldl_nextRow, List.append_nil, List.getLastD_eq_getLast?,
    getLast?_rowOf, List.append_nil, Option.getD_some]

/-- **The distance of lists** is the least number of edits that make one of them out of the
other. -/
theorem isLeast_distance (xs ys : List α) :
    IsLeast {n | BecomesIn n xs ys} (distance xs ys) := by
  have hleast := isLeast_fewestEdits xs.reverse ys.reverse
  simp only [becomesIn_reverse_iff] at hleast
  rwa [distance_eq]

theorem distance_comm (xs ys : List α) : distance xs ys = distance ys xs :=
  le_antisymm ((isLeast_distance xs ys).2 (isLeast_distance ys xs).1.symm)
    ((isLeast_distance ys xs).2 (isLeast_distance xs ys).1.symm)

theorem distance_eq_zero {xs ys : List α} : distance xs ys = 0 ↔ xs = ys := by
  rw [← becomesIn_zero]
  refine ⟨fun h => h ▸ (isLeast_distance xs ys).1, fun h => ?_⟩
  exact Nat.le_zero.1 ((isLeast_distance xs ys).2 h)

theorem distance_triangle (xs ys zs : List α) :
    distance xs zs ≤ distance xs ys + distance ys zs :=
  (isLeast_distance xs zs).2 ((isLeast_distance xs ys).1.trans (isLeast_distance ys zs).1)

end Rows

/-! ### Two buffers -/

section Buffers

variable {α : Type} [DecidableEq α]

/-- A buffer with a new value at a place that it has. -/
def store? (buffer : List Nat) (i v : Nat) : Option (List Nat) :=
  if i < buffer.length then some (buffer.set i v) else none

/-- Fill a buffer behind its entry `j` from the row above; there is no result if an access leaves
one of the two. -/
def fillRow? (x : α) (above : List Nat) : Nat → List α → List Nat → Option (List Nat)
  | _, [], row => some row
  | j, y :: ys, row => do
    let up ← above[j + 1]?
    let left ← row[j]?
    let corner ← above[j]?
    let row ← store? row (j + 1) (min (min (up + 1) (left + 1)) (corner + if x = y then 0 else 1))
    fillRow? x above (j + 1) ys row

/-- Fill the second one of two buffers row by row, and copy each row into the first one, which has
to be of the same length. -/
def fillRows? (ys : List α) : Nat → List α → List Nat × List Nat → Option (List Nat)
  | _, [], (above, _) => some above
  | i, x :: xs, (above, row) => do
    let row ← store? row 0 (i + 1)
    let row ← fillRow? x above 0 ys row
    if above.length = row.length then fillRows? ys (i + 1) xs (row, row) else none

/-- The distance of two lists, worked out in two buffers. -/
def bufferedDistance? (xs ys : List α) : Option Nat :=
  if xs = ys then some 0
  else do
    let last ← fillRows? ys 0 xs (List.range (ys.length + 1), List.replicate (ys.length + 1) 0)
    last[ys.length]?

/-- Filling a row, when it is filled in front already. -/
theorem fillRow?_eq (x : α) (done front ys : List α) {above row rest : List Nat} {j : Nat}
    (habove : above.length = j) (hrow : row.length = j) (hrest : rest.length = ys.length) :
    fillRow? x (above ++ rowOf done front ys) j ys (row ++ fewestEdits (x :: done) front :: rest) =
      some (row ++ rowOf (x :: done) front ys) := by
  induction ys generalizing front above row rest j with
  | nil =>
    rw [List.length_nil, List.length_eq_zero_iff] at hrest
    rw [fillRow?, hrest, rowOf]
  | cons y ys ih =>
    obtain ⟨r, rest, rfl⟩ := List.exists_cons_of_length_eq_add_one hrest
    have hat (l m : List Nat) (hl : l.length = j) :
        (l ++ m)[j]? = m[0]? ∧ (l ++ m)[j + 1]? = m[1]? := by
      subst hl
      rw [List.getElem?_append_right le_rfl, List.getElem?_append_right (Nat.le_succ _),
        Nat.sub_self, Nat.succ_sub le_rfl, Nat.sub_self]
      exact ⟨rfl, rfl⟩
    have hstore (v : Nat) : store? (row ++ fewestEdits (x :: done) front :: r :: rest) (j + 1) v =
        some ((row ++ [fewestEdits (x :: done) front]) ++ v :: rest) := by
      rw [store?, if_pos (by simp [hrow]), List.set_append_right _ _ (by omega), hrow,
        Nat.add_sub_cancel_left]
      simp
    have hup : (rowOf done front (y :: ys))[1]? = some (fewestEdits done (y :: front)) := by
      rw [rowOf, rowOf_eq_cons]
      rfl
    have hrows : above ++ rowOf done front (y :: ys) =
        (above ++ [fewestEdits done front]) ++ rowOf done (y :: front) ys := by
      rw [rowOf, List.append_cons]
    have hcorner : (rowOf done front (y :: ys))[0]? = some (fewestEdits done front) := rfl
    rw [fillRow?, (hat _ _ habove).2, hup, (hat _ _ hrow).1, (hat _ _ habove).1, hcorner]
    simp only [List.getElem?_cons_zero, Option.bind_eq_bind, Option.bind_some, hstore, entry_eq]
    rw [hrows, ih (y :: front) (by simp [habove]) (by simp [hrow]) (by simpa using hrest), rowOf,
      ← List.append_cons]

/-- Filling the rows one after the other, when some are done already. -/
theorem fillRows?_eq (ys done xs : List α) {row : List Nat} (hrow : row.length = ys.length + 1) :
    fillRows? ys done.length xs (rowOf done [] ys, row) =
      some (rowOf (xs.reverse ++ done) [] ys) := by
  induction xs generalizing done row with
  | nil => rfl
  | cons x xs ih =>
    obtain ⟨r, rest, rfl⟩ := List.exists_cons_of_length_eq_add_one hrow
    have hstore : store? (r :: rest) 0 (done.length + 1) =
        some (fewestEdits (x :: done) [] :: rest) := by
      rw [store?, if_pos (by simp), fewestEdits_nil_right]
      rfl
    have hnone : ([] : List Nat).length = 0 := rfl
    have hfill : fillRow? x (rowOf done [] ys) 0 ys (fewestEdits (x :: done) [] :: rest) =
        some (rowOf (x :: done) [] ys) :=
      fillRow?_eq x done [] ys hnone hnone (by simpa using hrow)
    have hlength (done : List α) : (rowOf done [] ys).length = ys.length + 1 :=
      length_rowOf done [] ys
    rw [fillRows?, hstore]
    simp only [Option.bind_eq_bind, Option.bind_some, hfill]
    rw [if_pos ((hlength done).trans (hlength (x :: done)).symm)]
    exact (ih (x :: done) (hlength _)).trans (by simp)

/-- **Two buffers are enough** to work out the distance, and no access leaves them. -/
theorem bufferedDistance?_eq (xs ys : List α) :
    bufferedDistance? xs ys = some (distance xs ys) := by
  rw [bufferedDistance?]
  split
  · rename_i h
    rw [distance_eq_zero.2 h]
  · have hlast := getLast?_rowOf (xs.reverse ++ []) [] ys
    rw [List.getLast?_eq_getElem?, length_rowOf, Nat.add_sub_cancel] at hlast
    rw [range_eq_rowOf]
    refine (congrArg (· >>= _) (fillRows?_eq ys [] xs (List.length_replicate ..))).trans ?_
    rw [Option.bind_eq_bind, Option.bind_some, hlast, distance_eq, List.append_nil, List.append_nil]

end Buffers

end Text

/-! ### Nearest candidates -/

/-- A candidate is nearest if none is nearer and it is the first one at its distance. -/
structure IsNearest (distance : String → Nat) (candidates : List String) (c : String) : Prop where
  /-- No candidate is nearer. -/
  le : ∀ k ∈ candidates, distance c ≤ distance k
  /-- No candidate before it is as near. -/
  first : candidates.find? (fun k => distance k = distance c) = some c

section

variable {distance : String → Nat} {candidates : List String} {c : String}

theorem isNearest_iff : IsNearest distance candidates c ↔
    ∃ d, distance c = d ∧ IsLeast {e | ∃ k ∈ candidates, distance k = e} d ∧
      candidates.find? (fun k => distance k = d) = some c := by
  constructor
  · rintro ⟨hle, hfirst⟩
    refine ⟨_, rfl, ⟨⟨c, List.mem_of_find?_eq_some hfirst, rfl⟩, ?_⟩, hfirst⟩
    rintro d ⟨k, hk, rfl⟩
    exact hle k hk
  · rintro ⟨d, rfl, hleast, hfirst⟩
    exact ⟨fun k hk => hleast.2 ⟨k, hk, rfl⟩, hfirst⟩

theorem IsNearest.eq {c' : String} (h : IsNearest distance candidates c)
    (h' : IsNearest distance candidates c') : c = c' := by
  have hsame : distance c = distance c' :=
    le_antisymm (h.le c' (List.mem_of_find?_eq_some h'.first))
      (h'.le c (List.mem_of_find?_eq_some h.first))
  exact Option.some.inj (h.first.symm.trans (hsame ▸ h'.first))

/-- One more candidate is nearest only if it is nearer than the others. -/
theorem IsNearest.concat (h : IsNearest distance candidates c) (k : String) :
    IsNearest distance (candidates ++ [k]) (if distance k < distance c then k else c) := by
  split
  · rename_i hk
    have hnone : candidates.find? (fun m => distance m = distance k) = none :=
      List.find?_eq_none.2 fun m hm => by simpa using (hk.trans_le (h.le m hm)).ne'
    refine ⟨fun m hm => ?_, by rw [List.find?_append, hnone]; simp⟩
    rcases List.mem_append.1 hm with hm | hm
    · exact hk.le.trans (h.le m hm)
    · rw [List.mem_singleton.1 hm]
  · rename_i hk
    refine ⟨fun m hm => ?_, by rw [List.find?_append, h.first]; rfl⟩
    rcases List.mem_append.1 hm with hm | hm
    · exact h.le m hm
    · rw [List.mem_singleton.1 hm]
      exact not_lt.1 hk

/-- Looking at the candidates one after the other finds the nearest one. -/
theorem exists_foldl_nearer (distance : String → Nat) (b : String) (cs : List String) :
    ∃ c, cs.foldl (fun best c => nearer best (c, distance c)) (b, distance b) = (c, distance c) ∧
      IsNearest distance (b :: cs) c := by
  induction cs using List.reverseRecOn with
  | nil => exact ⟨b, rfl, by simp, by simp⟩
  | append_singleton cs k ih =>
    obtain ⟨c, hfold, hnearest⟩ := ih
    refine ⟨_, ?_, hnearest.concat k⟩
    rw [List.foldl_concat, hfold, nearer]
    split <;> rfl

end

theorem nearestOf_eq_some_iff {name c : String} {candidates : List String} {d : Nat} :
    nearestOf name candidates = some (c, d) ↔
      IsNearest (Text.byteDistance name) candidates c ∧ d = Text.byteDistance name c := by
  cases candidates with
  | nil => exact ⟨nofun, fun h => absurd h.1.first (by simp)⟩
  | cons b cs =>
    obtain ⟨m, hfold, hnearest⟩ := exists_foldl_nearer (Text.byteDistance name) b cs
    rw [nearestOf, hfold, Option.some.injEq, Prod.mk.injEq]
    constructor
    · rintro ⟨rfl, rfl⟩
      exact ⟨hnearest, rfl⟩
    · rintro ⟨hc, rfl⟩
      obtain rfl := hnearest.eq hc
      exact ⟨rfl, rfl⟩

/-- A setting is suggested for a name if it is the nearest one and the name may be a slip. -/
theorem nearestName?_eq_some_iff {name c : String} : nearestName? name = some c ↔
    IsNearest (Text.byteDistance name) Settings.names c ∧
      Text.byteDistance name c ≤ slipDistance := by
  rw [nearestName?]
  cases h : nearestOf name Settings.names with
  | none =>
    refine ⟨nofun, fun hc => ?_⟩
    exact absurd (h.symm.trans (nearestOf_eq_some_iff.2 ⟨hc.1, rfl⟩)) (by simp)
  | some best =>
    obtain ⟨m, d⟩ := best
    obtain ⟨hm, rfl⟩ := nearestOf_eq_some_iff.1 h
    rw [Option.ite_none_right_eq_some, Option.some.injEq]
    constructor
    · rintro ⟨hd, rfl⟩
      exact ⟨hm, hd⟩
    · rintro ⟨hc, hd⟩
      obtain rfl := hm.eq hc
      exact ⟨hd, rfl⟩

/-- **Distances and nearest settings.**  The distance of two texts is the least number of bytes that
have to be inserted, deleted or exchanged to make one of them out of the other; so it does not
depend on their order, is zero for equal texts only, and satisfies the triangle inequality.  Two
buffers are enough to work it out, and no access leaves them.  The setting that is nearest to a name
is the first one at the least distance, if this distance is two or less. -/
theorem editDistance_nearest (s t u : String) :
    Text.bufferedDistance? (Text.bytes s) (Text.bytes t) = some (Text.byteDistance s t) ∧
    IsLeast {n | Text.BecomesIn n (Text.bytes s) (Text.bytes t)} (Text.byteDistance s t) ∧
    Text.byteDistance s t = Text.byteDistance t s ∧
    (Text.byteDistance s t = 0 ↔ s = t) ∧
    Text.byteDistance s u ≤ Text.byteDistance s t + Text.byteDistance t u ∧
    ∀ c, nearestName? u = some c ↔ ∃ d ≤ 2,
      IsLeast {e | ∃ k ∈ Settings.names, Text.byteDistance u k = e} d ∧
        Settings.names.find? (fun k => Text.byteDistance u k = d) = some c := by
  refine ⟨?_, ?_, ?_, ?_, ?_, fun c => ?_⟩
  · rw [Text.byteDistance_eq, Text.bufferedDistance?_eq]
  · rw [Text.byteDistance_eq]
    exact Text.isLeast_distance _ _
  · rw [Text.byteDistance_eq, Text.byteDistance_eq, Text.distance_comm]
  · rw [Text.byteDistance_eq, Text.distance_eq_zero, Text.bytes_injective.eq_iff]
  · simp only [Text.byteDistance_eq]
    exact Text.distance_triangle _ _ _
  · rw [nearestName?_eq_some_iff, isNearest_iff]
    constructor
    · rintro ⟨⟨d, rfl, hnearest⟩, hd⟩
      exact ⟨_, hd, hnearest⟩
    · rintro ⟨d, hd, hleast, hfirst⟩
      have hc : Text.byteDistance u c = d := by simpa using List.find?_some hfirst
      exact ⟨⟨d, hc, hleast, hfirst⟩, hc.trans_le hd⟩

end ViewHolder
