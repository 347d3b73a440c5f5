import Mathlib.Data.List.DropRight
import ViewHolder.Proofs.PathSet
import ViewHolder.Watch.Pending

/-!
# Batches of pending changes

Changes arrive, it is asked whether the burst is over, and the changes are taken, in any order.
The pending changes are always the arrivals since they were last taken: each place once, in its
first spelling, together with the time of the last arrival of all, also when that one names a
place that is pending already.  So no change is lost and none is delivered twice.

## Main definitions

* `Pending.Call`, `Pending.Answer`, `Pending.answers` : the uses of the pending changes and what
  they give back.
* `Pending.arrivals` : the arrivals since the changes were last taken.

## Main results

* `Pending.after_eq` : the pending changes are determined by the arrivals.
* `Pending.answers_debounced` : what each call of any sequence of calls gives back.
-/

namespace ViewHolder

namespace Pending

/-! ### Calls and their answers -/

/-- A use of the pending changes. -/
inductive Call where
  /-- A change arrives. -/
  | add (now : Nat) (path : Path)
  /-- It is asked whether the burst is over. -/
  | ask (now : Nat)
  /-- All changes are taken. -/
  | take

/-- What a call gives back. -/
inductive Answer where
  /-- Nothing: a change arrived. -/
  | noted
  /-- Whether the burst is over. -/
  | settled (isOver : Bool)
  /-- The changes that were taken. -/
  | batch (paths : List Path)
  deriving DecidableEq

/-- Carry out a call. -/
def call (p : Pending) : Call → Answer × Pending
  | .add now path => (.noted, p.add now path)
  | .ask now => (.settled (p.isSettled now), p)
  | .take => (.batch p.take.1, p.take.2)

/-- What is pending after some calls. -/
def after (p : Pending) (calls : List Call) : Pending := calls.foldl (fun q c => (q.call c).2) p

/-- What the calls of a sequence give back, one after the other. -/
def answers (p : Pending) : List Call → List Answer
  | [] => []
  | c :: cs => (p.call c).1 :: answers (p.call c).2 cs

/-- What a call gives back depends on the calls before it only. -/
theorem getElem?_answers (p : Pending) (before : List Call) (c : Call) (later : List Call) :
    (p.answers (before ++ c :: later))[before.length]? = some ((p.after before).call c).1 := by
  induction before generalizing p with
  | nil => rfl
  | cons d before ih => exact ih (p.call d).2

/-! ### Arrivals -/

/-- Whether a call takes all changes. -/
def Call.isTake : Call → Bool
  | .take => true
  | _ => false

/-- The arrival that a call reports: its time and the changed path. -/
def Call.arrival? : Call → Option (Nat × Path)
  | .add now path => some (now, path)
  | _ => .none

/-- The arrivals since the changes were last taken, in order. -/
def arrivals (calls : List Call) : List (Nat × Path) :=
  (calls.rtakeWhile (!·.isTake)).filterMap Call.arrival?

theorem arrivals_add (calls : List Call) (now : Nat) (path : Path) :
    arrivals (calls ++ [.add now path]) = arrivals calls ++ [(now, path)] := by
  rw [arrivals, List.rtakeWhile_concat_pos _ _ _ rfl, List.filterMap_append]
  rfl

theorem arrivals_ask (calls : List Call) (now : Nat) :
    arrivals (calls ++ [.ask now]) = arrivals calls := by
  rw [arrivals, List.rtakeWhile_concat_pos _ _ _ rfl, List.filterMap_append]
  exact List.append_nil _

theorem arrivals_take (calls : List Call) : arrivals (calls ++ [.take]) = [] := by
  rw [arrivals, List.rtakeWhile_concat_neg _ _ _ (by decide)]
  rfl

/-- Calls that take nothing add their arrivals to the earlier ones. -/
theorem arrivals_append {between : List Call} (h : .take ∉ between) (before : List Call) :
    arrivals (before ++ between) = arrivals before ++ between.filterMap Call.arrival? := by
  have hkept : ∀ c ∈ between.reverse, (!c.isTake) = true := by
    intro c hc
    cases c with
    | add _ _ | ask _ => rfl
    | take => exact absurd (List.mem_reverse.1 hc) h
  rw [arrivals, List.rtakeWhile, List.reverse_append, List.takeWhile_append_of_pos hkept,
    List.reverse_append, List.reverse_reverse, List.filterMap_append]
  rfl

/-- Once the changes are taken, what came before plays no part. -/
theorem arrivals_take_append (before between : List Call) :
    arrivals (before ++ .take :: between) = arrivals between := by
  induction between using List.reverseRecOn with
  | nil => exact arrivals_take before
  | append_singleton between c ih =>
    rw [← List.cons_append, ← List.append_assoc]
    cases c with
    | add now path => rw [arrivals_add, arrivals_add, ih]
    | ask now => rw [arrivals_ask, arrivals_ask, ih]
    | take => rw [arrivals_take, arrivals_take]

theorem add_mem_of_mem_arrivals {calls : List Call} {now : Nat} {path : Path}
    (h : (now, path) ∈ arrivals calls) : .add now path ∈ calls := by
  obtain ⟨c, hc, harrival⟩ := List.mem_filterMap.1 h
  have hmem : c ∈ calls := (List.rtakeWhile_suffix _ _).subset hc
  cases c with
  | add now' path' => cases harrival; exact hmem
  | ask _ | take => cases harrival

/-! ### What is pending -/

/-- The pending changes with which some arrivals are kept. -/
def ofArrivals (as : List (Nat × Path)) : Pending :=
  ⟨.ofList (as.map Prod.snd), as.getLast?.map Prod.fst⟩

theorem add_ofArrivals (as : List (Nat × Path)) (now : Nat) (path : Path) :
    (ofArrivals as).add now path = ofArrivals (as ++ [(now, path)]) := by
  simp [ofArrivals, add, PathSet.ofList_concat]

/-- **The pending changes are the arrivals since they were last taken**: their set, and the time
of the last one. -/
theorem after_eq (calls : List Call) : none.after calls = ofArrivals (arrivals calls) := by
  induction calls using List.reverseRecOn with
  | nil => rfl
  | append_singleton calls c ih =>
    have hstep : none.after (calls ++ [c]) = ((none.after calls).call c).2 := by
      simp [after]
    rw [hstep, ih]
    cases c with
    | add now path => rw [arrivals_add, ← add_ofArrivals]; rfl
    | ask now => rw [arrivals_ask]; rfl
    | take => rw [arrivals_take]; rfl

theorem take_ofArrivals (as : List (Nat × Path)) :
    (ofArrivals as).take.1 = Path.firstSpellings (as.map Prod.snd) := PathSet.toList_ofList_eq _

theorem isPending_ofArrivals (as : List (Nat × Path)) :
    (ofArrivals as).isPending = !as.isEmpty := by
  cases as with
  | nil => rfl
  | cons a as =>
    simp [isPending, ofArrivals, PathSet.isEmpty, PathSet.toList_ofList_eq, Path.firstSpellings]

theorem isSettled_ofArrivals (as : List (Nat × Path)) (now : Nat) :
    (ofArrivals as).isSettled now = true ↔ ∃ last ∈ as.getLast?, last.1 + settleTime ≤ now := by
  rcases List.eq_nil_or_concat' as with rfl | ⟨earlier, last, rfl⟩
  · simp [isSettled, ofArrivals]
  · have hlast : (ofArrivals (earlier ++ [last])).last = some last.1 := by simp [ofArrivals]
    rw [isSettled, hlast, isPending_ofArrivals]
    simp

/-! ### The batches -/

/-- What is taken after some calls. -/
def batchAfter (calls : List Call) : List Path :=
  Path.firstSpellings ((arrivals calls).map Prod.snd)

theorem count_batchAfter (calls : List Call) (k : List Step) :
    ((batchAfter calls).map Path.steps).count k =
      if k ∈ (arrivals calls).map (·.2.steps) then 1 else 0 := by
  rw [batchAfter, PathSet.count_firstSpellings, List.map_map]
  rfl

theorem answers_take (before later : List Call) :
    (none.answers (before ++ .take :: later))[before.length]? =
      some (.batch (batchAfter before)) := by
  rw [getElem?_answers, after_eq, call, take_ofArrivals, batchAfter]

theorem answers_ask (before : List Call) (now : Nat) (later : List Call) :
    (none.answers (before ++ .ask now :: later))[before.length]? =
      some (.settled ((ofArrivals (arrivals before)).isSettled now)) := by
  rw [getElem?_answers, after_eq, call]

/-- A change is in the batch that is taken next, once. -/
theorem count_batchAfter_add (before : List Call) (now : Nat) (path : Path) {between : List Call}
    (h : .take ∉ between) :
    ((batchAfter (before ++ .add now path :: between)).map Path.steps).count path.steps = 1 := by
  have hmem : (now, path) ∈ arrivals (before ++ .add now path :: between) := by
    rw [arrivals_append (by simpa using h)]
    exact List.mem_append_right _ (List.mem_cons_self ..)
  rw [count_batchAfter, if_pos (List.mem_map_of_mem hmem)]

/-- A place that no change has named since the changes were taken once is in no later batch. -/
theorem count_batchAfter_take (before : List Call) {between : List Call} {k : List Step}
    (h : ∀ now path, .add now path ∈ between → path.steps ≠ k) :
    ((batchAfter (before ++ .take :: between)).map Path.steps).count k = 0 := by
  rw [count_batchAfter, arrivals_take_append, if_neg]
  intro hk
  obtain ⟨⟨now, path⟩, hmem, rfl⟩ := List.mem_map.1 hk
  exact h now path (add_mem_of_mem_arrivals hmem) rfl

/-- **Every change is delivered once, in the batch that is taken next.**  In every sequence of
calls, at whatever times: the changes that are taken are those that arrived since they were last
taken, each place once, in its first spelling and in the order of first arrival; the burst is
over exactly if a change is pending and none has arrived for `settleTime`; a change that arrives
is in the batch that is taken next, and once there; and it is in no batch after that one, unless
a change of the same place arrives again. -/
theorem answers_debounced :
    (∀ before later : List Call,
      (none.answers (before ++ .take :: later))[before.length]? =
        some (.batch (Path.firstSpellings ((arrivals before).map Prod.snd)))) ∧
    (∀ (before : List Call) (now : Nat) (later : List Call),
      ∃ isOver, (none.answers (before ++ .ask now :: later))[before.length]? =
          some (.settled isOver) ∧
        (isOver = true ↔ ∃ last ∈ (arrivals before).getLast?, last.1 + settleTime ≤ now)) ∧
    (∀ (before : List Call) (now : Nat) (path : Path) (between later : List Call),
      .take ∉ between →
      ∃ batch, (none.answers ((before ++ .add now path :: between) ++ .take :: later))[
          (before ++ .add now path :: between).length]? = some (.batch batch) ∧
        (batch.map Path.steps).count path.steps = 1) ∧
    ∀ (before between : List Call) (path : Path) (later : List Call),
      (∀ now q, .add now q ∈ between → q.steps ≠ path.steps) →
      ∃ batch, (none.answers ((before ++ .take :: between) ++ .take :: later))[
          (before ++ .take :: between).length]? = some (.batch batch) ∧
        (batch.map Path.steps).count path.steps = 0 := by
  refine ⟨answers_take, fun before now later => ?_, ?_, ?_⟩
  · exact ⟨_, answers_ask before now later, isSettled_ofArrivals _ now⟩
  · intro before now path between later hbetween
    exact ⟨_, answers_take _ later, count_batchAfter_add before now path hbetween⟩
  · intro before between path later hagain
    exact ⟨_, answers_take _ later, count_batchAfter_take before hagain⟩

/-- A change of one place, a change of another, and the first place again in another spelling:
the batch that is taken next has the place once, and the batch after that one has not. -/
theorem answers_debounced_respelled :
    let main : Path := ⟨"res/layout/main.xml"⟩
    let between : List Call :=
      [.add 30 ⟨"res/layout/row.xml"⟩, .add 90 ⟨"res/./layout//main.xml"⟩, .ask 190]
    let taken := [.add 0 main] ++ between
    .take ∉ between ∧
    (∃ batch, (none.answers (taken ++ .take :: [.ask 400, .take]))[4]? = some (.batch batch) ∧
      (batch.map Path.steps).count main.steps = 1) ∧
    (∀ now q, .add now q ∈ [Call.ask 400] → q.steps ≠ main.steps) ∧
    ∃ batch, (none.answers ((taken ++ .take :: [.ask 400]) ++ .take :: []))[6]? =
        some (.batch batch) ∧
      (batch.map Path.steps).count main.steps = 0 := by
  intro main between taken
  have hnext : .take ∉ between := by simp [between]
  have hlater : ∀ now q, .add now q ∈ [Call.ask 400] → q.steps ≠ main.steps := by simp
  exact ⟨hnext, answers_debounced.2.2.1 [] 0 main between [.ask 400, .take] hnext, hlater,
    answers_debounced.2.2.2 taken [.ask 400] main [] hlater⟩

/-- A repeated change starts the quiet period anew and keeps its place in the batch. -/
example :
    none.answers [.add 0 ⟨"a/main.xml"⟩, .add 30 ⟨"a/row.xml"⟩, .add 90 ⟨"a//main.xml"⟩,
        .ask 189, .ask 190, .take, .ask 400] =
      [.noted, .noted, .noted, .settled false, .settled true,
        .batch [⟨"a/main.xml"⟩, ⟨"a/row.xml"⟩], .settled false] := by
  decide +kernel

end Pending

end ViewHolder
