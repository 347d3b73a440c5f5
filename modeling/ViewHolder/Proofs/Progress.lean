import ViewHolder.Compile.Run

/-!
# Runs of several parts

A run goes on from one part to the next unless it has failed.  The stages that write and delete
holders are loops: they take one step for each member of a list, up to the first failure, so a loop
that fails has taken all the steps before the failure and none after it.

## Main definitions

* `Progress.IsLoop` : a stage that takes one step for each member of a list.

## Main results

* `Progress.IsLoop.eq_error` : a loop that fails has come to one member, after all those before.
* `Progress.IsLoop.view_eq_foldl` : what a loop that succeeds has done, by what its steps do.
* `Progress.IsLoop.exists_ok_iff` : when a loop succeeds.
* `Progress.IsLoop.store_rel` : what the steps keep, the loop keeps, failing or not.
-/

namespace ViewHolder

theorem map_eq_error_iff {ε α β : Type} {x : Except ε α} {f : α → β} {e : ε} :
    x.map f = .error e ↔ x = .error e := by
  cases x <;> simp [Except.map]

theorem map_eq_ok_iff {ε α β : Type} {x : Except ε α} {f : α → β} {b : β} :
    x.map f = .ok b ↔ ∃ a, x = .ok a ∧ f a = b := by
  cases x <;> simp [Except.map]

namespace Progress

/-! ### Going on -/

section

variable {σ α β : Type} {p : Progress σ α} {next : σ → α → Progress σ β} {e : CompileError}

/-- What holds of the store after a first part, and of every store that the second part can leave,
holds after both. -/
theorem andThen_store {P : σ → Prop} (hp : P p.store)
    (hnext : ∀ a, p.result = .ok a → P (next p.store a).store) : P (p.andThen next).store := by
  unfold andThen
  split
  · exact hp
  · rename_i a ha
    exact hnext a ha

theorem andThen_eq_ok {b : β} (h : (p.andThen next).result = .ok b) :
    ∃ a, p.result = .ok a ∧ (next p.store a).result = .ok b ∧
      (p.andThen next).store = (next p.store a).store := by
  unfold andThen at h ⊢
  split at h
  · cases h
  · rename_i a ha
    exact ⟨a, ha, h, rfl⟩

/-- A run of two parts fails in its first part, or in its second part after the first one. -/
theorem andThen_eq_error (h : (p.andThen next).result = .error e) :
    (p.result = .error e ∧ (p.andThen next).store = p.store) ∨
      ∃ a, p.result = .ok a ∧ (next p.store a).result = .error e ∧
        (p.andThen next).store = (next p.store a).store := by
  unfold andThen at h ⊢
  split at h
  · rename_i hp
    exact Or.inl ⟨hp.trans (congrArg _ (Except.error.inj h)), rfl⟩
  · rename_i a ha
    exact Or.inr ⟨a, ha, h, rfl⟩

/-- The events of a run that fails are those of its parts that fail or come before. -/
theorem andThen_events {P : CompileEvent → Prop} (h : (p.andThen next).result = .error e)
    (hp : ∀ v ∈ p.events, P v)
    (hnext : ∀ a, p.result = .ok a → (next p.store a).result = .error e →
      ∀ v ∈ (next p.store a).events, P v) :
    ∀ v ∈ (p.andThen next).events, P v := by
  unfold andThen at h ⊢
  split at h
  · exact hp
  · rename_i a ha
    exact List.forall_mem_append.2 ⟨hp, hnext a ha h⟩

theorem andThen_of_ok {a : α} (ha : p.result = .ok a) :
    p.andThen next = ⟨(next p.store a).store, p.events ++ (next p.store a).events,
      (next p.store a).result⟩ := by
  rw [andThen, ha]

theorem andThen_of_error (he : p.result = .error e) :
    p.andThen next = ⟨p.store, p.events, .error e⟩ := by
  rw [andThen, he]

end

/-! ### Loops -/

/-- A stage of a run that takes one step for each member of a list, up to the first failure. -/
structure IsLoop {σ α β γ : Type} (step : σ → α → Progress σ β)
    (loop : σ → List α → Progress σ γ) : Prop where
  /-- Without members nothing happens. -/
  nil : ∀ s, ∃ c, loop s [] = ⟨s, [], .ok c⟩
  /-- The step of the first member comes first, and then those of the others. -/
  cons : ∃ join : β → γ → γ, ∀ s a rest, loop s (a :: rest) =
    (step s a).andThen fun s b => (loop s rest).andThen fun s c => ⟨s, [], .ok (join b c)⟩

namespace IsLoop

variable {σ α β γ : Type} {step : σ → α → Progress σ β} {loop : σ → List α → Progress σ γ}
  (hloop : IsLoop step loop) {s : σ} {a : α} {as : List α} {e : CompileError}
include hloop

theorem stops (he : (step s a).result = .error e) :
    loop s (a :: as) = ⟨(step s a).store, (step s a).events, .error e⟩ := by
  obtain ⟨join, hcons⟩ := hloop.cons
  rw [hcons, andThen_of_error he]

/-- After a successful step the loop goes on with the other members. -/
theorem goes_on (rest : List α) {b : β} (hb : (step s a).result = .ok b) : ∃ f : γ → γ,
    loop s (a :: rest) = ⟨(loop (step s a).store rest).store,
      (step s a).events ++ (loop (step s a).store rest).events,
      (loop (step s a).store rest).result.map f⟩ := by
  obtain ⟨join, hcons⟩ := hloop.cons
  refine ⟨join b, ?_⟩
  rw [hcons, andThen_of_ok hb]
  cases hrest : (loop (step s a).store rest).result with
  | error e => rw [andThen_of_error hrest]; rfl
  | ok c => rw [andThen_of_ok hrest, List.append_nil]; rfl

/-- **A loop that fails** has taken the steps of some first members, and fails in the next one. -/
theorem eq_error (h : (loop s as).result = .error e) : ∃ done a rest, as = done ++ a :: rest ∧
    (∃ c, (loop s done).result = .ok c) ∧ (step (loop s done).store a).result = .error e ∧
    (loop s as).store = (step (loop s done).store a).store := by
  -- The store changes with every step, so the claim is for all stores at once.
  induction as generalizing s with
  | nil =>
    obtain ⟨c, hc⟩ := hloop.nil s
    rw [hc] at h
    cases h
  | cons a as ih =>
    cases hstep : (step s a).result with
    | error e' =>
      rw [hloop.stops hstep] at h ⊢
      obtain rfl : e' = e := Except.error.inj h
      obtain ⟨c, hc⟩ := hloop.nil s
      refine ⟨[], a, as, rfl, ⟨c, by rw [hc]⟩, ?_, ?_⟩
      · rw [hc, hstep]
      · rw [hc]
    | ok b =>
      obtain ⟨f, hrest⟩ := hloop.goes_on as hstep
      rw [hrest] at h ⊢
      obtain ⟨done, a', rest, rfl, ⟨c, hc⟩, hfail, hstore⟩ := ih (map_eq_error_iff.1 h)
      obtain ⟨g, hdone⟩ := hloop.goes_on done hstep
      refine ⟨a :: done, a', rest, rfl, ⟨g c, by rw [hdone, hc]; rfl⟩, ?_, ?_⟩
      · rw [hdone, hfail]
      · rw [hdone, hstore]

/-- What successful steps do to some part of the store, a successful loop does in order. -/
theorem view_eq_foldl {τ : Type} {view : σ → τ} {f : τ → α → τ}
    (hstep : ∀ a ∈ as, ∀ s b, (step s a).result = .ok b → view (step s a).store = f (view s) a)
    {c : γ} (h : (loop s as).result = .ok c) : view (loop s as).store = as.foldl f (view s) := by
  induction as generalizing s c with
  | nil =>
    obtain ⟨c, hc⟩ := hloop.nil s
    rw [hc, List.foldl_nil]
  | cons a as ih =>
    obtain ⟨ha, hothers⟩ := List.forall_mem_cons.1 hstep
    cases hfirst : (step s a).result with
    | error e =>
      rw [hloop.stops hfirst] at h
      cases h
    | ok b =>
      obtain ⟨f, hrest⟩ := hloop.goes_on as hfirst
      rw [hrest] at h ⊢
      obtain ⟨c', hresult, -⟩ := map_eq_ok_iff.1 h
      rw [ih hothers hresult, ha s b hfirst, List.foldl_cons]

/-- **A loop succeeds** exactly if all its steps would, as long as no step decides about another. -/
theorem exists_ok_iff {P : σ → α → Prop}
    (hstep : ∀ a ∈ as, ∀ s, (∃ b, (step s a).result = .ok b) ↔ P s a)
    (hstable : ∀ a ∈ as, ∀ b ∈ as, ∀ s, P s a → (P (step s a).store b ↔ P s b)) :
    (∃ c, (loop s as).result = .ok c) ↔ ∀ a ∈ as, P s a := by
  induction as generalizing s with
  | nil =>
    obtain ⟨c, hc⟩ := hloop.nil s
    exact iff_of_true ⟨c, by rw [hc]⟩ (List.forall_mem_nil _)
  | cons a as ih =>
    obtain ⟨ha, hothers⟩ := List.forall_mem_cons.1 hstep
    rw [List.forall_mem_cons]
    cases hfirst : (step s a).result with
    | error e =>
      have hno : ¬ P s a := fun hP => by
        obtain ⟨b, hb⟩ := (ha s).2 hP
        cases hfirst.symm.trans hb
      rw [hloop.stops hfirst]
      exact iff_of_false (fun ⟨c, hc⟩ => nomatch hc) fun h => hno h.1
    | ok b =>
      have hP : P s a := (ha s).1 ⟨b, hfirst⟩
      obtain ⟨f, hrest⟩ := hloop.goes_on as hfirst
      have hlater : (∃ c, (loop (step s a).store as).result = .ok c) ↔ ∀ a ∈ as, P s a := by
        rw [ih hothers fun b hb c hc =>
          hstable b (List.mem_cons_of_mem a hb) c (List.mem_cons_of_mem a hc)]
        refine forall₂_congr fun b hb => ?_
        exact hstable a List.mem_cons_self b (List.mem_cons_of_mem a hb) s hP
      rw [hrest, and_iff_right hP, ← hlater]
      exact ⟨fun ⟨c, hc⟩ => (map_eq_ok_iff.1 hc).imp fun _ h => h.1,
        fun ⟨c, hc⟩ => ⟨f c, by rw [hc]; rfl⟩⟩

/-- A relation between stores that every step keeps is kept by the loop. -/
theorem store_rel {R : σ → σ → Prop} (hrefl : ∀ s, R s s)
    (htrans : ∀ s s' s'', R s s' → R s' s'' → R s s'')
    (hstep : ∀ a ∈ as, ∀ s, R s (step s a).store) : R s (loop s as).store := by
  induction as generalizing s with
  | nil =>
    obtain ⟨c, hc⟩ := hloop.nil s
    rw [hc]
    exact hrefl s
  | cons a as ih =>
    obtain ⟨hfirst, hothers⟩ := List.forall_mem_cons.1 hstep
    cases hresult : (step s a).result with
    | error e =>
      rw [hloop.stops hresult]
      exact hfirst s
    | ok b =>
      obtain ⟨f, hrest⟩ := hloop.goes_on as hresult
      rw [hrest]
      exact htrans _ _ _ (hfirst s) (ih hothers)

/-- A loop has no other events than its steps. -/
theorem forall_mem_events {P : CompileEvent → Prop}
    (hstep : ∀ a ∈ as, ∀ s, ∀ v ∈ (step s a).events, P v) : ∀ v ∈ (loop s as).events, P v := by
  induction as generalizing s with
  | nil =>
    obtain ⟨c, hc⟩ := hloop.nil s
    rw [hc]
    exact List.forall_mem_nil _
  | cons a as ih =>
    obtain ⟨hfirst, hothers⟩ := List.forall_mem_cons.1 hstep
    cases hresult : (step s a).result with
    | error e =>
      rw [hloop.stops hresult]
      exact hfirst s
    | ok b =>
      obtain ⟨f, hrest⟩ := hloop.goes_on as hresult
      rw [hrest]
      exact List.forall_mem_append.2 ⟨hfirst s, ih hothers⟩

end IsLoop

end Progress

end ViewHolder
