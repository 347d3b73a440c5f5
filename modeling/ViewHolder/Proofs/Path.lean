import Mathlib.Data.List.DropRight
import ViewHolder.Path.Set
import ViewHolder.Store.Tree

/-!
# Paths by their steps

A path is spelled as a text, and what it names is decided by its steps.  The lemmas of this file
let later proofs speak of steps only: joining a path with a name adds a step at the end, and the
parent of a path lacks its last step.

## Main definitions

* `IsEntryName` : the texts that are a name between two separators.

## Main results

* `Path.steps_join` : joining adds a step.
* `Path.exists_parent?` : the parent lacks the last step.
* `Path.steps_eq_or` : the steps of a path are its location, but for a leading `.`.
-/

namespace ViewHolder

/-! ### Pieces between separators -/

namespace Text

variable {sep : Char → Bool}

theorem pieces_of_forall_not {cs : List Char} (h : ∀ c ∈ cs, sep c = false) :
    pieces sep cs = [cs] := by
  induction cs with
  | nil => rfl
  | cons c cs ih =>
    simp only [pieces, h c List.mem_cons_self, ih fun d hd => h d (List.mem_cons_of_mem c hd),
      Bool.false_eq_true, if_false]

theorem pieces_append_sep {c : Char} (hc : sep c = true) (as bs : List Char) :
    pieces sep (as ++ c :: bs) = pieces sep as ++ pieces sep bs := by
  induction as with
  | nil => simp [pieces, hc]
  | cons a as ih =>
    simp only [List.cons_append, pieces, ih]
    split
    · rfl
    · cases h : pieces sep as with
      | nil => exact absurd h (pieces_ne_nil sep as)
      | cons p ps => rfl

theorem mem_of_mem_pieces {cs p : List Char} (hp : p ∈ pieces sep cs) {c : Char} (hc : c ∈ p) :
    c ∈ cs ∧ sep c = false := by
  induction cs generalizing p with
  | nil =>
    obtain rfl : p = [] := by simpa [pieces] using hp
    cases hc
  | cons d cs ih =>
    rw [pieces] at hp
    split at hp
    · rcases List.mem_cons.1 hp with rfl | hp
      · cases hc
      · exact (ih hp hc).imp_left (List.mem_cons_of_mem d)
    · rename_i hd
      cases h : pieces sep cs with
      | nil => exact absurd h (pieces_ne_nil sep cs)
      | cons q qs =>
        rw [h] at hp ih
        rcases List.mem_cons.1 hp with rfl | hp
        · rcases List.mem_cons.1 hc with rfl | hc
          · exact ⟨List.mem_cons_self, by simpa using hd⟩
          · exact (ih List.mem_cons_self hc).imp_left (List.mem_cons_of_mem d)
        · exact (ih (List.mem_cons_of_mem q hp) hc).imp_left (List.mem_cons_of_mem d)

theorem pieces_intercalate {c : Char} (hc : sep c = true) {segments : List (List Char)}
    (hne : segments ≠ []) (h : ∀ s ∈ segments, ∀ d ∈ s, sep d = false) :
    pieces sep ([c].intercalate segments) = segments := by
  induction segments with
  | nil => exact absurd rfl hne
  | cons s rest ih =>
    have hs : pieces sep s = [s] := pieces_of_forall_not (h s List.mem_cons_self)
    cases rest with
    | nil => rwa [List.intercalate_singleton]
    | cons s' rest =>
      have hrest := ih (List.cons_ne_nil _ _) fun t ht => h t (List.mem_cons_of_mem s ht)
      rw [List.intercalate_cons_cons, List.append_assoc, List.singleton_append,
        pieces_append_sep hc, hs, hrest]
      rfl

end Text

/-! ### Names of entries -/

/-- A text that is a name between two separators: not empty, no dot step, and without `/`. -/
def IsEntryName (x : String) : Prop := x ≠ "" ∧ x ≠ "." ∧ x ≠ ".." ∧ '/' ∉ x.toList

instance (x : String) : Decidable (IsEntryName x) := inferInstanceAs (Decidable (_ ∧ _))

/-- A step that a segment between two separators stands for: a name, or the directory above. -/
def Step.IsSegment (s : Step) : Prop :=
  Step.ofSegment? s.text.toList = some s ∧ '/' ∉ s.text.toList

theorem Step.text_of_ofSegment? {segment : List Char} {s : Step}
    (h : Step.ofSegment? segment = some s) : s.text = String.ofList segment := by
  unfold ofSegment? at h
  split at h
  · cases h
  · cases h
  · obtain rfl := Option.some.inj h
    decide +kernel
  · obtain rfl := Option.some.inj h
    rfl

theorem Step.isSegment_of_ofSegment? {segment : List Char} {s : Step}
    (h : Step.ofSegment? segment = some s) (hslash : '/' ∉ segment) : s.IsSegment := by
  rw [IsSegment, text_of_ofSegment? h, String.toList_ofList]
  exact ⟨h, hslash⟩

theorem Step.IsSegment.ne_here {s : Step} (h : s.IsSegment) : s ≠ .here := by
  rintro rfl
  exact absurd h.1 (by simp [Step.text, Step.ofSegment?])

theorem Step.IsSegment.ne_root {s : Step} (h : s.IsSegment) : s ≠ .root := by
  rintro rfl
  exact h.2 (by simp [Step.text])

theorem Step.isSegment_name {x : String} : (Step.name x).IsSegment ↔ IsEntryName x := by
  have hnil : x.toList = [] ↔ x = "" := String.toList_eq_nil_iff
  have hdot : x.toList = ['.'] ↔ x = "." := by rw [← String.toList_inj]; rfl
  have hup : x.toList = ['.', '.'] ↔ x = ".." := by rw [← String.toList_inj]; rfl
  simp only [IsSegment, Step.text, IsEntryName, Step.ofSegment?, ← and_assoc,
    and_congr_left_iff]
  intro _
  split <;> simp_all

/-! ### Steps of a spelling -/

namespace Path

/-- The steps of a spelling, given by its characters. -/
def textSteps (cs : List Char) : List Step :=
  (splitLead cs).1.steps ++ (splitLead cs).2.filterMap Step.ofSegment?

theorem steps_eq_textSteps (p : Path) : p.steps = textSteps p.text.toList := rfl

private theorem splitLead_of_head?_ne {cs : List Char} (h : cs.head? ≠ some '/') :
    splitLead cs = match Text.pieces isSeparator cs with
      | ['.'] :: rest => (.here, rest)
      | segments => (.none, segments) := by
  unfold splitLead
  split
  · simp at h
  · rfl

private theorem splitLead_append_slash {as : List Char} (has : as ≠ []) (bs : List Char) :
    splitLead (as ++ '/' :: bs) =
      ((splitLead as).1, (splitLead as).2 ++ Text.pieces isSeparator bs) := by
  have hcut := fun cs => @Text.pieces_append_sep isSeparator '/' rfl cs bs
  by_cases h : as.head? = some '/'
  · obtain ⟨rest, rfl⟩ : ∃ rest, as = '/' :: rest := ⟨as.tail, (List.cons_head?_tail h).symm⟩
    exact Prod.ext rfl (hcut rest)
  · have hhead : (as ++ '/' :: bs).head? ≠ some '/' := by
      rwa [List.head?_append_of_ne_nil _ has]
    rw [splitLead_of_head?_ne h, splitLead_of_head?_ne hhead, hcut]
    cases hp : Text.pieces isSeparator as with
    | nil => exact absurd hp (Text.pieces_ne_nil _ _)
    | cons q qs =>
      by_cases hq : q = ['.']
      · subst hq
        rfl
      · simp [hq]

theorem textSteps_append_slash {as : List Char} (has : as ≠ []) (bs : List Char) :
    textSteps (as ++ '/' :: bs) =
      textSteps as ++ (Text.pieces isSeparator bs).filterMap Step.ofSegment? := by
  rw [textSteps, splitLead_append_slash has, textSteps, List.filterMap_append, List.append_assoc]

private theorem pieces_of_isSegment {s : Step} (hs : s.IsSegment) :
    Text.pieces isSeparator s.text.toList = [s.text.toList] :=
  Text.pieces_of_forall_not fun c hc => by
    have : c ≠ '/' := fun h => hs.2 (h ▸ hc)
    simpa [isSeparator] using this

private theorem textSteps_of_isSegment {s : Step} (hs : s.IsSegment) :
    textSteps s.text.toList = [s] := by
  have hhead : s.text.toList.head? ≠ some '/' := fun h => hs.2 (List.mem_of_head? h)
  rw [textSteps, splitLead_of_head?_ne hhead, pieces_of_isSegment hs]
  split
  · rename_i h
    have hdot := hs.1
    rw [(List.cons.inj h).1] at hdot
    cases hdot
  · simp [Lead.steps, hs.1]

private theorem toList_join {p q : Path} (hq : q.isAbsolute = false) :
    (p.join q).text.toList =
      if p.text.toList = [] ∨ p.text.toList.getLast? = some '/' then p.text.toList ++ q.text.toList
      else p.text.toList ++ '/' :: q.text.toList := by
  simp only [join, hq, Bool.false_eq_true, if_false, isEmpty, Bool.or_eq_true, beq_iff_eq,
    List.isEmpty_iff]
  split
  · exact String.toList_append
  · rw [String.toList_append, String.toList_append, List.append_assoc]
    rfl

/-- **Joining adds a step.**  Whether the path is empty or ends in a separator does not matter. -/
theorem steps_join {s : Step} (hs : s.IsSegment) (p : Path) :
    (p.join ⟨s.text⟩).steps = p.steps ++ [s] := by
  have hrel : (⟨s.text⟩ : Path).isAbsolute = false := by
    simpa [isAbsolute] using fun h => hs.2 (List.mem_of_head? h)
  have hpieces : (Text.pieces isSeparator s.text.toList).filterMap Step.ofSegment? = [s] := by
    simp [pieces_of_isSegment hs, hs.1]
  rw [steps_eq_textSteps, steps_eq_textSteps, toList_join hrel]
  split
  · rename_i h
    rcases h with hnil | hlast
    · rw [hnil, List.nil_append, textSteps_of_isSegment hs]
      rfl
    · obtain ⟨as, has⟩ := List.getLast?_eq_some_iff.1 hlast
      rw [has, List.append_assoc, List.singleton_append]
      cases as with
      | nil => simp [textSteps, splitLead, hpieces, Text.pieces, Step.ofSegment?]
      | cons a as =>
        rw [textSteps_append_slash (List.cons_ne_nil a as), hpieces,
          textSteps_append_slash (List.cons_ne_nil a as)]
        simp [Text.pieces, Step.ofSegment?]
  · rename_i h
    rw [textSteps_append_slash fun hnil => h (Or.inl hnil), hpieces]

theorem steps_join_name {x : String} (hx : IsEntryName x) (p : Path) :
    (p.join ⟨x⟩).steps = p.steps ++ [.name x] := steps_join (Step.isSegment_name.2 hx) p

/-! ### Parents -/

/-- A segment that is no step. -/
private def IsIdle (segment : List Char) : Bool := (Step.ofSegment? segment).isNone

private theorem dropIdleEnd_eq (segments : List (List Char)) :
    dropIdleEnd segments = segments.rdropWhile IsIdle := rfl

private theorem filterMap_dropIdleEnd (segments : List (List Char)) :
    (dropIdleEnd segments).filterMap Step.ofSegment? = segments.filterMap Step.ofSegment? := by
  have hidle : (segments.rtakeWhile IsIdle).filterMap Step.ofSegment? = [] :=
    List.filterMap_eq_nil_iff.2 fun s hs => by simpa [IsIdle] using List.mem_rtakeWhile_imp hs
  calc (dropIdleEnd segments).filterMap Step.ofSegment?
      = (segments.rdropWhile IsIdle ++ segments.rtakeWhile IsIdle).filterMap Step.ofSegment? := by
        rw [List.filterMap_append, hidle, List.append_nil, dropIdleEnd_eq]
    _ = segments.filterMap Step.ofSegment? := by rw [List.rdropWhile_append_rtakeWhile]

/-- A body that can stand behind a lead without being read as a part of it. -/
private def IsBody (lead : Lead) (body : List (List Char)) : Prop :=
  (∀ s ∈ body, ∀ c ∈ s, isSeparator c = false) ∧
    (lead = .none → body.head? ≠ some [] ∧ body.head? ≠ some ['.'])

private theorem steps_spell {lead : Lead} {body : List (List Char)} (h : IsBody lead body) :
    (spell lead body).steps = lead.steps ++ body.filterMap Step.ofSegment? := by
  by_cases hnil : body = []
  · subst hnil
    cases lead <;> decide +kernel
  have hcut : Text.pieces isSeparator (['/'].intercalate body) = body :=
    Text.pieces_intercalate rfl hnil h.1
  cases lead with
  | root => simp [spell, steps_eq_textSteps, textSteps, splitLead, hcut]
  | here =>
    have hdot : Text.pieces isSeparator ('.' :: '/' :: ['/'].intercalate body) = ['.'] :: body :=
      (@Text.pieces_append_sep isSeparator '/' rfl ['.'] _).trans
        (congrArg _ hcut)
    simp [spell, steps_eq_textSteps, textSteps, splitLead, hnil, hdot]
  | none =>
    obtain ⟨s, rest, rfl⟩ := List.exists_cons_of_ne_nil hnil
    obtain ⟨hempty, hdot⟩ := h.2 rfl
    obtain ⟨c, cs, rfl⟩ : ∃ c cs, s = c :: cs := List.exists_cons_of_ne_nil (by simpa using hempty)
    have hc : c ≠ '/' := by simpa [isSeparator] using h.1 _ List.mem_cons_self c List.mem_cons_self
    have hhead : (['/'].intercalate ((c :: cs) :: rest)).head? ≠ some '/' := by
      cases rest <;> simp [hc]
    simp only [spell, steps_eq_textSteps, String.toList_ofList, textSteps,
      splitLead_of_head?_ne hhead, hcut]
    split
    · simp_all
    · rfl

private theorem not_isSeparator_of_mem_splitLead {cs segment : List Char}
    (h : segment ∈ (splitLead cs).2) : ∀ c ∈ segment, isSeparator c = false := by
  intro c hc
  by_cases hhead : cs.head? = some '/'
  · obtain ⟨rest, rfl⟩ : ∃ rest, cs = '/' :: rest := ⟨cs.tail, (List.cons_head?_tail hhead).symm⟩
    exact (Text.mem_of_mem_pieces h hc).2
  · rw [splitLead_of_head?_ne hhead] at h
    split at h
    · rename_i hp
      exact (Text.mem_of_mem_pieces (hp ▸ List.mem_cons_of_mem _ h) hc).2
    · exact (Text.mem_of_mem_pieces h hc).2

private theorem head?_splitLead_of_none {cs : List Char} (h : (splitLead cs).1 = .none) :
    (splitLead cs).2.head? ≠ some ['.'] ∧
      ((splitLead cs).2.head? = some [] → (splitLead cs).2 = [[]]) := by
  by_cases hhead : cs.head? = some '/'
  · obtain ⟨rest, rfl⟩ : ∃ rest, cs = '/' :: rest := ⟨cs.tail, (List.cons_head?_tail hhead).symm⟩
    cases h
  · rw [splitLead_of_head?_ne hhead] at h ⊢
    split at h
    · cases h
    · rename_i hdot
      refine ⟨fun hd => hdot _ (List.cons_head?_tail hd).symm, fun he => ?_⟩
      cases cs with
      | nil => rfl
      | cons c cs =>
        have hc : isSeparator c = false := by simpa [isSeparator] using hhead
        simp only [Text.pieces, hc, Bool.false_eq_true, if_false] at he
        split at he <;> cases he

private theorem isBody_dropIdleEnd {cs : List Char} {front : List (List Char)} {last : List Char}
    (h : dropIdleEnd (splitLead cs).2 = front ++ [last]) :
    IsBody (splitLead cs).1 (dropIdleEnd front) := by
  have hpre : dropIdleEnd front <+: (splitLead cs).2 :=
    (List.rdropWhile_prefix IsIdle front).trans
      ((List.prefix_append front [last]).trans (h ▸ List.rdropWhile_prefix IsIdle _))
  have hhead {s : List Char} (hs : (dropIdleEnd front).head? = some s) :
      (splitLead cs).2.head? = some s := by
    obtain ⟨rest, hrest⟩ := hpre
    rw [← hrest, List.head?_append, hs, Option.some_or]
  refine ⟨fun s hs => not_isSeparator_of_mem_splitLead (hpre.mem hs), fun hnone => ?_⟩
  obtain ⟨hdot, hempty⟩ := head?_splitLead_of_none hnone
  refine ⟨fun he => ?_, fun hd => hdot (hhead hd)⟩
  rw [hempty (hhead he)] at h
  simp [dropIdleEnd, Step.ofSegment?] at h

/-- **The parent lacks the last step.** -/
theorem exists_parent? {p : Path} {l : List Step} {x : String} (h : p.steps = l ++ [.name x]) :
    ∃ d, p.parent? = some d ∧ d.steps = l := by
  rw [steps_eq_textSteps, textSteps, ← filterMap_dropIdleEnd] at h
  rcases List.eq_nil_or_concat (dropIdleEnd (splitLead p.text.toList).2) with
    hnil | ⟨front, last, hlast⟩
  · rw [hnil, List.filterMap_nil, List.append_nil] at h
    have : Step.name x ∈ (splitLead p.text.toList).1.steps := h ▸ by simp
    generalize (splitLead p.text.toList).1 = lead at this
    cases lead <;> simp [Lead.steps] at this
  · rw [List.concat_eq_append] at hlast
    have hstep : (Step.ofSegment? last).isSome := by
      have hne : (splitLead p.text.toList).2.rdropWhile IsIdle ≠ [] := by
        rw [← dropIdleEnd_eq, hlast]
        simp
      have := List.rdropWhile_last_not IsIdle _ hne
      simpa [← dropIdleEnd_eq, hlast, IsIdle, ← Option.isSome_iff_ne_none] using this
    obtain ⟨y, hy⟩ := Option.isSome_iff_exists.1 hstep
    refine ⟨spell (splitLead p.text.toList).1 (dropIdleEnd front), ?_, ?_⟩
    · simp only [parent?, hlast]
      split
      · simp_all
      · rw [List.dropLast_concat]
    · rw [steps_spell (isBody_dropIdleEnd hlast), filterMap_dropIdleEnd]
      rw [hlast, List.filterMap_append, ← List.append_assoc] at h
      simp only [List.filterMap_cons, hy, List.filterMap_nil] at h
      exact (List.append_inj' h rfl).1

theorem fileName?_eq_some {p : Path} {x : String} :
    p.fileName? = some x ↔ ∃ l, p.steps = l ++ [.name x] := by
  rw [← List.getLast?_eq_some_iff, fileName?]
  split <;> simp_all

/-! ### Locations -/

theorem exists_lead (p : Path) :
    ∃ (lead : Lead) (body : List Step), p.steps = lead.steps ++ body ∧ ∀ s ∈ body, s.IsSegment := by
  refine ⟨_, _, rfl, fun s hs => ?_⟩
  obtain ⟨segment, hmem, hseg⟩ := List.mem_filterMap.1 hs
  refine Step.isSegment_of_ofSegment? hseg fun hslash => ?_
  exact absurd (not_isSeparator_of_mem_splitLead hmem '/' hslash) (by decide)

theorem isEntryName_of_mem_steps {p : Path} {x : String} (h : .name x ∈ p.steps) :
    IsEntryName x := by
  obtain ⟨lead, body, hp, hbody⟩ := p.exists_lead
  rw [hp, List.mem_append] at h
  rcases h with h | h
  · cases lead <;> simp [Lead.steps] at h
  · exact Step.isSegment_name.1 (hbody _ h)

/-- A path has the steps of its location, but for a `.` in front. -/
theorem steps_eq_or (p : Path) : p.steps = p.location ∨ p.steps = .here :: p.location := by
  obtain ⟨lead, body, hp, hbody⟩ := p.exists_lead
  have hfilter : body.filter (· != .here) = body :=
    List.filter_eq_self.2 fun s hs => by simpa using (hbody s hs).ne_here
  cases lead with
  | root => exact Or.inl (by simp [location, hp, Lead.steps, hfilter])
  | here => exact Or.inr (by simp [location, hp, Lead.steps, hfilter])
  | none => exact Or.inl (by simp [location, hp, Lead.steps, hfilter])

theorem location_eq_of_steps_eq {p q : Path} (h : p.steps = q.steps) : p.location = q.location := by
  rw [location, location, h]

theorem location_eq_of_steps {p q : Path} {l : List Step} (h : p.steps = q.steps ++ l)
    (hl : ∀ s ∈ l, s ≠ .here) : p.location = q.location ++ l := by
  have hself : l.filter (· != .here) = l :=
    List.filter_eq_self.2 fun s hs => by simpa using hl s hs
  rw [location, h, List.filter_append, hself, location]

theorem location_join {s : Step} (hs : s.IsSegment) (p : Path) :
    (p.join ⟨s.text⟩).location = p.location ++ [s] :=
  location_eq_of_steps (steps_join hs p) (by simpa using hs.ne_here)

theorem location_join_name {x : String} (hx : IsEntryName x) (p : Path) :
    (p.join ⟨x⟩).location = p.location ++ [.name x] := location_join (Step.isSegment_name.2 hx) p

/-- The last steps of a location are those of the path. -/
theorem exists_steps_of_location {p : Path} {l l' : List Step} (h : p.location = l ++ l') :
    ∃ k, p.steps = k ++ l' := by
  rcases p.steps_eq_or with hp | hp
  · exact ⟨l, hp.trans h⟩
  · exact ⟨.here :: l, by rw [hp, h, List.cons_append]⟩

/-- Behind the first step of a location stand segments only. -/
theorem isSegment_of_mem_tail {p : Path} {s : Step} (h : s ∈ p.location.tail) : s.IsSegment := by
  obtain ⟨lead, body, hp, hbody⟩ := p.exists_lead
  have hmem : s ∈ p.steps.tail := by
    rcases p.steps_eq_or with hp' | hp'
    · rwa [hp']
    · rw [hp']
      exact List.mem_of_mem_tail h
  refine hbody s ?_
  rw [hp] at hmem
  cases lead with
  | root => exact hmem
  | here => exact hmem
  | none => exact List.mem_of_mem_tail hmem

theorem isSegment_or_eq_root {p : Path} {s : Step} (h : s ∈ p.location) :
    s.IsSegment ∨ s = .root := by
  obtain ⟨lead, body, hp, hbody⟩ := p.exists_lead
  obtain ⟨hmem, hhere⟩ := List.mem_filter.1 h
  rw [hp, List.mem_append] at hmem
  refine hmem.symm.imp (hbody s) fun hlead => ?_
  cases lead <;> simp_all [Lead.steps]

theorem location_of_isEmpty {p : Path} (h : p.isEmpty = true) : p.location = [] := by
  have hsteps : p.steps = [] := by
    rw [steps_eq_textSteps, List.isEmpty_iff.1 h]
    rfl
  rw [location, hsteps]
  rfl

end Path

end ViewHolder
