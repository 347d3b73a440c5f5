import ViewHolder.Markup.Reference

/-!
# Escaped texts

The five characters with a meaning of their own are written as named references.  Expanding the
references of an escaped text gives the text back, and of the five characters an escaped text has
none but the `&` that opens a reference.

## Main definitions

* `Markup.escape` : a text with its special characters written as references.

## Main results

* `Markup.expand_escape` : expanding an escaped text gives the text back.
* `Markup.escape_injective` : different texts are escaped differently.
-/

namespace ViewHolder.Markup

/-- The characters with a meaning of their own. -/
def specials : List Char := ['&', '<', '>', '"', '\'']

/-- The texts without special characters. -/
def IsPlain (cs : List Char) : Prop := ∀ c ∈ cs, c ∉ specials

instance (cs : List Char) : Decidable (IsPlain cs) :=
  decidable_of_iff (cs.all fun c => !specials.contains c) (by simp [IsPlain])

/-- A character, written as a named reference if it is special. -/
def escapeChar : Char → List Char
  | '&' => "&amp;".toList
  | '<' => "&lt;".toList
  | '>' => "&gt;".toList
  | '"' => "&quot;".toList
  | '\'' => "&apos;".toList
  | c => [c]

/-- A text with its special characters written as references. -/
def escape (cs : List Char) : List Char := cs.flatMap escapeChar

/-- A character stands for itself unless it is one of those that have a named reference. -/
theorem escapeChar_cases (c : Char) : (c ∉ specials ∧ escapeChar c = [c]) ∨
    ∃ name, (name, c) ∈ entities ∧ escapeChar c = '&' :: (name.toList ++ [';']) := by
  unfold escapeChar
  split
  · exact Or.inr ⟨"amp", by decide, rfl⟩
  · exact Or.inr ⟨"lt", by decide, rfl⟩
  · exact Or.inr ⟨"gt", by decide, rfl⟩
  · exact Or.inr ⟨"quot", by decide, rfl⟩
  · exact Or.inr ⟨"apos", by decide, rfl⟩
  · exact Or.inl ⟨by simp_all [specials], rfl⟩

/-- What is in the text of a named reference, and what it stands for. -/
theorem entity_spec : ∀ e ∈ entities, e.2 ∈ specials ∧
    IsPlain e.1.toList ∧ e.1.toList.all isReferenceBody = true ∧
      e.1.toList.head? ≠ some '#' ∧ entities.lookup (String.ofList e.1.toList) = some e.2 := by
  decide +kernel

theorem characterOfReference_entity {e : String × Char} (he : e ∈ entities) (offset : Nat) :
    characterOfReference offset e.1.toList = .ok e.2 := by
  obtain ⟨-, -, -, hhash, hlookup⟩ := entity_spec e he
  unfold characterOfReference
  split
  · rename_i h
    exact absurd (by rw [h]; rfl) hhash
  · rw [hlookup]

theorem escape_of_isPlain {cs : List Char} (h : IsPlain cs) : escape cs = cs := by
  induction cs with
  | nil => rfl
  | cons c cs ih =>
    have hc : escapeChar c = [c] := by
      rcases escapeChar_cases c with ⟨-, hc⟩ | ⟨name, hname, -⟩
      · exact hc
      · exact absurd (entity_spec _ hname).1 (h c List.mem_cons_self)
    rw [escape, List.flatMap_cons, hc, ← escape, ih fun d hd => h d (List.mem_cons_of_mem c hd)]
    rfl

/-- Of the special characters an escaped text has none but `&`. -/
theorem notMem_escape {c : Char} (hc : c ∈ specials) (hamp : c ≠ '&') (cs : List Char) :
    c ∉ escape cs := by
  intro hmem
  obtain ⟨d, -, hd⟩ := List.mem_flatMap.1 hmem
  rcases escapeChar_cases d with ⟨hplain, hself⟩ | ⟨name, hname, href⟩
  · rw [hself, List.mem_singleton] at hd
    exact hplain (hd ▸ hc)
  · rw [href, List.mem_cons, List.mem_append, List.mem_singleton] at hd
    rcases hd with rfl | hd | rfl
    · exact hamp rfl
    · exact (entity_spec _ hname).2.1 c hd hc
    · exact absurd hc (by decide)

/-! ### Expanding -/

/-- Expanding a reference. -/
theorem expandFrom_reference {size pos : Nat} {name rest : List Char} {c : Char}
    (hname : ∀ c ∈ name, isReferenceBody c = true)
    (hc : ∀ offset, characterOfReference offset name = .ok c) :
    ∃ next, expandFrom size pos ('&' :: (name ++ ';' :: rest)) =
      (expandFrom size next rest).map (c :: ·) := by
  have hdrop : (name ++ ';' :: rest).dropWhile isReferenceBody = ';' :: rest := by
    rw [List.dropWhile_append_of_pos hname]
    rfl
  have htake : (name ++ ';' :: rest).takeWhile isReferenceBody = name := by
    rw [List.takeWhile_append_of_pos hname]
    exact List.append_nil name
  refine ⟨pos + 1 + Text.byteSize name + 1, ?_⟩
  rw [expandFrom]
  split
  · rename_i rest' h
    obtain rfl : rest = rest' := (List.cons.inj (hdrop.symm.trans h)).2
    rw [htake]
    dsimp only
    rw [hc]
    rfl
  · rename_i h
    exact absurd hdrop (h _)

theorem expandFrom_plain {size pos : Nat} {c : Char} {rest : List Char} (hc : c ≠ '&') :
    expandFrom size pos (c :: rest) =
      (expandFrom size (pos + c.utf8Size) rest).map (c :: ·) := by
  rw [expandFrom]
  · rfl
  · exact hc

/-- **Expanding an escaped text gives the text back.** -/
theorem expand_escape (cs : List Char) : expand (escape cs) = .ok cs := by
  rw [expand]
  generalize Text.byteSize (escape cs) = size
  generalize 0 = pos
  induction cs generalizing pos with
  | nil => rw [escape, List.flatMap_nil, expandFrom]
  | cons c cs ih =>
    rw [escape, List.flatMap_cons, ← escape]
    rcases escapeChar_cases c with ⟨hplain, hself⟩ | ⟨name, hname, href⟩
    · have hamp : c ≠ '&' := by
        rintro rfl
        exact hplain (by decide)
      rw [hself, List.singleton_append, expandFrom_plain hamp, ih]
      rfl
    · obtain ⟨next, hnext⟩ : ∃ next,
          expandFrom size pos ('&' :: (name.toList ++ ';' :: escape cs)) =
            (expandFrom size next (escape cs)).map (c :: ·) :=
        expandFrom_reference (List.all_eq_true.1 (entity_spec _ hname).2.2.1)
          (characterOfReference_entity hname)
      rw [href, List.cons_append, List.append_assoc, List.singleton_append, hnext, ih]
      rfl

/-- Different texts are escaped differently. -/
theorem escape_injective : Function.Injective escape := fun cs ds h =>
  Except.ok.inj ((expand_escape cs).symm.trans ((congrArg expand h).trans (expand_escape ds)))

/-- A text without special characters is the escaped form of itself alone. -/
theorem escape_eq_iff {cs ds : List Char} (h : IsPlain ds) : escape cs = ds ↔ cs = ds := by
  constructor
  · intro heq
    exact escape_injective (heq.trans (escape_of_isPlain h).symm)
  · rintro rfl
    exact escape_of_isPlain h

end ViewHolder.Markup
