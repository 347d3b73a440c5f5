import ViewHolder.Proofs.TagSpelling

/-!
# Spelled element trees

The content of an element is a sequence of texts, comments, character data and elements, and so is
a document.  Scanning a spelled content gives the tags of its elements in document order, whatever
stands between them.

## Main definitions

* `Markup.Content`, `Markup.Content.spelling` : a content and its text.
* `Markup.Content.IsSpelled` : the contents that can be spelled.
* `Markup.Content.tags` : the tags of a content in document order.
* `Markup.ScansTo` : a text of which a scan finds some tags before it goes on.

## Main results

* `Markup.Content.scansTo` : scanning a spelled content gives its tags.
-/

namespace ViewHolder

/-- The bytes of two texts. -/
theorem Text.byteSize_append (cs ds : List Char) :
    Text.byteSize (cs ++ ds) = Text.byteSize cs + Text.byteSize ds := by
  have hshift (n : Nat) (cs : List Char) :
      cs.foldl (fun n c => n + c.utf8Size) n = n + Text.byteSize cs := by
    induction cs generalizing n with
    | nil => rfl
    | cons c cs ih =>
      rw [Text.byteSize, List.foldl_cons, List.foldl_cons, ih, ih, Nat.zero_add, Nat.add_assoc]
  rw [Text.byteSize, List.foldl_append, hshift, ← Text.byteSize]

namespace Markup

/-! ### Contents -/

/-- The content of an element, or a document: what stands first in it, and the content behind
that. -/
inductive Content where
  /-- Nothing. -/
  | nil
  /-- A text. -/
  | text (cs : List Char) (rest : Content)
  /-- A comment. -/
  | comment (cs : List Char) (rest : Content)
  /-- Character data. -/
  | characterData (cs : List Char) (rest : Content)
  /-- An element with a start tag and an end tag. -/
  | element (tag : List Char) (items : List Item) (children rest : Content)
  /-- An element with one tag that opens and closes it. -/
  | emptyElement (tag : List Char) (items : List Item) (rest : Content)
  deriving DecidableEq, Inhabited, Repr

namespace Content

/-- The text of a content. -/
def spelling : Content → List Char
  | nil => []
  | text cs rest => escape cs ++ rest.spelling
  | comment cs rest => '<' :: ("!--".toList ++ cs ++ "--".toList ++ '>' :: rest.spelling)
  | characterData cs rest =>
    '<' :: ("![CDATA[".toList ++ cs ++ "]]".toList ++ '>' :: rest.spelling)
  | element tag items children rest =>
    '<' :: (tagContent tag items ++ '>' ::
      (children.spelling ++ '<' :: ('/' :: tag ++ '>' :: rest.spelling)))
  | emptyElement tag items rest =>
    '<' :: (tagContent tag items ++ ['/'] ++ '>' :: rest.spelling)

/-- The contents that can be spelled: comments and character data do not hold their own ends, and
names are names. -/
def IsSpelled : Content → Prop
  | nil => True
  | text _ rest => rest.IsSpelled
  | comment cs rest => ¬ "-->".toList <:+: cs ∧ rest.IsSpelled
  | characterData cs rest => ¬ "]]>".toList <:+: cs ∧ rest.IsSpelled
  | element tag items children rest =>
    IsName tag ∧ (∀ i ∈ items, i.HasNames) ∧ children.IsSpelled ∧ rest.IsSpelled
  | emptyElement tag items rest => IsName tag ∧ (∀ i ∈ items, i.HasNames) ∧ rest.IsSpelled

instance decidableIsSpelled : (c : Content) → Decidable c.IsSpelled
  | nil => .isTrue trivial
  | text _ rest => rest.decidableIsSpelled
  | comment _ rest =>
    have := rest.decidableIsSpelled
    inferInstanceAs (Decidable (_ ∧ _))
  | characterData _ rest =>
    have := rest.decidableIsSpelled
    inferInstanceAs (Decidable (_ ∧ _))
  | element _ _ children rest =>
    have := children.decidableIsSpelled
    have := rest.decidableIsSpelled
    inferInstanceAs (Decidable (_ ∧ _ ∧ _ ∧ _))
  | emptyElement _ _ rest =>
    have := rest.decidableIsSpelled
    inferInstanceAs (Decidable (_ ∧ _ ∧ _))

/-- The tags of a content in document order. -/
def tags : Content → List Token
  | nil => []
  | text _ rest => rest.tags
  | comment _ rest => rest.tags
  | characterData _ rest => rest.tags
  | element tag items children rest =>
    .startTag (tagContent tag items) false :: (children.tags ++ .endTag tag :: rest.tags)
  | emptyElement tag items rest => .startTag (tagContent tag items) true :: rest.tags

end Content

/-! ### Scanning -/

/-- The tags of a text from the offset `start` behind a `<` on. -/
def scanMarkup (start : Nat) (after : List Char) : Scan :=
  match Opening.ofChars? after with
  | none => ⟨[], some (.badSyntax .unknownMarkup, start)⟩
  | some o =>
    match o.cut after with
    | none => ⟨[], some (.badSyntax o.unclosed, start + Text.byteSize after)⟩
    | some (content, rest) =>
      match o.token? content with
      | .error f => ⟨[], some (f, start + Text.byteSize content + 1)⟩
      | .ok token =>
        (scanFrom (start + Text.byteSize content + 1) rest).cons? token
          (start + Text.byteSize content + 1)

/-- A scan passes over the text in front of a `<`. -/
theorem scanFrom_eq (pos : Nat) (cs : List Char) :
    scanFrom pos cs =
      match cs.dropWhile (· != '<') with
      | [] => ⟨[], none⟩
      | _ :: after => scanMarkup (pos + Text.byteSize (cs.takeWhile (· != '<')) + 1) after := by
  rw [scanFrom]
  split
  · rename_i h
    rw [h]
  · rename_i first after h
    have hrest : (match cs.dropWhile (· != '<') with
        | [] => ⟨[], none⟩
        | _ :: after => scanMarkup (pos + Text.byteSize (cs.takeWhile (· != '<')) + 1) after) =
          scanMarkup (pos + Text.byteSize (cs.takeWhile (· != '<')) + 1) after := by
      rw [h]
    rw [hrest, scanMarkup]
    dsimp only
    cases Opening.ofChars? after with
    | none => rfl
    | some o =>
      dsimp only
      split
      · rename_i hcut
        rw [hcut]
      · rename_i content rest hcut
        cases htoken : o.token? content with
        | error f => simp only [hcut, htoken]
        | ok token => simp only [hcut, htoken]

/-- A text of which a scan finds some tags before it goes on with what comes behind. -/
def ScansTo (cs : List Char) (tags : List Token) : Prop :=
  ∀ pos rest, ∃ next,
    (scanFrom pos (cs ++ rest)).tokens.map Prod.fst =
        tags ++ (scanFrom next rest).tokens.map Prod.fst ∧
      (scanFrom pos (cs ++ rest)).fault = (scanFrom next rest).fault

namespace ScansTo

variable {cs ds : List Char} {ts us : List Token}

theorem nil : ScansTo [] [] := fun pos _ => ⟨pos, rfl, rfl⟩

theorem append (h : ScansTo cs ts) (h' : ScansTo ds us) : ScansTo (cs ++ ds) (ts ++ us) := by
  intro pos rest
  obtain ⟨mid, htags, hfault⟩ := h pos (ds ++ rest)
  obtain ⟨next, htags', hfault'⟩ := h' mid rest
  refine ⟨next, ?_, ?_⟩
  · rw [List.append_assoc, htags, htags', List.append_assoc]
  · rw [List.append_assoc, hfault, hfault']

/-- Text between tags is passed over. -/
theorem text (h : '<' ∉ cs) : ScansTo cs [] := by
  have hcs := bne_of_notMem h
  intro pos rest
  have hsame : scanFrom pos (cs ++ rest) = scanFrom (pos + Text.byteSize cs) rest := by
    rw [scanFrom_eq, scanFrom_eq, List.dropWhile_append_of_pos hcs,
      List.takeWhile_append_of_pos hcs, Text.byteSize_append]
    simp only [Nat.add_assoc]
  exact ⟨pos + Text.byteSize cs, by rw [hsame, List.nil_append], by rw [hsame]⟩

/-- Markup is found. -/
theorem markup {o : Opening} {token : Option Token}
    (hopen : ∀ rest, Opening.ofChars? (cs ++ '>' :: rest) = some o)
    (hcut : ∀ rest, o.cut (cs ++ '>' :: rest) = some (cs, rest))
    (htoken : o.token? cs = .ok token) : ScansTo ('<' :: (cs ++ ['>'])) token.toList := by
  intro pos rest
  have hsame : scanFrom pos ('<' :: (cs ++ ['>']) ++ rest) =
      (scanFrom (pos + 1 + Text.byteSize cs + 1) rest).cons? token
        (pos + 1 + Text.byteSize cs + 1) := by
    rw [scanFrom_eq, List.cons_append, List.append_assoc, List.singleton_append,
      List.dropWhile_cons_of_neg (by decide), List.takeWhile_cons_of_neg (by decide)]
    dsimp only
    rw [scanMarkup, hopen]
    dsimp only
    rw [hcut]
    dsimp only
    rw [htoken]
    rfl
  refine ⟨pos + 1 + Text.byteSize cs + 1, ?_, ?_⟩
  · rw [hsame]
    cases token <;> rfl
  · rw [hsame]
    cases token <;> rfl

end ScansTo

/-! ### Tags -/

theorem ofChars?_name {c : Char} (h : isNameChar c = true) (cs : List Char) :
    Opening.ofChars? (c :: cs) = some .tag := by
  obtain ⟨-, -, -, hbang, hslash, -, -, -, hquery⟩ := isNameChar_spec h
  unfold Opening.ofChars?
  split <;> simp_all

section

variable {tag : List Char} {items : List Item} (htag : IsName tag)
  (hitems : ∀ i ∈ items, i.HasNames)
include htag

theorem ofChars?_tagContent (items : List Item) (rest : List Char) :
    Opening.ofChars? (tagContent tag items ++ rest) = some .tag := by
  obtain ⟨c, cs, rfl⟩ := List.exists_cons_of_ne_nil htag.1
  exact ofChars?_name (htag.isNameChar List.mem_cons_self) _

/-- The content of a start tag does not end like that of an empty element. -/
theorem getLast?_tagContent (items : List Item) : (tagContent tag items).getLast? ≠ some '/' := by
  intro hlast
  rcases List.eq_nil_or_concat items with rfl | ⟨front, i, rfl⟩
  · rw [tagContent, List.flatMap_nil, List.append_nil] at hlast
    obtain ⟨-, -, -, -, hslash, -⟩ := isNameChar_spec (htag.isNameChar (List.mem_of_getLast? hlast))
    exact hslash rfl
  · have hquote : tagContent tag (front.concat i) = tag ++ front.flatMap Item.spelling ++
        (' ' :: (i.key ++ '=' :: '"' :: escape i.text)) ++ ['"'] := by
      simp [tagContent, Item.spelling]
    rw [hquote, List.getLast?_concat] at hlast
    exact absurd hlast (by decide)

include hitems in
theorem scansTo_startTag :
    ScansTo ('<' :: (tagContent tag items ++ ['>'])) [.startTag (tagContent tag items) false] := by
  have htoken : Opening.tag.token? (tagContent tag items) =
      .ok (some (.startTag (tagContent tag items) false)) := by
    rw [Opening.token?, startToken, if_neg (getLast?_tagContent htag items)]
  exact .markup (fun rest => ofChars?_tagContent htag items _)
    (fun rest => (isPassed_tagContent htag hitems).cutTag_eq rest) htoken

include hitems in
theorem scansTo_emptyElement : ScansTo ('<' :: (tagContent tag items ++ ['/'] ++ ['>']))
    [.startTag (tagContent tag items) true] := by
  have hslash : IsPassed ['/'] := .singleton (by decide) (by decide)
  have htoken : Opening.tag.token? (tagContent tag items ++ ['/']) =
      .ok (some (.startTag (tagContent tag items) true)) := by
    rw [Opening.token?, startToken, List.getLast?_concat, if_pos rfl, List.dropLast_concat]
  have hcut (rest : List Char) : Opening.tag.cut (tagContent tag items ++ ['/'] ++ '>' :: rest) =
      some (tagContent tag items ++ ['/'], rest) :=
    ((isPassed_tagContent htag hitems).append hslash).cutTag_eq rest
  refine .markup (fun rest => ?_) hcut htoken
  rw [List.append_assoc]
  exact ofChars?_tagContent htag items _

theorem endToken_name : endToken tag = .endTag tag := by
  have hspace : ∀ c ∈ tag, isSpace c = false := fun c hc => (isNameChar_spec (htag.isNameChar hc)).1
  obtain ⟨front, last, hlast⟩ := (List.eq_nil_or_concat tag).resolve_left htag.1
  rw [List.concat_eq_append] at hlast
  have hend : isSpace last = false := hspace last (by simp [hlast])
  have hall : tag.all isSpace = false := by simp [hlast, hend]
  have hdrop : Text.dropEndWhile isSpace tag = tag := by
    rw [Text.dropEndWhile, hlast, List.reverse_concat, List.dropWhile_cons_of_neg (by simp [hend]),
      List.reverse_cons, List.reverse_reverse]
  rw [endToken, hall, if_neg Bool.false_ne_true, hdrop]

theorem scansTo_endTag : ScansTo ('<' :: ('/' :: tag ++ ['>'])) [.endTag tag] := by
  have hslash : IsPassed ['/'] := .singleton (by decide) (by decide)
  have htoken : Opening.endTag.token? ('/' :: tag) = .ok (some (.endTag tag)) := by
    rw [Opening.token?, List.drop_succ_cons, List.drop_zero, endToken_name htag]
  have hcut (rest : List Char) : Opening.endTag.cut ('/' :: tag ++ '>' :: rest) =
      some ('/' :: tag, rest) := (hslash.append htag.isPassed).cutTag_eq rest
  exact .markup (fun rest => rfl) hcut htoken

end

/-! ### Comments and character data -/

/-- Markup ends at the first `>` that closes it. -/
theorem cutWhere_first {closes : List Char → Bool} {seen cs : List Char}
    (hopen : ∀ a b, cs = a ++ '>' :: b → closes (a.reverse ++ seen) = false)
    (hclose : closes (cs.reverse ++ seen) = true) (rest : List Char) :
    cutWhere closes seen (cs ++ '>' :: rest) = some (seen.reverse ++ cs, rest) := by
  induction cs generalizing seen with
  | nil =>
    rw [List.reverse_nil, List.nil_append] at hclose
    rw [List.nil_append, cutWhere, hclose, List.append_nil]
    rfl
  | cons c cs ih =>
    have hstill : (c == '>' && closes seen) = false := by
      by_cases hc : c = '>'
      · have hseen : closes seen = false := hopen [] cs (by rw [hc]; rfl)
        rw [hseen, Bool.and_false]
      · rw [beq_eq_false_iff_ne.2 hc, Bool.false_and]
    rw [List.cons_append, cutWhere, hstill, if_neg Bool.false_ne_true, ih, List.reverse_cons,
      List.append_assoc, List.singleton_append]
    · intro a b hab
      simpa using hopen (c :: a) b (by rw [hab]; rfl)
    · simpa using hclose

/-- A word whose last character does not occur in `ds` does not reach into `ds`. -/
theorem infix_of_append_left {w cs ds : List Char} {x : Char} (hx : x ∉ ds)
    (h : w ++ [x] <:+: cs ++ ds) : w ++ [x] <:+: cs := by
  obtain ⟨s, t, hst⟩ := h
  rcases List.append_eq_append_iff.1 hst with ⟨rest, hcs, -⟩ | ⟨rest, hs, hds⟩
  · exact ⟨s, rest, hcs.symm⟩
  · rcases List.eq_nil_or_concat rest with rfl | ⟨front, y, rfl⟩
    · exact ⟨s, [], by rw [List.append_nil, hs, List.append_nil]⟩
    · rw [List.concat_eq_append, ← List.append_assoc, ← List.append_assoc] at hs
      obtain rfl : x = y := by simpa using (List.append_inj' hs rfl).2
      exact absurd (by rw [hds]; simp) hx

/-- A word whose first character does not occur in `cs` does not reach into `cs`. -/
theorem infix_of_append_right {w cs ds : List Char} {x : Char} (hx : x ∉ cs)
    (h : x :: w <:+: cs ++ ds) : x :: w <:+: ds := by
  obtain ⟨s, t, hst⟩ := h
  rw [List.append_assoc] at hst
  rcases List.append_eq_append_iff.1 hst with ⟨rest, hcs, hw⟩ | ⟨rest, -, hds⟩
  · cases rest with
    | nil => exact ⟨[], t, by simpa using hw⟩
    | cons y rest =>
      obtain rfl : x = y := by simpa using (List.cons.inj hw).1
      exact absurd (by rw [hcs]; simp) hx
  · exact ⟨rest, t, by rw [hds, List.append_assoc]⟩

theorem exists_of_isPrefixOf_reverse {a : List Char} {c : Char}
    (h : [c, c].isPrefixOf a.reverse = true) : ∃ front, a = front ++ [c, c] := by
  obtain ⟨rest, hrest⟩ := List.isPrefixOf_iff_prefix.1 h
  exact ⟨rest.reverse, by rw [← List.reverse_reverse a, ← hrest]; simp⟩

theorem scansTo_comment {cs : List Char} (h : ¬ "-->".toList <:+: cs) :
    ScansTo ('<' :: ("!--".toList ++ cs ++ "--".toList ++ ['>'])) [] := by
  have htoken : Opening.comment.token? ("!--".toList ++ cs ++ "--".toList) = .ok none := by
    rw [Opening.token?, if_pos]
    rw [List.append_assoc]
    exact List.isPrefixOf_iff_prefix.2 (List.prefix_append _ _)
  have hcut (rest : List Char) :
      Opening.comment.cut ("!--".toList ++ cs ++ "--".toList ++ '>' :: rest) =
        some ("!--".toList ++ cs ++ "--".toList, rest) := by
    refine cutWhere_first (fun a b hab => Bool.eq_false_iff.2 fun hclose => h ?_) ?_ rest
    · rw [List.append_nil] at hclose
      obtain ⟨hend, hlong⟩ := Bool.and_eq_true_iff.1 hclose
      obtain ⟨front, rfl⟩ := exists_of_isPrefixOf_reverse hend
      have hfront : 3 ≤ front.length := by simpa using hlong
      -- The dashes in front of the `>` are not those that open the comment.
      have hdrop := congrArg (List.drop 3) hab
      rw [List.append_assoc, List.append_assoc, List.drop_append_of_le_length hfront] at hdrop
      refine infix_of_append_left (x := '>') (w := ['-', '-']) (by decide : '>' ∉ "--".toList) ?_
      exact ⟨front.drop 3, b, by simpa using hdrop.symm⟩
    · simp
  exact .markup (fun rest => rfl) hcut htoken

theorem scansTo_characterData {cs : List Char} (h : ¬ "]]>".toList <:+: cs) :
    ScansTo ('<' :: ("![CDATA[".toList ++ cs ++ "]]".toList ++ ['>'])) [] := by
  have htoken : Opening.characterData.token? ("![CDATA[".toList ++ cs ++ "]]".toList) =
      .ok none := by
    rw [Opening.token?, if_pos]
    rw [List.append_assoc]
    exact List.isPrefixOf_iff_prefix.2 (List.prefix_append _ _)
  have hcut (rest : List Char) :
      Opening.characterData.cut ("![CDATA[".toList ++ cs ++ "]]".toList ++ '>' :: rest) =
        some ("![CDATA[".toList ++ cs ++ "]]".toList, rest) := by
    refine cutWhere_first (fun a b hab => Bool.eq_false_iff.2 fun hclose => h ?_) ?_ rest
    · rw [List.append_nil] at hclose
      obtain ⟨front, rfl⟩ := exists_of_isPrefixOf_reverse hclose
      have hwhole : "]]>".toList <:+: "![CDATA[".toList ++ (cs ++ "]]".toList) :=
        ⟨front, b, by rw [← List.append_assoc, hab]; simp⟩
      have hcs := infix_of_append_right (by decide : ']' ∉ "![CDATA[".toList) hwhole
      exact infix_of_append_left (w := [']', ']']) (by decide : '>' ∉ "]]".toList) hcs
    · simp
  exact .markup (fun rest => rfl) hcut htoken

/-! ### The tags of a content -/

/-- **Scanning a spelled content** gives its tags. -/
theorem Content.scansTo {c : Content} (h : c.IsSpelled) : ScansTo c.spelling c.tags := by
  induction c with
  | nil => exact .nil
  | text cs rest ih =>
    exact (ScansTo.text (notMem_escape (by decide) (by decide) cs)).append (ih h)
  | comment cs rest ih =>
    have hall := (scansTo_comment h.1).append (ih h.2)
    simpa [spelling, tags] using hall
  | characterData cs rest ih =>
    have hall := (scansTo_characterData h.1).append (ih h.2)
    simpa [spelling, tags] using hall
  | element tag items children rest ihc ihr =>
    obtain ⟨htag, hitems, hchildren, hrest⟩ := h
    have hall := (scansTo_startTag htag hitems).append
      ((ihc hchildren).append ((scansTo_endTag htag).append (ihr hrest)))
    simpa [spelling, tags] using hall
  | emptyElement tag items rest ih =>
    obtain ⟨htag, hitems, hrest⟩ := h
    have hall := (scansTo_emptyElement htag hitems).append (ih hrest)
    simpa [spelling, tags] using hall

end Markup

end ViewHolder
