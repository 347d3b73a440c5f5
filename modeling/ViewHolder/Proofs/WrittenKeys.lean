import Mathlib.Data.List.TakeWhile
import ViewHolder.Proofs.DocumentKeys

/-!
# Where keys are written

Every reader of statements leaves the end of the text that it has been given, and every key that it
finds stands in that text, at the place that the key knows: without quotes and spelled as it is, or
behind a quote.  So the keys of the statements of a text are written in the text.

## Main definitions

* `Toml.Spells` : characters that write the text of a key.
* `Toml.StandsIn` : a key is written in a text, at its place.
* `Toml.Finds`, `Toml.FindsKeys` : what has been read, and a reader, leaves the end of its text and
  finds keys that stand in it.

## Main results

* `Toml.findsKeys_readNode`, `Toml.findsKeys_readBare` : values and statements.
* `Toml.standsIn_of_statements?` : the keys of the statements of a text stand in it.
-/

namespace ViewHolder.Toml

/-! ### Places of keys -/

/-- Characters that write the text of a key. -/
inductive Spells : List Char → String → Prop
  /-- A text stands for itself if all its characters may stand in a key without quotes. -/
  | bare {part : List Char} (hne : part ≠ []) (hpart : ∀ c ∈ part, isBareKeyChar c = true) :
    Spells part (String.ofList part)
  /-- Any text may stand between quotes. -/
  | quoted {quote : Char} (hquote : isQuote quote = true) (part : List Char) (text : String) :
    Spells (quote :: part) text

/-- A key is written in a text, at its place. -/
def StandsIn (cs : List Char) (key : Key) : Prop :=
  ∃ before part after, cs = before ++ (part ++ after) ∧ key.span = spanOf (part ++ after) after ∧
    Spells part key.text

/-- What stands in the end of a text stands in the text. -/
theorem StandsIn.of_suffix {cs rest : List Char} {key : Key} (h : StandsIn rest key)
    (hrest : rest <:+ cs) : StandsIn cs key := by
  obtain ⟨before, part, after, rfl, hspan, hspells⟩ := h
  obtain ⟨front, rfl⟩ := hrest
  exact ⟨front ++ before, part, after, (List.append_assoc ..).symm, hspan, hspells⟩

/-- Reading a text up to an end of it finds some keys, all of which stand in the text. -/
structure Finds (cs rest : List Char) (keys : List Key) : Prop where
  /-- What is left is an end of the text. -/
  suffix : rest <:+ cs
  /-- The keys stand in the text. -/
  standsIn : ∀ key ∈ keys, StandsIn cs key

/-- A reader leaves the end of its text, and the keys in what it reads stand in this text. -/
def FindsKeys {α : Type} (keys : α → List Key) (read : Reader α) : Prop :=
  ∀ ⦃cs a rest⦄, read cs = some (a, rest) → Finds cs rest (keys a)

namespace Finds

variable {cs mid rest : List Char} {keys keys' : List Key}

theorem skip (h : rest <:+ cs) : Finds cs rest [] := ⟨h, List.forall_mem_nil _⟩

theorem append (h : Finds cs mid keys) (h' : Finds mid rest keys') :
    Finds cs rest (keys ++ keys') :=
  ⟨h'.suffix.trans h.suffix, List.forall_mem_append.2
    ⟨h.standsIn, fun key hkey => (h'.standsIn key hkey).of_suffix h.suffix⟩⟩

/-- What is passed in front adds no key. -/
theorem behind (h : Finds mid rest keys) (hmid : mid <:+ cs) : Finds cs rest keys :=
  (skip hmid).append h

/-- What is passed behind adds no key. -/
theorem before (h : Finds cs mid keys) (hrest : rest <:+ mid) : Finds cs rest keys :=
  ⟨hrest.trans h.suffix, h.standsIn⟩

theorem tail {c : Char} (h : Finds cs (c :: rest) keys) : Finds cs rest keys :=
  h.before (List.suffix_cons c rest)

theorem cons {c : Char} (h : Finds cs rest keys) : Finds (c :: cs) rest keys :=
  h.behind (List.suffix_cons c cs)

end Finds

section

variable {α : Type} {cs rest : List Char} {quote : Char} {escapes : Bool}

/-! ### Strings -/

theorem cutQuoted_suffix {body : List Char} (h : cutQuoted quote escapes cs = some (body, rest)) :
    rest <:+ cs := by
  fun_induction cutQuoted quote escapes cs generalizing body with
  | case1 => cases h
  | case2 cs =>
    cases h
    exact List.suffix_cons ..
  | case3 c e cs hc hescape ih =>
    obtain ⟨⟨b, r⟩, hcut, heq⟩ := Option.map_eq_some_iff.1 h
    cases heq
    exact (ih hcut).trans ((List.suffix_cons ..).trans (List.suffix_cons ..))
  | case4 c cs hc _ ih =>
    obtain ⟨⟨b, r⟩, hcut, heq⟩ := Option.map_eq_some_iff.1 h
    cases heq
    exact (ih hcut).trans (List.suffix_cons ..)

theorem cutTriple_suffix {body : List Char} (h : cutTriple quote escapes cs = some (body, rest)) :
    rest <:+ cs := by
  fun_induction cutTriple quote escapes cs generalizing body with
  | case1 => cases h
  | case2 c cs =>
    cases h
    exact (List.drop_suffix ..).trans (List.suffix_cons ..)
  | case3 c e cs hc hescape ih =>
    obtain ⟨⟨b, r⟩, hcut, heq⟩ := Option.map_eq_some_iff.1 h
    cases heq
    exact (ih hcut).trans ((List.suffix_cons ..).trans (List.suffix_cons ..))
  | case4 c cs hc _ ih =>
    obtain ⟨⟨b, r⟩, hcut, heq⟩ := Option.map_eq_some_iff.1 h
    cases heq
    exact (ih hcut).trans (List.suffix_cons ..)

theorem readQuoted_suffix {s : String} (h : readQuoted quote cs = some (s, rest)) :
    rest <:+ cs := by
  rw [readQuoted] at h
  split at h
  · rename_i body r hcut
    split at h
    · obtain ⟨t, -, heq⟩ := Option.map_eq_some_iff.1 h
      cases heq
      exact cutQuoted_suffix hcut
    · cases h
  · cases h

theorem readTriple_suffix {s : String} (h : readTriple quote cs = some (s, rest)) :
    rest <:+ cs := by
  rw [readTriple] at h
  split at h
  · rename_i body r hcut
    split at h
    case h_3 => cases h
    all_goals
      obtain ⟨t, -, heq⟩ := Option.map_eq_some_iff.1 h
      cases heq
      exact cutTriple_suffix hcut
  · cases h

theorem readString_suffix {s : String} (h : readString quote cs = some (s, rest)) :
    rest <:+ cs := by
  rw [readString.eq_def] at h
  split at h
  · split at h
    · exact (readTriple_suffix h).trans ((List.suffix_cons ..).trans (List.suffix_cons ..))
    · exact readQuoted_suffix h
  · exact readQuoted_suffix h

/-! ### Keys -/

theorem findsKeys_readKey : FindsKeys (fun key => [key]) readKey := by
  intro cs key rest h
  cases cs with
  | nil => cases h
  | cons c cs =>
    rw [readKey] at h
    split at h
    · rename_i hquote
      obtain ⟨⟨s, r⟩, hread, heq⟩ := Option.map_eq_some_iff.1 h
      cases heq
      obtain ⟨body, rfl⟩ := readQuoted_suffix hread
      refine ⟨List.suffix_append (c :: body) rest, List.forall_mem_singleton.2 ?_⟩
      exact ⟨[], c :: body, rest, rfl, rfl, .quoted hquote body s⟩
    · split at h
      · rename_i hbare
        cases h
        have hwhole : c :: cs =
            (c :: cs.takeWhile isBareKeyChar) ++ cs.dropWhile isBareKeyChar := by
          rw [List.cons_append, List.takeWhile_append_dropWhile]
        refine ⟨⟨_, hwhole.symm⟩, List.forall_mem_singleton.2 ?_⟩
        refine ⟨[], c :: cs.takeWhile isBareKeyChar, cs.dropWhile isBareKeyChar, hwhole,
          by rw [← hwhole], .bare (List.cons_ne_nil _ _) ?_⟩
        exact List.forall_mem_cons.2 ⟨hbare, fun d hd => List.mem_takeWhile_imp hd⟩
      · cases h

theorem findsKeys_readKeys (n : Nat) : FindsKeys (fun name => name.1 ++ [name.2]) (readKeys n) := by
  induction n with
  | zero =>
    intro cs name rest h
    cases h
  | succ n ih =>
    intro cs name rest h
    rw [readKeys] at h
    split at h
    · cases h
    · rename_i key r hread
      have hkey : Finds cs (r.dropWhile isBlank) [key] :=
        ((findsKeys_readKey hread).behind (List.dropWhile_suffix _)).before
          (List.dropWhile_suffix _)
      split at h
      · rename_i more hdot
        obtain ⟨⟨⟨path, last⟩, r'⟩, hmore, heq⟩ := Option.map_eq_some_iff.1 h
        cases heq
        rw [hdot] at hkey
        exact hkey.tail.append (ih hmore)
      · cases h
        exact hkey

/-! ### Values without items -/

theorem dropTime_suffix (cs : List Char) : dropTime cs <:+ cs := by
  rw [dropTime.eq_def]
  split
  · split
    · exact (List.dropWhile_suffix _).trans (List.suffix_cons ..)
    · exact List.suffix_rfl
  · exact List.suffix_rfl

theorem keys_eq_nil_of_wordValue? {word : List Char} {value : Value}
    (h : wordValue? word = some value) : value.keys = [] := by
  rw [wordValue?] at h
  split at h
  · cases h
    rfl
  split at h
  · cases h
    rfl
  split at h
  · cases h
    rfl
  split at h
  · cases h
    rfl
  · obtain ⟨n, -, rfl⟩ := Option.map_eq_some_iff.1 h
    rfl

theorem findsKeys_readWord : FindsKeys Value.keys readWord := by
  intro cs value rest h
  obtain ⟨v, hvalue, heq⟩ := Option.map_eq_some_iff.1 h
  cases heq
  rw [keys_eq_nil_of_wordValue? hvalue]
  have hword : afterWord cs <:+ cs := List.dropWhile_suffix _
  refine Finds.skip ?_
  split
  · exact (dropTime_suffix _).trans hword
  · exact hword

/-! ### Values with items -/

theorem dropGaps_suffix (comment : Bool) (cs : List Char) : dropGaps comment cs <:+ cs := by
  fun_induction dropGaps comment cs with
  | case1 => exact List.suffix_rfl
  | case2 comment cs ih => exact ih.trans ((List.suffix_cons ..).trans (List.suffix_cons ..))
  | case5 | case8 => exact List.suffix_rfl
  | case3 | case4 | case6 | case7 =>
    rename_i ih
    exact ih.trans (List.suffix_cons ..)

/-- The keys of an entry: those of its dotted name, and those in its value. -/
def entryKeys (entry : List Key × Key × Node) : List Key :=
  entry.1 ++ entry.2.1 :: entry.2.2.value.keys

section

variable {item : Reader Node} (hitem : FindsKeys (fun node => node.value.keys) item)
include hitem

theorem findsKeys_readItems (n : Nat) :
    FindsKeys (fun nodes : List Node => nodes.flatMap fun node => node.value.keys)
      (readItems item n) := by
  induction n with
  | zero =>
    intro cs nodes rest h
    cases h
  | succ n ih =>
    intro cs nodes rest h
    rw [readItems] at h
    have hstart := dropGaps_suffix false cs
    split at h
    · rename_i r hclose
      cases h
      exact (Finds.skip (hclose ▸ hstart)).tail
    · split at h
      · cases h
      · rename_i node r hread
        have hnode : Finds cs (dropGaps false r) node.value.keys :=
          ((hitem hread).behind hstart).before (dropGaps_suffix false r)
        split at h
        · rename_i r' hclose
          cases h
          rw [hclose] at hnode
          simpa only [List.flatMap_singleton] using hnode.tail
        · rename_i r' hcomma
          obtain ⟨⟨nodes, r''⟩, hmore, heq⟩ := Option.map_eq_some_iff.1 h
          cases heq
          rw [hcomma] at hnode
          simpa only [List.flatMap_cons] using hnode.tail.append (ih hmore)
        · cases h

theorem findsKeys_readEntry : FindsKeys entryKeys (readEntry item) := by
  intro cs entry rest h
  rw [readEntry] at h
  split at h
  · rename_i path key r hname
    obtain ⟨⟨node, r'⟩, hread, heq⟩ := Option.map_eq_some_iff.1 h
    cases heq
    have hvalue := (hitem hread).behind (List.dropWhile_suffix isBlank)
    have hentry := (findsKeys_readKeys _ hname).tail.append hvalue
    rwa [List.append_assoc, List.singleton_append] at hentry
  · cases h

theorem findsKeys_readEntries (n : Nat) :
    FindsKeys (fun entries => entries.flatMap entryKeys) (readEntries item n) := by
  induction n with
  | zero =>
    intro cs entries rest h
    cases h
  | succ n ih =>
    intro cs entries rest h
    rw [readEntries] at h
    split at h
    · cases h
    · rename_i entry r hread
      have hentry : Finds cs (r.dropWhile isBlank) (entryKeys entry) :=
        (findsKeys_readEntry hitem hread).before (List.dropWhile_suffix _)
      split at h
      · rename_i r' hclose
        cases h
        rw [hclose] at hentry
        simpa only [List.flatMap_singleton] using hentry.tail
      · rename_i r' hcomma
        obtain ⟨⟨entries, r''⟩, hmore, heq⟩ := Option.map_eq_some_iff.1 h
        cases heq
        rw [hcomma] at hentry
        simpa only [List.flatMap_cons] using hentry.tail.append (ih hmore)
      · cases h

omit hitem in
/-- The keys of a table between braces are those of its entries. -/
theorem all_membersOf {P : Key → Prop} {entries : List (List Key × Key × Node)}
    (hentries : ∀ k ∈ entries.flatMap entryKeys, P k) {members : Members}
    (h : membersOf entries = some members) : Members.All P members := by
  refine invariant_of_foldlM (fun entry hmem ms ms' hadd hms => ?_) h Members.all_nil
  have hkeys (k) (hk : k ∈ entryKeys entry) : P k :=
    hentries k (List.mem_flatMap.2 ⟨entry, hmem, hk⟩)
  obtain ⟨hpath, hrest⟩ := List.forall_mem_append.1 hkeys
  obtain ⟨hkey, hnode⟩ := List.forall_mem_cons.1 hrest
  exact all_addValue hpath hkey hnode hms hadd

theorem findsKeys_readArray : FindsKeys Value.keys (readArray item) := by
  intro cs value rest h
  obtain ⟨⟨nodes, r⟩, hitems, heq⟩ := Option.map_eq_some_iff.1 h
  cases heq
  rw [Value.keys_array]
  exact findsKeys_readItems hitem _ hitems

theorem findsKeys_readBraces : FindsKeys Value.keys (readBraces item) := by
  intro cs value rest h
  rw [readBraces] at h
  have hstart : cs.dropWhile isBlank <:+ cs := List.dropWhile_suffix _
  split at h
  · rename_i r hclose
    cases h
    rw [Value.keys_table]
    exact (Finds.skip (hclose ▸ hstart)).tail
  · split at h
    · cases h
    · rename_i entries r hentries
      obtain ⟨members, hmembers, heq⟩ := Option.map_eq_some_iff.1 h
      cases heq
      have hread := (findsKeys_readEntries hitem _ hentries).behind hstart
      refine ⟨hread.suffix, ?_⟩
      rw [Value.keys_table]
      exact all_membersOf hread.standsIn hmembers

end

theorem findsKeys_readValueWith {item : Option (Reader Node)}
    (hitem : ∀ read ∈ item, FindsKeys (fun node => node.value.keys) read) :
    FindsKeys Value.keys (readValueWith item) := by
  intro cs value rest h
  rw [readValueWith.eq_def] at h
  split at h
  case h_1 cs =>
    obtain ⟨read, hread, harray⟩ := Option.bind_eq_some_iff.1 h
    exact (findsKeys_readArray (hitem read hread) harray).cons
  case h_2 cs =>
    obtain ⟨read, hread, hbraces⟩ := Option.bind_eq_some_iff.1 h
    exact (findsKeys_readBraces (hitem read hread) hbraces).cons
  case h_5 => exact findsKeys_readWord h
  all_goals
    obtain ⟨⟨s, r⟩, hread, heq⟩ := Option.map_eq_some_iff.1 h
    cases heq
    exact (Finds.skip (readString_suffix hread)).cons

theorem findsKeys_readNodeWith {item : Option (Reader Node)}
    (hitem : ∀ read ∈ item, FindsKeys (fun node => node.value.keys) read) :
    FindsKeys (fun node => node.value.keys) (readNodeWith item) := by
  intro cs node rest h
  obtain ⟨⟨value, r⟩, hread, heq⟩ := Option.map_eq_some_iff.1 h
  cases heq
  exact findsKeys_readValueWith hitem hread

/-- The keys in a value stand in the text that it has been read from. -/
theorem findsKeys_readNode (depth : Nat) :
    FindsKeys (fun node => node.value.keys) (readNode depth) := by
  induction depth with
  | zero => exact findsKeys_readNodeWith (by simp)
  | succ depth ih => exact findsKeys_readNodeWith (by simpa using ih)

/-! ### Statements -/

theorem dropLineEnd?_suffix (h : dropLineEnd? cs = some rest) : rest <:+ cs := by
  rw [dropLineEnd?.eq_def] at h
  split at h
  · cases h
    exact List.suffix_rfl
  · cases h
    exact List.suffix_cons ..
  · cases h
    exact (List.suffix_cons ..).trans (List.suffix_cons ..)
  · cases h

theorem dropLine?_suffix (h : dropLine? cs = some rest) : rest <:+ cs := by
  rw [dropLine?] at h
  have hblank : cs.dropWhile isBlank <:+ cs := List.dropWhile_suffix _
  split at h
  · rename_i comment hcomment
    have hplain := (dropLineEnd?_suffix h).trans (List.dropWhile_suffix _)
    exact hplain.trans ((List.suffix_cons ..).trans (hcomment ▸ hblank))
  · exact (dropLineEnd?_suffix h).trans hblank

theorem findsKeys_readHeader (double : Bool) (start : List Char) :
    FindsKeys Statement.keys (readHeader double start) := by
  intro cs statement rest h
  rw [readHeader] at h
  split at h
  · cases h
  · rename_i path key r hname
    have hkeys := findsKeys_readKeys _ hname
    split at h
    · cases h
      exact hkeys.tail.tail
    · cases h
      exact hkeys.tail
    · cases h

theorem findsKeys_readBare : FindsKeys Statement.keys readBare := by
  intro start statement rest h
  rw [readBare.eq_def] at h
  split at h
  · exact (findsKeys_readHeader _ _ h).cons.cons
  · exact (findsKeys_readHeader _ _ h).cons
  · obtain ⟨⟨⟨path, key, node⟩, r⟩, hentry, heq⟩ := Option.map_eq_some_iff.1 h
    cases heq
    exact findsKeys_readEntry (findsKeys_readNode _) hentry

theorem findsKeys_readStatement :
    FindsKeys (fun statement => statement.toList.flatMap Statement.keys) readStatement := by
  intro cs statement rest h
  rw [readStatement] at h
  split at h
  · rename_i r hline
    cases h
    exact .skip (dropLine?_suffix hline)
  · split at h
    · cases h
    · rename_i s r hread
      obtain ⟨r', hline, heq⟩ := Option.map_eq_some_iff.1 h
      cases heq
      simp only [Option.toList_some, List.flatMap_singleton]
      exact ((findsKeys_readBare hread).behind (List.dropWhile_suffix _)).before
        (dropLine?_suffix hline)

theorem standsIn_of_readStatements {n : Nat} {statements : List Statement}
    (h : readStatements n cs = some statements) :
    ∀ key ∈ statements.flatMap Statement.keys, StandsIn cs key := by
  induction n generalizing cs statements with
  | zero =>
    cases cs with
    | nil =>
      cases h
      exact List.forall_mem_nil _
    | cons c cs => cases h
  | succ n ih =>
    cases cs with
    | nil =>
      cases h
      exact List.forall_mem_nil _
    | cons c cs =>
      rw [readStatements] at h
      split at h
      · cases h
      · rename_i s r hread
        obtain ⟨more, hmore, rfl⟩ := Option.map_eq_some_iff.1 h
        have hfirst := findsKeys_readStatement hread
        rw [List.flatMap_append]
        exact (hfirst.append ⟨List.suffix_rfl, ih hmore⟩).standsIn

/-- **The keys of the statements of a text** stand in the text. -/
theorem standsIn_of_statements? {statements : List Statement}
    (h : statements? cs = some statements) :
    ∀ key ∈ statements.flatMap Statement.keys, StandsIn cs key := by
  rw [statements?.eq_def] at h
  split at h
  · exact fun k hk => (standsIn_of_readStatements h k hk).of_suffix (List.suffix_cons ..)
  · exact standsIn_of_readStatements h

end

end ViewHolder.Toml
