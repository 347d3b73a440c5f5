import Mathlib.Data.Nat.Find
import ViewHolder.Proofs.ElementTree
import ViewHolder.Proofs.Path
import ViewHolder.Proofs.StrayKeys
import ViewHolder.Proofs.WrittenKeys
import ViewHolder.Toml.Report

/-!
# The lines of warnings

A warning about a key names the first line of the text on which the key occurs, be it as a key, as a
piece of another key, in a value, or in a comment.  Without quotes, a key always occurs on the line
where it is written; so the line of the warning is there, it is not behind the first line where the
key is written, and it is that line exactly if the key does not occur on any line before it.

## Main definitions

* `Toml.writtenKeys` : the keys that the statements of a text write.
* `HoldsOn` : a line of a text contains a name.
* `WritesKey` : a key is written on a line of a text.
* `SettingsWarning.PointsAt` : what the line of a warning has to do with its key.

## Main results

* `isLeast_lineOf?` : the line of a name is the first one that contains it.
* `WritesKey.holdsOn` : a line on which a key is written contains it.
* `Settings.warnings_point` : the lines of the warnings about a text.
* `Settings.warning_line_of_comment` : lines on which the keys are not written.
-/

namespace ViewHolder

/-! ### Bytes in front of a place -/

namespace Text

theorem byteSize_cons (c : Char) (cs : List Char) : byteSize (c :: cs) = c.utf8Size + byteSize cs :=
  (byteSize_append [c] cs).trans (by simp [byteSize])

theorem utf8ByteSize_eq (s : String) : s.utf8ByteSize = byteSize s.toList := by
  have hlist (cs : List Char) : (String.ofList cs).utf8ByteSize = byteSize cs := by
    induction cs with
    | nil => rfl
    | cons c cs ih =>
      rw [String.ofList_cons, String.utf8ByteSize_append, ih, String.utf8ByteSize_singleton,
        byteSize_cons]
  rw [← hlist, String.ofList_toList]

theorem cutBytes_byteSize (before rest : List Char) :
    cutBytes (byteSize before) (before ++ rest) = (before, rest) := by
  induction before with
  | nil => cases rest <;> rfl
  | cons c before ih =>
    have hpos : byteSize (c :: before) ≠ 0 := by
      have := c.utf8Size_pos
      rw [byteSize_cons]
      omega
    rw [List.cons_append, cutBytes, if_neg hpos, byteSize_cons, Nat.add_sub_cancel_left, ih]

end Text

/-- The text in front of a place that is given by the size of the rest. -/
theorem cutBytes_sub {text : String} {before rest : List Char} (h : text.toList = before ++ rest) :
    Text.cutBytes (text.utf8ByteSize - Text.byteSize rest) text.toList = (before, rest) := by
  rw [Text.utf8ByteSize_eq, h, Text.byteSize_append, Nat.add_sub_cancel, Text.cutBytes_byteSize]

/-! ### Lines that contain a name -/

/-- The line of the given number contains a name; lines are counted from one on. -/
def HoldsOn (text name : String) (n : Nat) : Prop :=
  ∃ i line, (Text.lines text.toList)[i]? = some line ∧ name.toList <:+: line ∧ n = i + 1

theorem containsPiece_iff {piece cs : List Char} :
    containsPiece piece cs = true ↔ piece <:+: cs := by
  induction cs with
  | nil => rw [containsPiece, List.isEmpty_iff, List.infix_nil]
  | cons c cs ih =>
    rw [containsPiece, Bool.or_eq_true, List.isPrefixOf_iff_prefix, ih, List.infix_cons_iff]

/-- **The line of a name** is the first one that contains it. -/
theorem isLeast_lineOf? {text name : String} {m : Nat} :
    lineOf? text name = some m ↔ IsLeast {n | HoldsOn text name n} m := by
  have hholds (i : Nat) (hi : i < (Text.lines text.toList).length) :
      HoldsOn text name (i + 1) ↔ containsPiece name.toList (Text.lines text.toList)[i] = true := by
    rw [containsPiece_iff]
    refine ⟨?_, fun h => ⟨i, _, List.getElem?_eq_getElem hi, h, rfl⟩⟩
    rintro ⟨j, line, hline, hname, hj⟩
    obtain rfl := Nat.succ.inj hj
    obtain ⟨_, rfl⟩ := List.getElem?_eq_some_iff.1 hline
    exact hname
  rw [lineOf?, Option.map_eq_some_iff]
  simp only [List.findIdx?_eq_some_iff_getElem]
  constructor
  · rintro ⟨i, ⟨hi, hfound, hbefore⟩, rfl⟩
    refine ⟨(hholds i hi).2 hfound, ?_⟩
    rintro n ⟨j, line, hline, hname, rfl⟩
    by_contra hlt
    have hji : j < i := by omega
    exact hbefore j hji ((hholds j (hji.trans hi)).1 ⟨j, line, hline, hname, rfl⟩)
  · rintro ⟨⟨i, line, hline, hname, rfl⟩, hleast⟩
    obtain ⟨hi, -⟩ := List.getElem?_eq_some_iff.1 hline
    refine ⟨i, ⟨hi, (hholds i hi).1 ⟨i, line, hline, hname, rfl⟩, fun j hj hcontains => ?_⟩, rfl⟩
    have hle := hleast ((hholds j (hj.trans hi)).2 hcontains)
    omega

/-! ### The line of a place -/

namespace Text

/-- A part without separators lies within one of the pieces: the one with as many pieces before it
as there are separators before the part. -/
theorem exists_piece {sep : Char → Bool} {part : List Char} (hpart : ∀ c ∈ part, sep c = false)
    (before after : List Char) :
    ∃ piece, (pieces sep (before ++ (part ++ after)))[before.countP sep]? = some piece ∧
      part <:+: piece := by
  induction before with
  | nil =>
    have hfirst : ∃ piece more, pieces sep (part ++ after) = piece :: more ∧ part <+: piece := by
      induction part with
      | nil =>
        obtain ⟨piece, more, hpieces⟩ := List.exists_cons_of_ne_nil (pieces_ne_nil sep after)
        exact ⟨piece, more, hpieces, List.nil_prefix⟩
      | cons c part ih =>
        obtain ⟨hc, hpart⟩ := List.forall_mem_cons.1 hpart
        obtain ⟨piece, more, hpieces, hprefix⟩ := ih hpart
        refine ⟨c :: piece, more, ?_, List.cons_prefix_cons.2 ⟨rfl, hprefix⟩⟩
        rw [List.cons_append, pieces, if_neg (by simp [hc]), hpieces]
    obtain ⟨piece, more, hpieces, hprefix⟩ := hfirst
    exact ⟨piece, by rw [List.nil_append, hpieces]; rfl, hprefix.isInfix⟩
  | cons c before ih =>
    obtain ⟨piece, hpiece, hinfix⟩ := ih
    rw [List.cons_append, pieces]
    by_cases hc : sep c = true
    · rw [if_pos hc, List.countP_cons_of_pos hc, List.getElem?_cons_succ]
      exact ⟨piece, hpiece, hinfix⟩
    · rw [if_neg hc, List.countP_cons_of_neg hc]
      obtain ⟨first, more, hpieces⟩ :=
        List.exists_cons_of_ne_nil (pieces_ne_nil sep (before ++ (part ++ after)))
      rw [hpieces] at hpiece ⊢
      cases hcount : before.countP sep with
      | zero =>
        rw [hcount] at hpiece
        cases hpiece
        exact ⟨c :: piece, rfl, List.infix_cons hinfix⟩
      | succ n =>
        rw [hcount] at hpiece
        exact ⟨piece, hpiece, hinfix⟩

/-- A part that does not end in a carriage return lies within a line without the carriage return at
its end. -/
theorem infix_dropReturn {part line : List Char} (hne : part ≠ []) (hreturn : '\r' ∉ part)
    (h : part <:+: line) : part <:+: dropReturn line := by
  rw [dropReturn]
  split
  · rename_i hlast
    obtain ⟨front, back, rfl⟩ := h
    rcases List.eq_nil_or_concat back with rfl | ⟨back, c, rfl⟩
    · rw [List.append_nil, List.getLast?_append_of_ne_nil _ hne] at hlast
      exact absurd (List.mem_of_getLast? hlast) hreturn
    · rw [List.concat_eq_append, ← List.append_assoc, List.dropLast_concat]
      exact ⟨front, back, rfl⟩
  · exact h

/-- A part of a text without line ends lies on the line that has as many lines before it as there
are line ends before the part. -/
theorem exists_line {part : List Char} (hne : part ≠ []) (hend : '\n' ∉ part)
    (hreturn : '\r' ∉ part) (before after : List Char) :
    ∃ line, (lines (before ++ (part ++ after)))[before.countP isLineEnd]? = some line ∧
      part <:+: line := by
  have hpart : ∀ c ∈ part, isLineEnd c = false := fun c hc =>
    beq_eq_false_iff_ne.2 fun heq => hend (heq ▸ hc)
  obtain ⟨piece, hpiece, hinfix⟩ := exists_piece hpart before after
  refine ⟨dropReturn piece, ?_, infix_dropReturn hne hreturn hinfix⟩
  rw [lines, List.getElem?_map]
  -- The piece after the last line end begins no line if it is empty, and this one is not empty.
  have hkept : (if (pieces isLineEnd (before ++ (part ++ after))).getLast? = some [] then
      (pieces isLineEnd (before ++ (part ++ after))).dropLast
    else pieces isLineEnd (before ++ (part ++ after)))[before.countP isLineEnd]? = some piece := by
    split
    · rename_i hlast
      rw [List.getElem?_dropLast, if_pos, hpiece]
      obtain ⟨hlt, -⟩ := List.getElem?_eq_some_iff.1 hpiece
      by_contra hnot
      have hindex : before.countP isLineEnd =
          (pieces isLineEnd (before ++ (part ++ after))).length - 1 := by omega
      rw [hindex, ← List.getLast?_eq_getElem?, hlast] at hpiece
      cases hpiece
      exact hne (List.infix_nil.1 hinfix)
    · exact hpiece
  rw [hkept, Option.map_some]

end Text

/-! ### Keys on lines -/

namespace Toml

/-- The keys that the statements of a text write. -/
def writtenKeys (text : String) : List Key :=
  ((statements? text.toList).getD []).flatMap Statement.keys

/-- Whether a key of a text stands between quotes. -/
def Key.isQuotedIn (text : String) (key : Key) : Bool :=
  (Text.cutBytes (text.utf8ByteSize - key.span.left) text.toList).2.head?.any isQuote

/-- The number of the line of a text on which a key begins. -/
def Key.lineIn (text : String) (key : Key) : Nat := (Excerpt.ofSpan text key.span).line

/-- A key without quotes that stands in a text is spelled as it is. -/
theorem StandsIn.exists_bare {text : String} {key : Key} (h : StandsIn text.toList key)
    (hbare : key.isQuotedIn text = false) :
    ∃ before after, text.toList = before ++ (key.text.toList ++ after) ∧
      key.lineIn text = before.countP Text.isLineEnd + 1 ∧ key.text.toList ≠ [] ∧
      ∀ c ∈ key.text.toList, isBareKeyChar c = true := by
  obtain ⟨before, part, after, htext, hspan, hspells⟩ := h
  have hcut := cutBytes_sub htext
  have hleft : key.span.left = Text.byteSize (part ++ after) := by rw [hspan, spanOf]
  generalize hkey : key.text = name at hspells
  cases hspells with
  | quoted hquote part name =>
    rw [Key.isQuotedIn, hleft, hcut, List.cons_append, List.head?_cons, Option.any_some,
      hquote] at hbare
    cases hbare
  | bare hne hpart =>
    rw [String.toList_ofList]
    refine ⟨before, after, htext, ?_, hne, hpart⟩
    rw [Key.lineIn, Excerpt.ofSpan, hleft, hcut]

theorem standsIn_of_mem_writtenKeys {text : String} {key : Key} (h : key ∈ writtenKeys text) :
    StandsIn text.toList key := by
  rw [writtenKeys] at h
  cases hstatements : statements? text.toList with
  | none => rw [hstatements] at h; cases h
  | some statements =>
    rw [hstatements] at h
    exact standsIn_of_statements? hstatements key h

/-- The keys of a document are written in its text. -/
theorem mem_writtenKeys_of_document? {text : String} {members : Members}
    (h : document? text = some members) : ∀ key ∈ members.keys, key ∈ writtenKeys text := by
  rw [document?] at h
  cases hstatements : statements? text.toList with
  | none => rw [hstatements] at h; cases h
  | some statements =>
    rw [hstatements] at h
    rw [writtenKeys, hstatements]
    exact mem_keys_of_build h

end Toml

/-- A key with the given text is written without quotes on the line of the given number. -/
def WritesKey (text name : String) (n : Nat) : Prop :=
  ∃ key ∈ Toml.writtenKeys text,
    key.text = name ∧ key.isQuotedIn text = false ∧ key.lineIn text = n

instance (text name : String) (n : Nat) : Decidable (WritesKey text name n) :=
  inferInstanceAs (Decidable (∃ key ∈ Toml.writtenKeys text, _))

/-- A line on which a key is written contains it. -/
theorem WritesKey.holdsOn {text name : String} {n : Nat} (h : WritesKey text name n) :
    HoldsOn text name n := by
  obtain ⟨key, hmem, rfl, hbare, rfl⟩ := h
  obtain ⟨before, after, htext, hline, hne, hpart⟩ :=
    (Toml.standsIn_of_mem_writtenKeys hmem).exists_bare hbare
  have hnotMem (c : Char) (hc : Toml.isBareKeyChar c = false) : c ∉ key.text.toList :=
    fun hmem => Bool.false_ne_true (hc.symm.trans (hpart c hmem))
  obtain ⟨line, hfound, hinfix⟩ :=
    Text.exists_line hne (hnotMem '\n' rfl) (hnotMem '\r' rfl) before after
  exact ⟨_, line, htext ▸ hfound, hinfix, hline⟩

/-! ### Lines of warnings -/

/-- Every key that is no setting is a key of the document. -/
theorem mem_keys_of_mem_strays {members : Toml.Members} {table : SettingsTable} {key : Toml.Key}
    (h : Stray.key table key ∈ strays members) : key ∈ members.keys := by
  obtain ⟨m, hm, hstray⟩ := List.mem_flatMap.1 h
  refine List.mem_flatMap.2 ⟨m, hm, ?_⟩
  split at hstray
  · refine List.mem_cons_of_mem _ ?_
    obtain ⟨k, span, value⟩ := m
    cases value with
    | table origin inner =>
      obtain ⟨m', hm', -, heq⟩ := mem_straysOf.1 hstray
      cases heq
      rw [Toml.Value.keys_table]
      exact List.mem_flatMap.2 ⟨m', hm', List.mem_cons_self⟩
    | moment => cases List.mem_singleton.1 hstray
    | _ => cases hstray
  · obtain ⟨m', hm', -, heq⟩ := mem_straysOf.1 hstray
    cases heq
    cases List.mem_singleton.1 hm'
    exact List.mem_cons_self

theorem lastPart_eq_self {name : String} (h : '.' ∉ name.toList) : lastPart name = name := by
  have hnone : ∀ c ∈ name.toList.reverse, (c != '.') = true := fun c hc =>
    bne_iff_ne.2 fun heq => h (heq ▸ List.mem_reverse.1 hc)
  rw [lastPart, List.takeWhile_eq_self_iff.2 hnone, List.reverse_reverse, String.ofList_toList]

/-- What the line of a warning about a stray has to do with the stray. -/
structure SettingsWarning.PointsAt (text : String) (w : SettingsWarning) (stray : Stray) :
    Prop where
  /-- The line is the first one that contains the key, in whatever place. -/
  line_iff : ∀ m, w.line = some m ↔ IsLeast {n | HoldsOn text w.key n} m
  /-- A key without quotes has a line, which is not behind the first line where the key is written;
  the key is written on the line if no earlier line than that one contains it. -/
  of_key : ∀ table key, stray = .key table key → key.isQuotedIn text = false →
    w.key = key.text ∧ ∃ n m, IsLeast {n | WritesKey text w.key n} n ∧ w.line = some m ∧ m ≤ n ∧
      (WritesKey text w.key m ↔ ∀ k < n, ¬ HoldsOn text w.key k)

/-- A name that is written on some line of a text has a line, which may come before. -/
theorem exists_line_of_writesKey {text name : String} {k : Nat} (h : WritesKey text name k) :
    ∃ n m, IsLeast {n | WritesKey text name n} n ∧ IsLeast {n | HoldsOn text name n} m ∧ m ≤ n ∧
      (WritesKey text name m ↔ ∀ k < n, ¬ HoldsOn text name k) := by
  classical
  have hwritten : ∃ n, WritesKey text name n := ⟨k, h⟩
  have hheld : ∃ n, HoldsOn text name n := ⟨k, h.holdsOn⟩
  have hn : IsLeast {n | WritesKey text name n} (Nat.find hwritten) :=
    ⟨Nat.find_spec hwritten, fun _ => Nat.find_min' hwritten⟩
  have hm : IsLeast {n | HoldsOn text name n} (Nat.find hheld) :=
    ⟨Nat.find_spec hheld, fun _ => Nat.find_min' hheld⟩
  have hmn : Nat.find hheld ≤ Nat.find hwritten := hm.2 (WritesKey.holdsOn hn.1)
  refine ⟨_, _, hn, hm, hmn, fun hwrites k hk hholds => ?_, fun hnone => ?_⟩
  · exact absurd hk (((hn.2 hwrites).trans (hm.2 hholds)).not_gt)
  · have heq : Nat.find hheld = Nat.find hwritten :=
      hmn.antisymm (not_lt.1 fun hlt => hnone _ hlt hm.1)
    rw [heq]
    exact hn.1

theorem SettingsWarning.pointsAt_ofName {file : Path} {text : String} {members : Toml.Members}
    (hdocument : Toml.document? text = some members) {stray : Stray} (h : stray ∈ strays members) :
    (SettingsWarning.ofName file text stray.name).PointsAt text stray := by
  have hkey : (ofName file text stray.name).key = lastPart stray.name := by rw [ofName]
  have hline : (ofName file text stray.name).line = lineOf? text (lastPart stray.name) := by
    rw [ofName]
  refine ⟨fun m => by rw [hline, hkey, isLeast_lineOf?], ?_⟩
  rintro table key rfl hbare
  have hwritten := Toml.mem_writtenKeys_of_document? hdocument key (mem_keys_of_mem_strays h)
  obtain ⟨before, after, -, -, -, hpart⟩ :=
    (Toml.standsIn_of_mem_writtenKeys hwritten).exists_bare hbare
  have hname : lastPart (Stray.key table key).name = key.text :=
    lastPart_eq_self fun hdot => absurd (hpart '.' hdot) (by decide)
  obtain ⟨n, m, hn, hm, hle, hiff⟩ :=
    exists_line_of_writesKey ⟨key, hwritten, rfl, hbare, rfl⟩
  rw [hline, hkey, hname]
  exact ⟨rfl, n, m, hn, isLeast_lineOf?.2 hm, hle, hiff⟩

/-- **The lines of warnings.**  There is a warning about every key that is no setting, in order, and
its line is the first one that contains the key.  If the key is written without quotes, there is
such a line, and it is the first line where the key is written if and only if the key does not
occur, as a piece of another key, in a value or in a comment, on any line before that one. -/
theorem Settings.warnings_point {file : Path} {text : String} {s : Settings}
    {warnings : List SettingsWarning} (h : Settings.parse file text = .ok (s, warnings)) :
    ∃ members, Toml.document? text = some members ∧
      List.Forall₂ (SettingsWarning.PointsAt text) warnings (strays members) := by
  obtain ⟨members, hdocument, rfl⟩ := Settings.parse_warnings h
  refine ⟨members, hdocument, List.forall₂_map_left_iff.2 (List.forall₂_same.2 fun stray hs => ?_)⟩
  exact SettingsWarning.pointsAt_ofName hdocument hs

/-- A text with a key that no line before it contains, and with one that a line before it does. -/
def shadowedText : String :=
  "pakage = \"com.example\"\noutput_dir = \"jbs\"\njbs = 3\n[output]\nverbosty = 2\n"

theorem Settings.warnings_point_shadowedText : ∃ s warnings members,
    Settings.parse ⟨"holdr.toml"⟩ shadowedText = .ok (s, warnings) ∧
    Toml.document? shadowedText = some members ∧
    List.Forall₂ (SettingsWarning.PointsAt shadowedText) warnings (strays members) ∧
    warnings.map SettingsWarning.line = [some 1, some 2, some 5] := by
  have hparse : ((Settings.parse ⟨"holdr.toml"⟩ shadowedText).toOption.map fun p =>
      p.2.map SettingsWarning.line) = some [some 1, some 2, some 5] := by decide +kernel
  cases hresult : Settings.parse ⟨"holdr.toml"⟩ shadowedText with
  | error e => rw [hresult] at hparse; cases hparse
  | ok p =>
    rw [hresult] at hparse
    obtain ⟨members, hdocument, hpoints⟩ := Settings.warnings_point hresult
    exact ⟨p.1, p.2, members, rfl, hdocument, hpoints, Option.some.inj hparse⟩

/-- A comment with the name of the key, and a longer key: the warnings are about lines on which
their keys are not written. -/
theorem Settings.warning_line_of_comment :
    Settings.parse ⟨"holdr.toml"⟩ "# pakage\npakage = 1\n" =
      .ok (unset, [⟨"pakage", ⟨"holdr.toml"⟩, some 1, some "package"⟩]) ∧
    ¬ WritesKey "# pakage\npakage = 1\n" "pakage" 1 ∧
    WritesKey "# pakage\npakage = 1\n" "pakage" 2 ∧
    Settings.parse ⟨"holdr.toml"⟩ "job_count = 2\njob = 2\n" =
      .ok (unset, [⟨"job_count", ⟨"holdr.toml"⟩, some 1, none⟩,
        ⟨"job", ⟨"holdr.toml"⟩, some 1, some "jobs"⟩]) ∧
    ¬ WritesKey "job_count = 2\njob = 2\n" "job" 1 ∧
    WritesKey "job_count = 2\njob = 2\n" "job" 2 := by
  decide +kernel

end ViewHolder
