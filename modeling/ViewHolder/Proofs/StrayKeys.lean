import Mathlib.Data.List.Forall2
import ViewHolder.Proofs.EditDistance
import ViewHolder.Proofs.Progress
import ViewHolder.Settings.Lookup

/-!
# Keys that are no settings

There are settings in the table of a document and in its table `output`.  Every other key of these
two tables is warned about, in the order of the document, and a warning may suggest the setting
with the nearest name.  The names of both tables are compared in one list; so the suggestion is
usable, that is, a different key which its table takes, only for a key that is near to a name of its
own table and no name of either of them.

## Main definitions

* `SettingsTable`, `SettingsTable.names` : the tables with settings, and their keys.
* `Stray`, `strays` : what in a document is no setting.
* `Usable` : a suggestion is a different key that the table takes.

## Main results

* `Settings.parse_warnings` : the warnings are those about the strays.
* `SettingsTable.names_apart` : the names of the tables are far from each other.
* `Settings.suggestions_usable_iff` : when there is a suggestion, and when it is usable.
* `Settings.suggestion_of_other_table` : suggestions that are not.
-/

namespace ViewHolder

open Toml (Node Members)

/-! ### Strays -/

/-- The tables of a document in which there are settings. -/
inductive SettingsTable where
  /-- The table of the whole document. -/
  | root
  /-- The table `output` in it. -/
  | output
  deriving DecidableEq, Repr

/-- The keys that a table takes. -/
def SettingsTable.names : SettingsTable → List String
  | root => ["package", "output_dir", "res_dirs", "default_include", "widget_package", "jobs",
      "prune_stale", "write_unchanged", "output"]
  | output => ["verbosity"]

/-- Something in a document that is no setting. -/
inductive Stray where
  /-- A key that its table does not take. -/
  | key (table : SettingsTable) (key : Toml.Key)
  /-- A date in the place of the output table, which counts as a table with a key of its own. -/
  | date
  deriving DecidableEq, Repr

namespace Stray

/-- The table in which a stray stands. -/
def table : Stray → SettingsTable
  | .key table _ => table
  | date => .output

/-- The name that is warned about. -/
def name : Stray → String
  | .key _ k => k.text
  | date => Toml.momentKey

end Stray

/-- The strays of a table with the given members. -/
def SettingsTable.straysOf (table : SettingsTable) (members : Members) : List Stray :=
  (members.filter fun m => m.1.text ∉ table.names).map fun m => .key table m.1

/-- The strays in what stands in the place of the output table. -/
def straysOfOutput (node : Node) : List Stray :=
  match node.value with
  | .table _ members => SettingsTable.output.straysOf members
  | .moment => [.date]
  | _ => []

/-- The strays of a document, in its order. -/
def strays (members : Members) : List Stray :=
  members.flatMap fun m =>
    if m.1.text = "output" then straysOfOutput m.2 else SettingsTable.root.straysOf [m]

theorem SettingsTable.straysOf_eq_flatMap (table : SettingsTable) (members : Members) :
    table.straysOf members = members.flatMap fun m => table.straysOf [m] := by
  induction members with
  | nil => rfl
  | cons m members ih =>
    rw [List.flatMap_cons, ← ih]
    by_cases hm : m.1.text ∈ table.names <;> simp [straysOf, hm]

theorem mem_straysOf {table : SettingsTable} {members : Members} {stray : Stray} :
    stray ∈ table.straysOf members ↔
      ∃ m ∈ members, m.1.text ∉ table.names ∧ .key table m.1 = stray := by
  simp [SettingsTable.straysOf, and_assoc]

/-! ### Names that a document is read with -/

/-- What successful steps add to a list, a successful run adds in order. -/
theorem foldlM_adds {ε α β γ : Type} {step : β → α → Except ε β} {view : β → List γ}
    {adds : α → List γ} (hstep : ∀ b a c, step b a = .ok c → view c = view b ++ adds a)
    {as : List α} {b c : β} (h : as.foldlM step b = .ok c) :
    view c = view b ++ as.flatMap adds := by
  induction as generalizing b with
  | nil =>
    cases h
    simp
  | cons a as ih =>
    rw [List.foldlM_cons] at h
    cases ha : step b a with
    | error e => simp [ha, bind, Except.bind] at h
    | ok b' =>
      have hrest := ih (b := b') (by simpa [ha, bind, Except.bind] using h)
      rw [hrest, hstep b a b' ha, List.append_assoc, List.flatMap_cons]

theorem setOutputMember_eq_ok {s s' : OutputSettings} (key : Toml.Key) {node : Node}
    (h : setOutputMember s key node = .ok s') :
    s'.2 = s.2 ++ (SettingsTable.output.straysOf [(key, node)]).map Stray.name := by
  rw [setOutputMember] at h
  by_cases hkey : key.text = "verbosity"
  · rw [if_pos hkey] at h
    cases hlevel : decodeLevel node with
    | error m => rw [hlevel] at h; cases h
    | ok v =>
      rw [hlevel] at h
      cases h
      simp [SettingsTable.straysOf, SettingsTable.names, hkey]
  · rw [if_neg hkey] at h
    cases h
    simp [SettingsTable.straysOf, SettingsTable.names, hkey, Stray.name]

theorem decodeOutput_eq_ok {node : Node} {s : OutputSettings} (h : decodeOutput node = .ok s) :
    s.2 = (straysOfOutput node).map Stray.name := by
  obtain ⟨span, value⟩ := node
  cases value with
  | table origin members =>
    have hrun := foldlM_adds (fun s m _ hm => setOutputMember_eq_ok m.1 hm) h
    have hstrays : straysOfOutput ⟨span, .table origin members⟩ =
        SettingsTable.output.straysOf members := rfl
    rw [hrun, List.nil_append, hstrays, SettingsTable.straysOf_eq_flatMap, List.map_flatMap]
  | moment =>
    cases h
    rfl
  | array items | tables items =>
    cases items with
    | nil =>
      cases h
      rfl
    | cons first rest =>
      obtain ⟨v, -, rfl⟩ := map_eq_ok_iff.1 h
      rfl
  | text | integer | float | boolean => cases h

theorem setMember_eq_ok {s s' : Settings × List String} {key : Toml.Key} {node : Node}
    (h : Settings.setMember s key.text node = .ok s') :
    s'.2 = s.2 ++ (strays [(key, node)]).map Stray.name := by
  obtain ⟨settings, unknown⟩ := s
  have hknown (hne : key.text ≠ "output") (hmem : key.text ∈ SettingsTable.root.names) :
      strays [(key, node)] = [] := by simp [strays, hne, SettingsTable.straysOf, hmem]
  unfold Settings.setMember at h
  dsimp only at h
  split at h
  case h_9 hkey =>
    obtain ⟨output, houtput, rfl⟩ := map_eq_ok_iff.1 h
    rw [decodeOutput_eq_ok houtput]
    simp [strays, hkey]
  case h_10 =>
    cases h
    simp_all [strays, SettingsTable.straysOf, SettingsTable.names, Stray.name]
  all_goals
    rename_i hkey
    obtain ⟨v, -, rfl⟩ := map_eq_ok_iff.1 h
    rw [hknown (by simp [hkey]) (by simp [hkey, SettingsTable.names])]
    simp

/-- The names that are no settings are those of the strays. -/
theorem ofDocument_eq_ok {members : Members} {s : Settings × List String}
    (h : Settings.ofDocument members = .ok s) : s.2 = (strays members).map Stray.name := by
  have hstep (s : Settings × List String) (m : Toml.Key × Node) (s' : Settings × List String)
      (hm : Settings.addMember s m.1 m.2 = .ok s') :
      s'.2 = s.2 ++ (strays [m]).map Stray.name := by
    rw [Settings.addMember] at hm
    cases hset : Settings.setMember s m.1.text m.2 with
    | error e => rw [hset] at hm; cases hm
    | ok s'' =>
      rw [hset] at hm
      cases hm
      exact setMember_eq_ok hset
  have hrun := foldlM_adds hstep h
  rw [hrun, List.nil_append, ← List.map_flatMap]
  simp [strays]

/-- **The warnings about a text** are those about the strays of its document, in order. -/
theorem Settings.parse_warnings {file : Path} {text : String} {s : Settings}
    {warnings : List SettingsWarning} (h : Settings.parse file text = .ok (s, warnings)) :
    ∃ members, Toml.document? text = some members ∧
      warnings = (strays members).map fun stray => .ofName file text stray.name := by
  rw [Settings.parse] at h
  cases hdocument : Toml.document? text with
  | none => rw [hdocument] at h; cases h
  | some members =>
    rw [hdocument] at h
    cases hsettings : Settings.ofDocument members with
    | error e => simp [hsettings] at h
    | ok s =>
      simp only [hsettings] at h
      cases h
      exact ⟨members, rfl, by rw [ofDocument_eq_ok hsettings, List.map_map]; rfl⟩

/-! ### Suggestions -/

/-- A suggestion for a key is usable if it is a different key that the table of the key takes. -/
def Usable (table : SettingsTable) (key suggestion : String) : Prop :=
  suggestion ≠ key ∧ suggestion ∈ table.names

instance (table : SettingsTable) (key suggestion : String) :
    Decidable (Usable table key suggestion) := inferInstanceAs (Decidable (_ ∧ _))

theorem SettingsTable.mem_names_iff {name : String} :
    name ∈ Settings.names ↔ ∃ table : SettingsTable, name ∈ table.names := by
  have hnames : Settings.names = root.names ++ output.names := rfl
  rw [hnames, List.mem_append]
  exact ⟨fun h => h.elim (⟨_, ·⟩) (⟨_, ·⟩), fun ⟨table, h⟩ => by cases table <;> simp [h]⟩

/-- The names of the two tables are far from each other: no key is near to one of either. -/
theorem SettingsTable.names_apart {table table' : SettingsTable} (h : table ≠ table') :
    ∀ c ∈ table.names, ∀ c' ∈ table'.names, 2 * slipDistance < Text.byteDistance c c' := by
  cases table <;> cases table' <;> first | exact absurd rfl h | decide +kernel

/-- A setting is suggested for a name exactly if one of the names of settings is near. -/
theorem exists_nearestName?_iff {name : String} : (∃ c, nearestName? name = some c) ↔
    ∃ c ∈ Settings.names, Text.byteDistance name c ≤ slipDistance := by
  simp only [nearestName?_eq_some_iff]
  constructor
  · rintro ⟨c, hc, hd⟩
    exact ⟨c, List.mem_of_find?_eq_some hc.first, hd⟩
  · rintro ⟨k, hk, hd⟩
    obtain ⟨c, -, hc⟩ := exists_foldl_nearer (Text.byteDistance name) "package" Settings.names.tail
    exact ⟨c, hc, (hc.le k hk).trans hd⟩

/-- What is suggested is another name exactly if the name is none of those of settings. -/
theorem nearestName?_ne_iff {name c : String} (h : nearestName? name = some c) :
    c ≠ name ↔ name ∉ Settings.names := by
  obtain ⟨hc, -⟩ := nearestName?_eq_some_iff.1 h
  refine not_congr ⟨?_, fun hmem => ?_⟩
  · rintro rfl
    exact List.mem_of_find?_eq_some hc.first
  · have hzero (s t : String) : Text.byteDistance s t = 0 ↔ s = t := by
      rw [Text.byteDistance_eq, Text.distance_eq_zero, Text.bytes_injective.eq_iff]
    exact ((hzero name c).1 (Nat.le_zero.1 (((hzero name name).2 rfl) ▸ hc.le name hmem))).symm

/-- What is suggested is taken by a table exactly if a name of this table is near: the names of the
other table are too far away to hide it. -/
theorem nearestName?_mem_iff {name c : String} (h : nearestName? name = some c)
    (table : SettingsTable) :
    c ∈ table.names ↔ ∃ c' ∈ table.names, Text.byteDistance name c' ≤ slipDistance := by
  obtain ⟨hc, hd⟩ := nearestName?_eq_some_iff.1 h
  refine ⟨fun hmem => ⟨c, hmem, hd⟩, ?_⟩
  rintro ⟨c', hmem', hd'⟩
  obtain ⟨table', hmem⟩ := SettingsTable.mem_names_iff.1 (List.mem_of_find?_eq_some hc.first)
  by_contra hnot
  have hne : table' ≠ table := by
    rintro rfl
    exact hnot hmem
  have hfar := SettingsTable.names_apart hne c hmem c' hmem'
  have hnear : Text.byteDistance c c' ≤ Text.byteDistance c name + Text.byteDistance name c' := by
    simp only [Text.byteDistance_eq]
    exact Text.distance_triangle _ _ _
  have hcomm : Text.byteDistance c name = Text.byteDistance name c := by
    rw [Text.byteDistance_eq, Text.byteDistance_eq, Text.distance_comm]
  omega

/-- A warning about a stray, with what can be told about its suggestion. -/
structure SettingsWarning.IsAbout (w : SettingsWarning) (stray : Stray) : Prop where
  /-- The key is what stands behind the last dot of the name of the stray. -/
  key : w.key = lastPart stray.name
  /-- A setting is suggested if the name of a setting of any table is near. -/
  suggests_iff : (∃ c, w.suggestion = some c) ↔
    ∃ c ∈ Settings.names, Text.byteDistance w.key c ≤ slipDistance
  /-- The suggestion is usable if the key is no name of a setting of any table, and the name of a
  setting of its own table is near. -/
  usable_iff : ∀ c, w.suggestion = some c → (Usable stray.table w.key c ↔
    w.key ∉ Settings.names ∧ ∃ c' ∈ stray.table.names, Text.byteDistance w.key c' ≤ slipDistance)

theorem SettingsWarning.isAbout_ofName (file : Path) (text : String) (stray : Stray) :
    (SettingsWarning.ofName file text stray.name).IsAbout stray := by
  have hkey : (ofName file text stray.name).key = lastPart stray.name := by rw [ofName]
  have hsuggestion : (ofName file text stray.name).suggestion =
      nearestName? (lastPart stray.name) := by rw [ofName]
  refine ⟨hkey, ?_, fun c hc => ?_⟩
  · rw [hkey, hsuggestion, exists_nearestName?_iff]
  · rw [hsuggestion] at hc
    rw [hkey, Usable, nearestName?_ne_iff hc, nearestName?_mem_iff hc stray.table]

/-- **The suggestions for keys that are no settings.**  There is a warning about every such key, in
order; a setting is suggested if the name of one is at most two slips away from the key, and the
suggestion is usable if and only if the key is itself no name of a setting and a name that its own
table takes is at most two slips away. -/
theorem Settings.suggestions_usable_iff {file : Path} {text : String} {s : Settings}
    {warnings : List SettingsWarning} (h : Settings.parse file text = .ok (s, warnings)) :
    ∃ members, Toml.document? text = some members ∧
      List.Forall₂ SettingsWarning.IsAbout warnings (strays members) := by
  obtain ⟨members, hdocument, rfl⟩ := Settings.parse_warnings h
  refine ⟨members, hdocument, List.forall₂_map_left_iff.2 (List.forall₂_same.2 fun stray _ => ?_)⟩
  exact SettingsWarning.isAbout_ofName file text stray

/-- A text with slips in both tables, and with the names of settings in the wrong ones. -/
def slippedText : String :=
  "pakage = \"com.example\"\nverbosity = 1\n[output]\nverbosty = 2\njbs = 3\n"

theorem Settings.suggestions_usable_iff_slippedText : ∃ s warnings members,
    Settings.parse ⟨"holdr.toml"⟩ slippedText = .ok (s, warnings) ∧
    Toml.document? slippedText = some members ∧
    List.Forall₂ SettingsWarning.IsAbout warnings (strays members) ∧
    warnings.map SettingsWarning.suggestion =
      [some "package", some "verbosity", some "verbosity", some "jobs"] := by
  have hparse : ((Settings.parse ⟨"holdr.toml"⟩ slippedText).toOption.map fun p =>
      p.2.map SettingsWarning.suggestion) =
      some [some "package", some "verbosity", some "verbosity", some "jobs"] := by decide +kernel
  cases hresult : Settings.parse ⟨"holdr.toml"⟩ slippedText with
  | error e => rw [hresult] at hparse; cases hparse
  | ok p =>
    rw [hresult] at hparse
    obtain ⟨members, hdocument, habout⟩ := Settings.suggestions_usable_iff hresult
    exact ⟨p.1, p.2, members, rfl, hdocument, habout, Option.some.inj hparse⟩

/-- A setting that stands in the wrong table is suggested for itself, and a slip may be taken for a
setting of the other table: these suggestions are not usable. -/
theorem Settings.suggestion_of_other_table :
    Settings.parse ⟨"holdr.toml"⟩ "verbosity = \"debug\"\n" =
      .ok (unset, [⟨"verbosity", ⟨"holdr.toml"⟩, some 1, some "verbosity"⟩]) ∧
    ¬ Usable .root "verbosity" "verbosity" ∧
    Settings.parse ⟨"holdr.toml"⟩ "[output]\njbs = 2\n" =
      .ok (unset, [⟨"jbs", ⟨"holdr.toml"⟩, some 2, some "jobs"⟩]) ∧
    ¬ Usable .output "jbs" "jobs" := by
  decide +kernel

end ViewHolder
