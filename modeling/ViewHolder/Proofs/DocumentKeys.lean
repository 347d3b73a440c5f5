import ViewHolder.Toml.Document

/-!
# The keys of a document

The statements of a text write keys: those of dotted names, of headers, and of tables between braces
at any depth.  Building the document out of the statements moves tables about and drops some of the
keys, but it never makes one up: every key of the document is written by a statement.

## Main definitions

* `Toml.Value.keys`, `Toml.Members.keys`, `Toml.Statement.keys` : the keys at any depth.
* `Toml.Members.All` : a condition on all keys of a table.

## Main results

* `Toml.all_changeAt` : changing the table at the end of a path adds only keys of the path.
* `Toml.mem_keys_of_build` : the keys of a document are written by its statements.
-/

namespace ViewHolder.Toml

/-! ### Keys at any depth -/

mutual

/-- The keys in a value, at any depth. -/
def Value.keys : Value → List Key
  | .array items => keysOfNodes items
  | .tables items => keysOfNodes items
  | .table _ members => keysOfMembers members
  | _ => []

/-- The keys in some values. -/
def keysOfNodes : List (Located Value) → List Key
  | [] => []
  | node :: nodes => keysOfNode node ++ keysOfNodes nodes

/-- The keys in a value with its place. -/
def keysOfNode : Located Value → List Key
  | ⟨_, value⟩ => value.keys

/-- The keys of some members and those in their values. -/
def keysOfMembers : List (Key × Located Value) → List Key
  | [] => []
  | m :: members => keysOfMember m ++ keysOfMembers members

/-- The key of a member and those in its value. -/
def keysOfMember : Key × Located Value → List Key
  | (key, node) => key :: keysOfNode node

end

/-- The keys of a table, at any depth. -/
def Members.keys (members : Members) : List Key := members.flatMap fun m => m.1 :: m.2.value.keys

/-- The keys that a statement writes. -/
def Statement.keys : Statement → List Key
  | .entry path key node => path ++ key :: node.value.keys
  | .header _ path key _ => path ++ [key]

theorem keysOfNodes_eq (nodes : List Node) :
    keysOfNodes nodes = nodes.flatMap fun node => node.value.keys := by
  induction nodes with
  | nil => rw [keysOfNodes, List.flatMap_nil]
  | cons node nodes ih =>
    obtain ⟨span, value⟩ := node
    rw [keysOfNodes, ih, List.flatMap_cons, keysOfNode]

@[simp] theorem Value.keys_array (items : List Node) :
    (Value.array items).keys = items.flatMap fun node => node.value.keys := by
  rw [Value.keys, keysOfNodes_eq]

@[simp] theorem Value.keys_tables (items : List Node) :
    (Value.tables items).keys = items.flatMap fun node => node.value.keys := by
  rw [Value.keys, keysOfNodes_eq]

@[simp] theorem Value.keys_table (origin : Origin) (members : Members) :
    (Value.table origin members).keys = members.keys := by
  rw [Value.keys]
  induction members with
  | nil => rw [keysOfMembers, Members.keys, List.flatMap_nil]
  | cons m members ih =>
    obtain ⟨key, span, value⟩ := m
    rw [keysOfMembers, ih, Members.keys, Members.keys, List.flatMap_cons, keysOfMember, keysOfNode]

/-! ### Tables under construction -/

/-- A condition holds of all keys of a table, at any depth. -/
def Members.All (P : Key → Prop) (members : Members) : Prop := ∀ key ∈ members.keys, P key

section

variable {P : Key → Prop} {members : Members} {key : Key} {node : Node}

theorem Members.all_nil : Members.All P [] := by simp [All, keys]

theorem Members.all_cons {m : Key × Node} : Members.All P (m :: members) ↔
    P m.1 ∧ (∀ key ∈ m.2.value.keys, P key) ∧ Members.All P members := by
  simp only [All, keys, List.flatMap_cons, List.cons_append, List.forall_mem_cons,
    List.forall_mem_append]

theorem Members.all_append {more : Members} :
    Members.All P (members ++ more) ↔ Members.All P members ∧ Members.All P more := by
  simp only [All, keys, List.flatMap_append, List.forall_mem_append]

theorem Members.All.set (h : Members.All P members) (hkey : P key)
    (hnode : ∀ k ∈ node.value.keys, P k) : Members.All P (members.set key node) := by
  induction members with
  | nil => exact all_cons.2 ⟨hkey, hnode, all_nil⟩
  | cons m rest ih =>
    obtain ⟨k, n⟩ := m
    obtain ⟨hk, hn, hrest⟩ := all_cons.1 h
    rw [Members.set]
    split
    · exact all_cons.2 ⟨hk, hnode, hrest⟩
    · exact all_cons.2 ⟨hk, hn, ih hrest⟩

theorem Members.All.erase (h : Members.All P members) (text : String) :
    Members.All P (members.erase text) := by
  intro k hk
  obtain ⟨m, hm, hkm⟩ := List.mem_flatMap.1 hk
  exact h k (List.mem_flatMap.2 ⟨m, (List.mem_filter.1 hm).1, hkm⟩)

theorem Members.All.of_find? (h : Members.All P members) {text : String}
    (hfind : members.find? text = some node) : ∀ k ∈ node.value.keys, P k := by
  obtain ⟨m, hm, rfl⟩ := Option.map_eq_some_iff.1 hfind
  intro k hk
  exact h k (List.mem_flatMap.2 ⟨m, List.mem_of_find?_eq_some hm, List.mem_cons_of_mem _ hk⟩)

theorem all_table {span : Option Span} {origin : Origin} {inner : Members} :
    (∀ k ∈ (⟨span, .table origin inner⟩ : Node).value.keys, P k) ↔ Members.All P inner := by
  rw [Value.keys_table, Members.All]

theorem all_tables {span : Option Span} {items : List Node} :
    (∀ k ∈ (⟨span, .tables items⟩ : Node).value.keys, P k) ↔
      ∀ item ∈ items, ∀ k ∈ item.value.keys, P k := by
  rw [Value.keys_tables, List.forall_mem_flatMap]

/-- **Changing the table at the end of a path** adds the keys of the path, and otherwise what the
change adds. -/
theorem all_changeAt {α : Type} {dots : Bool}
    {change : Origin → Members → Option (α × Members)} {Q : α → Prop}
    (hchange : ∀ origin members a members', change origin members = some (a, members') →
      Members.All P members → Q a ∧ Members.All P members')
    {path : List Key} (hpath : ∀ key ∈ path, P key) {origin : Origin} {members : Members}
    (hmembers : Members.All P members) {a : α} {members' : Members}
    (h : changeAt dots change path origin members = some (a, members')) :
    Q a ∧ Members.All P members' := by
  induction path generalizing origin members a members' with
  | nil => exact hchange origin members a members' h hmembers
  | cons key path ih =>
    obtain ⟨hkey, hpath⟩ := List.forall_mem_cons.1 hpath
    rw [changeAt] at h
    split at h
    · obtain ⟨⟨b, inner⟩, hinner, heq⟩ := Option.map_eq_some_iff.1 h
      cases heq
      obtain ⟨hb, hkeys⟩ := ih hpath Members.all_nil hinner
      exact ⟨hb, hmembers.set hkey (all_table.2 hkeys)⟩
    · rename_i span origin inner hfind
      split at h
      · cases h
      · obtain ⟨⟨b, inner'⟩, hinner, heq⟩ := Option.map_eq_some_iff.1 h
        cases heq
        obtain ⟨hb, hkeys⟩ := ih hpath (all_table.1 (hmembers.of_find? hfind)) hinner
        exact ⟨hb, hmembers.set hkey (all_table.2 hkeys)⟩
    · rename_i span items hfind
      have hitems := all_tables.1 (hmembers.of_find? hfind)
      split at h
      · rename_i last origin inner hlast
        obtain ⟨⟨b, inner'⟩, hinner, heq⟩ := Option.map_eq_some_iff.1 h
        cases heq
        have hlast := hitems _ (List.mem_of_getLast? hlast)
        obtain ⟨hb, hkeys⟩ := ih hpath (all_table.1 hlast) hinner
        refine ⟨hb, hmembers.set hkey (all_tables.2 (List.forall_mem_append.2 ⟨?_, ?_⟩))⟩
        · exact fun item hitem => hitems item (List.dropLast_subset _ hitem)
        · exact List.forall_mem_singleton.2 (all_table.2 hkeys)
      · cases h
    · cases h

theorem all_addValue {path : List Key} (hpath : ∀ k ∈ path, P k) (hkey : P key)
    (hnode : ∀ k ∈ node.value.keys, P k) (hmembers : Members.All P members) {members' : Members}
    (h : addValue path key node members = some members') : Members.All P members' := by
  obtain ⟨⟨u, ms⟩, hchange, rfl⟩ := Option.map_eq_some_iff.1 h
  refine (all_changeAt (Q := fun _ => True) (fun origin ms u ms' hadd hms => ?_) hpath hmembers
    hchange).2
  rw [addMember] at hadd
  split at hadd
  · cases hadd
  · cases hadd
    exact ⟨trivial, Members.all_append.2 ⟨hms, Members.all_cons.2 ⟨hkey, hnode, Members.all_nil⟩⟩⟩

/-! ### Headers -/

theorem all_takeImplied (hmembers : Members.All P members) (origin : Origin)
    {inner members' : Members} (h : takeImplied key origin members = some (inner, members')) :
    Members.All P inner ∧ Members.All P members' := by
  rw [takeImplied] at h
  split at h
  · cases h
    exact ⟨Members.all_nil, hmembers⟩
  · rename_i span inner hfind
    cases h
    exact ⟨all_table.1 (hmembers.of_find? hfind), hmembers.erase _⟩
  · cases h

theorem all_reserveTables (hmembers : Members.All P members) (hkey : P key)
    (origin : Origin) {inner members' : Members}
    (h : reserveTables key origin members = some (inner, members')) :
    Members.All P inner ∧ Members.All P members' := by
  rw [reserveTables] at h
  split at h
  · cases h
    exact ⟨Members.all_nil, hmembers.set hkey (all_tables.2 (List.forall_mem_nil _))⟩
  · cases h
    exact ⟨Members.all_nil, hmembers⟩
  · cases h

theorem all_beginPart (hroot : Members.All P members) {path : List Key}
    (hpath : ∀ k ∈ path, P k) (hkey : P key) {double : Bool} {inner members' : Members}
    (h : beginPart double path key members = some (inner, members')) :
    Members.All P inner ∧ Members.All P members' := by
  refine all_changeAt (Q := Members.All P) (fun origin ms a ms' hfound hms => ?_) hpath hroot h
  cases double with
  | true => exact all_reserveTables hms hkey origin hfound
  | false => exact all_takeImplied hms origin hfound

/-- A condition holds of the keys in the name of a part and in its table. -/
structure Part.All (P : Key → Prop) (part : Part) : Prop where
  /-- The condition holds of the parts of the name before the last dot. -/
  path : ∀ k ∈ part.path, P k
  /-- The condition holds of the last part of the name. -/
  key : P part.key
  /-- The condition holds in the table. -/
  members : Members.All P part.members

theorem Part.All.close {part : Part} (hpart : part.All P) (hroot : Members.All P members)
    {members' : Members} (h : part.close members = some members') : Members.All P members' := by
  obtain ⟨⟨u, ms⟩, hchange, rfl⟩ := Option.map_eq_some_iff.1 h
  refine (all_changeAt (Q := fun _ => True) (fun origin ms u ms' hplace hms => ?_) hpart.path hroot
    hchange).2
  have hnode : ∀ k ∈ part.node.value.keys, P k := all_table.2 hpart.members
  rw [Part.place] at hplace
  split at hplace
  · cases hplace
    exact ⟨trivial, hms.set hpart.key hnode⟩
  · rename_i span items hdouble hfind
    cases hplace
    have hitems := all_tables.1 (hms.of_find? hfind)
    refine ⟨trivial, hms.set hpart.key (all_tables.2 (List.forall_mem_append.2 ⟨hitems, ?_⟩))⟩
    exact List.forall_mem_singleton.2 hnode
  · cases hplace

/-! ### Drafts -/

/-- A condition holds of all keys in a document under construction. -/
def Draft.All (P : Key → Prop) : Draft → Prop
  | .plain root => Members.All P root
  | .within root part => Members.All P root ∧ part.All P

theorem Draft.All.finish {draft : Draft} (hdraft : draft.All P)
    (h : draft.finish = some members) : Members.All P members := by
  cases draft with
  | plain root =>
    cases h
    exact hdraft
  | within root part => exact hdraft.2.close hdraft.1 h

theorem Draft.All.add {draft draft' : Draft} (hdraft : draft.All P) {statement : Statement}
    (hkeys : ∀ k ∈ statement.keys, P k) (h : draft.add statement = some draft') :
    draft'.All P := by
  cases statement with
  | entry path key node =>
    obtain ⟨hpath, hrest⟩ := List.forall_mem_append.1 hkeys
    obtain ⟨hkey, hnode⟩ := List.forall_mem_cons.1 hrest
    cases draft with
    | plain root =>
      obtain ⟨root', hadd, rfl⟩ := Option.map_eq_some_iff.1 h
      exact all_addValue hpath hkey hnode hdraft hadd
    | within root part =>
      obtain ⟨members', hadd, rfl⟩ := Option.map_eq_some_iff.1 h
      exact ⟨hdraft.1, hdraft.2.path, hdraft.2.key,
        all_addValue hpath hkey hnode hdraft.2.members hadd⟩
  | header double path key span =>
    obtain ⟨hpath, hkey⟩ := List.forall_mem_append.1 hkeys
    replace hkey := List.forall_mem_singleton.1 hkey
    rw [Draft.add] at h
    cases hfinish : draft.finish with
    | none => rw [hfinish] at h; cases h
    | some root =>
      rw [hfinish] at h
      obtain ⟨⟨inner, root'⟩, hbegin, rfl⟩ := Option.map_eq_some_iff.1 h
      obtain ⟨hinner, hroot'⟩ := all_beginPart (hdraft.finish hfinish) hpath hkey hbegin
      exact ⟨hroot', hpath, hkey, hinner⟩

/-- What every step of a run keeps, the run keeps. -/
theorem invariant_of_foldlM {α β : Type} {I : β → Prop} {step : β → α → Option β} {as : List α}
    (hstep : ∀ a ∈ as, ∀ b c, step b a = some c → I b → I c) {b c : β}
    (h : as.foldlM step b = some c) (hb : I b) : I c := by
  induction as generalizing b with
  | nil =>
    cases h
    exact hb
  | cons a as ih =>
    obtain ⟨hfirst, hrest⟩ := List.forall_mem_cons.1 hstep
    rw [List.foldlM_cons] at h
    obtain ⟨next, hnext, hmore⟩ := Option.bind_eq_some_iff.1 h
    exact ih hrest hmore (hfirst b next hnext hb)

end

/-- **The keys of a document** are written by the statements that build it. -/
theorem mem_keys_of_build {statements : List Statement} {members : Members}
    (h : build statements = some members) :
    ∀ k ∈ members.keys, k ∈ statements.flatMap Statement.keys := by
  rw [build] at h
  cases hdraft : statements.foldlM Draft.add (.plain []) with
  | none => rw [hdraft] at h; cases h
  | some draft =>
    rw [hdraft] at h
    have hempty : (Draft.plain []).All (· ∈ statements.flatMap Statement.keys) := Members.all_nil
    refine (invariant_of_foldlM (fun statement hmem draft next hadd hall => ?_) hdraft
      hempty).finish h
    exact hall.add (fun k hk => List.mem_flatMap.2 ⟨statement, hmem, hk⟩) hadd

end ViewHolder.Toml
