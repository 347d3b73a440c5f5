import Mathlib.Data.List.TakeWhile
import ViewHolder.Proofs.TagSpelling

/-!
# Bindings of qualifiers

The attributes of a tag have expanded names: a qualifier stands for the namespace that the
innermost declaration binds it to.  The items of a tag may declare qualifiers, which then hold in
the tag itself and inside its element.  The scope that is kept while a document is read has these
bindings, with the namespaces as they are written.

## Main definitions

* `Markup.Bindings` : the namespaces of the qualifiers at a place.
* `Markup.expandedAttributes` : the attributes of a tag by expanded name.
* `Markup.IsBound` : the items of a tag declare and use qualifiers as they may.
* `Markup.Scope.Spells` : the scopes that have some bindings.

## Main results

* `Markup.IsBound.nodup_keys` : items that may stand together have different keys.
* `Markup.Scope.Spells.declare` : the scope of a spelled tag has the bindings of the tag.
-/

namespace ViewHolder.Markup

/-! ### Bindings -/

/-- The namespaces of the qualifiers at a place. -/
abbrev Bindings := List Char → Option (List Char)

/-- Outside of all elements only the reserved qualifier `xml` is bound. -/
def Bindings.outer : Bindings := fun q => if q = "xml".toList then some xmlNamespace else none

/-- The bindings in a tag and inside its element: the declarations of the tag, and for other
qualifiers the bindings around it. -/
def Bindings.extend (env : Bindings) : List Item → Bindings
  | [] => env
  | .binding q space :: items => extend (fun p => if p = q then some space else env p) items
  | .entry _ _ _ :: items => env.extend items

/-! ### Expanded names -/

/-- The name of an attribute with its qualifier replaced. -/
inductive ExpandedName where
  /-- A name without a qualifier, which is in no namespace. -/
  | plain (name : List Char)
  /-- A name in a namespace. -/
  | qualified (space name : List Char)
  /-- A name whose qualifier is not bound. -/
  | unbound (qualifier name : List Char)
  deriving DecidableEq, Inhabited, Repr

/-- The expanded name for a qualifier, if there is one, and a local part. -/
def Bindings.expandedName (env : Bindings) : Option (List Char) → List Char → ExpandedName
  | none, n => .plain n
  | some q, n =>
    match env q with
    | some space => .qualified space n
    | none => .unbound q n

/-- The expanded name and the value of an attribute. -/
def Item.expanded? (env : Bindings) : Item → Option (ExpandedName × List Char)
  | .binding _ _ => none
  | .entry q n v => some (env.expandedName q n, v)

/-- The attributes of a tag by expanded name. -/
def expandedAttributes (env : Bindings) (items : List Item) : List (ExpandedName × List Char) :=
  items.filterMap (Item.expanded? env)

/-- The qualifier that an item declares. -/
def Item.declared? : Item → Option (List Char)
  | .binding q _ => some q
  | .entry _ _ _ => none

/-- An item that leaves the reserved qualifiers and namespaces alone. -/
def Item.IsFree : Item → Prop
  | .binding q space => q ≠ "xml".toList ∧ q ≠ xmlnsName ∧ space ≠ [] ∧
      space ≠ xmlNamespace ∧ space ≠ xmlnsNamespace
  | .entry q _ _ => q ≠ some xmlnsName

instance : (i : Item) → Decidable i.IsFree
  | .binding _ _ => inferInstanceAs (Decidable (_ ∧ _ ∧ _ ∧ _ ∧ _))
  | .entry q _ _ => inferInstanceAs (Decidable (q ≠ some xmlnsName))

/-- The items of a tag declare and use qualifiers as they may. -/
structure IsBound (env : Bindings) (items : List Item) : Prop where
  /-- Nothing reserved is declared. -/
  free : ∀ i ∈ items, i.IsFree
  /-- No qualifier is declared twice. -/
  declared : (items.filterMap Item.declared?).Nodup
  /-- No expanded name is given twice. -/
  distinct : ((expandedAttributes (env.extend items) items).map Prod.fst).Nodup

theorem isBound_iff {env : Bindings} {items : List Item} : IsBound env items ↔
    (∀ i ∈ items, i.IsFree) ∧ (items.filterMap Item.declared?).Nodup ∧
      ((expandedAttributes (env.extend items) items).map Prod.fst).Nodup :=
  ⟨fun h => ⟨h.free, h.declared, h.distinct⟩, fun h => ⟨h.1, h.2.1, h.2.2⟩⟩

instance (env : Bindings) (items : List Item) : Decidable (IsBound env items) :=
  decidable_of_iff' _ isBound_iff

/-! ### Keys -/

theorem splitName_of_notMem {name : List Char} (h : ':' ∉ name) :
    splitName name = (none, name) := by
  have hdrop : name.dropWhile (· != ':') = [] := List.dropWhile_eq_nil_iff.2 (bne_of_notMem h)
  rw [splitName, hdrop]

theorem splitName_append {q : List Char} (h : ':' ∉ q) (name : List Char) :
    splitName (q ++ ':' :: name) = (some q, name) := by
  have hq := bne_of_notMem h
  rw [splitName, List.dropWhile_append_of_pos hq, List.takeWhile_append_of_pos hq,
    List.dropWhile_cons_of_neg (by decide), List.takeWhile_cons_of_neg (by decide), List.append_nil]

theorem IsName.colon_notMem {cs : List Char} (h : IsName cs) : ':' ∉ cs := fun hc => by
  obtain ⟨-, -, -, -, -, hcolon, -⟩ := isNameChar_spec (h.isNameChar hc)
  exact hcolon rfl

/-- The key of an item, split at its colon. -/
def Item.splitKey : Item → Option (List Char) × List Char
  | .binding q _ => (some xmlnsName, q)
  | .entry q n _ => (q, n)

theorem splitName_key {i : Item} (h : i.HasNames) : splitName i.key = i.splitKey := by
  cases i with
  | binding q space => exact splitName_append (by decide : ':' ∉ xmlnsName) q
  | entry q n v =>
    cases q with
    | none => exact splitName_of_notMem h.2.colon_notMem
    | some q => exact splitName_append (h.1 q rfl).colon_notMem n

/-- Items that may stand together have different keys. -/
theorem IsBound.nodup_keys {env : Bindings} {items : List Item} (h : IsBound env items)
    (hnames : ∀ i ∈ items, i.HasNames) : (items.map Item.key).Nodup := by
  have hdeclared := List.pairwise_filterMap.1 h.declared
  have hdistinct := List.pairwise_filterMap.1 (List.pairwise_map.1 h.distinct)
  refine List.pairwise_map.2 ((hdeclared.and hdistinct).imp_of_mem fun {i j} hi hj hne hkey => ?_)
  obtain ⟨hdecl, hname⟩ := hne
  have hsplit : i.splitKey = j.splitKey := by
    rw [← splitName_key (hnames i hi), ← splitName_key (hnames j hj), hkey]
  have hfree := h.free i hi
  have hfree' := h.free j hj
  cases i with
  | binding q space =>
    cases j with
    | binding q' space' => exact hdecl q rfl q' rfl (Prod.mk.inj hsplit).2
    | entry q' n' v' => exact hfree' (Prod.mk.inj hsplit).1.symm
  | entry q n v =>
    cases j with
    | binding q' space' => exact hfree (Prod.mk.inj hsplit).1
    | entry q' n' v' =>
      obtain ⟨rfl, rfl⟩ := Prod.mk.inj hsplit
      exact hname _ rfl _ rfl rfl

/-! ### Scopes -/

/-- A scope that has some bindings, with the namespaces as they are written.  The reserved
qualifier `xml` does not stand in a scope. -/
structure Scope.Spells (s : Scope) (env : Bindings) : Prop where
  /-- The scope has the bindings. -/
  resolve : ∀ q, q ≠ "xml".toList → s.resolve? q = (env q).map escape
  /-- The scope does not have `xml`. -/
  resolve_xml : s.resolve? "xml".toList = none
  /-- The namespace of `xml` is the reserved one. -/
  xml : env "xml".toList = some xmlNamespace
  /-- The qualifier of declarations is not bound. -/
  xmlns : env xmlnsName = none

theorem Scope.spells_outer : Scope.Spells [] .outer where
  resolve q hq := by
    rw [Bindings.outer, if_neg hq]
    cases q <;> rfl
  resolve_xml := rfl
  xml := rfl
  xmlns := rfl

theorem Scope.resolve?_cons {p : List Char} (hp : p ≠ []) (q : List Char) {space : List Char}
    (hspace : space ≠ []) (s : Scope) :
    Scope.resolve? ((p, space) :: s) q = if q = p then some space else s.resolve? q := by
  unfold Scope.resolve?
  by_cases hq : q = p
  · subst hq
    simp [hp, hspace]
  · simp [List.lookup_cons, hq, beq_eq_false_iff_ne.2 hq]

/-- One declaration extends a scope by its binding. -/
theorem Scope.Spells.bindName {s : Scope} {env : Bindings} (hs : s.Spells env)
    {q space : List Char} (hq : q ≠ []) (hfree : (Item.binding q space).IsFree) :
    ∃ inner, s.bindName q (escape space) = .ok inner ∧
      inner.Spells fun p => if p = q then some space else env p := by
  obtain ⟨hxml, hxmlns, hempty, hspaceXml, hspaceXmlns⟩ := hfree
  have hxmlSpace : escape space ≠ xmlNamespace :=
    mt (escape_eq_iff (by decide +kernel)).1 hspaceXml
  have hxmlnsSpace : escape space ≠ xmlnsNamespace :=
    mt (escape_eq_iff (by decide +kernel)).1 hspaceXmlns
  have hspace : escape space ≠ [] := fun h =>
    hempty (escape_injective (show escape space = escape [] from h))
  refine ⟨(q, escape space) :: s, ?_, ?_, ?_, ?_, ?_⟩
  · rw [Scope.bindName, if_neg hxml, ← xmlnsName, if_neg hxmlns,
      if_neg (not_or.2 ⟨hxmlSpace, hxmlnsSpace⟩)]
  · intro p hp
    rw [Scope.resolve?_cons hq p hspace, hs.resolve p hp]
    split <;> rfl
  · rw [Scope.resolve?_cons hq _ hspace, if_neg hxml.symm, hs.resolve_xml]
  · rw [if_neg hxml.symm, hs.xml]
  · rw [if_neg hxmlns.symm, hs.xmlns]

/-- **The scope of a spelled tag has its bindings.** -/
theorem Scope.Spells.declare {s : Scope} {env : Bindings} (hs : s.Spells env) {items : List Item}
    (hnames : ∀ i ∈ items, i.HasNames) (hfree : ∀ i ∈ items, i.IsFree) :
    ∃ inner, s.declare (items.map Item.written) = .ok inner ∧ inner.Spells (env.extend items) := by
  induction items generalizing s env with
  | nil => exact ⟨s, rfl, hs⟩
  | cons i items ih =>
    have hrest : (∀ j ∈ items, j.HasNames) ∧ ∀ j ∈ items, j.IsFree :=
      ⟨fun j hj => hnames j (List.mem_cons_of_mem i hj),
        fun j hj => hfree j (List.mem_cons_of_mem i hj)⟩
    have hname := hnames i List.mem_cons_self
    have hkey := splitName_key hname
    cases i with
    | binding q space =>
      obtain ⟨mid, hmid, hspells⟩ := hs.bindName hname.1 (hfree _ List.mem_cons_self)
      obtain ⟨inner, hinner, hdone⟩ := ih hspells hrest.1 hrest.2
      refine ⟨inner, ?_, hdone⟩
      have hq : declaredQualifier? (Item.binding q space).key = some q := by
        rw [declaredQualifier?, hkey]
        rfl
      rw [List.map_cons, Scope.declare, Item.written, hq]
      dsimp only [Item.text]
      rw [hmid]
      exact hinner
    | entry q n v =>
      obtain ⟨inner, hinner, hdone⟩ := ih hs hrest.1 hrest.2
      refine ⟨inner, ?_, hdone⟩
      have hq : declaredQualifier? (Item.entry q n v).key = none := by
        have hxmlns := hfree _ List.mem_cons_self
        rw [declaredQualifier?, hkey]
        cases q with
        | none => rfl
        | some q => exact if_neg fun h => hxmlns (congrArg some h)
      rw [List.map_cons, Scope.declare, Item.written, hq]
      exact hinner

end ViewHolder.Markup
