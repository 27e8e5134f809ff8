/-
What the symbol of an entry says, once it is built.

`Describes` states it for every tag: which kind of symbol stands for the entry, and which
symbols it refers to for the types that the entry and its parts name.  A reference is told by
`Refers`.  The symbol that is stored is the one its target has in the end, with one exception:
a reference that was followed while its target had been asked for but did not have an
identifier yet is stored as nothing.  `Awaits` says what such a target is like.
-/
import Dwarf2.Build.Resolve
import Dwarf2.Proofs.Build.Run
import Dwarf2.Proofs.Symbol.Table
import Mathlib.Data.List.Forall2
import Mathlib.Logic.Relation

namespace Dwarf2

namespace Symbol

/-- The kinds of symbols that stand for one entry each. -/
inductive Kind
  | base
  | pointer
  | array
  | typedef
  | aggregate (kind : AggregateKind)
  | enumeration
deriving DecidableEq, Repr

def kind? : Symbol → Option Kind
  | baseType _ => some .base
  | pointer _ => some .pointer
  | array _ => some .array
  | typedef _ => some .typedef
  | aggregate a => some (.aggregate a.kind)
  | enumeration _ => some .enumeration
  | _ => none

end Symbol

/-- The kind of symbol that entries with the tag are built into. -/
def Tag.kind? : Tag → Option Symbol.Kind
  | .baseType => some .base
  | .pointerType | .referenceType => some .pointer
  | .arrayType => some .array
  | .typedef => some .typedef
  | .classType => some (.aggregate .classType)
  | .structureType => some (.aggregate .structType)
  | .unionType => some (.aggregate .unionType)
  | .enumerationType => some .enumeration
  | _ => none

namespace Entry

def childrenOf (e : Entry) (tag : Tag) : List Entry :=
  e.children.filter (·.tag = tag)

end Entry

namespace Build

variable {src : Source} {s s' : State}

/-! ## Slots -/

/-- What a slot says for good: the symbol of its entry, or that there is none. -/
def Slot.told? : Slot → Option (Option SymbolId)
  | .unresolved | .pending none => none
  | .pending (some id) => some (some id)
  | .resolved id => some id

/-- How a slot may change.  Only the slot of the entry at work starts to tell an
identifier before its symbol is built. -/
inductive Slot.Becomes (atWork : Prop) : Slot → Slot → Prop
  | same (a : Slot) : Becomes atWork a a
  | settle (id : Option SymbolId) : Becomes atWork .unresolved (.resolved id)
  | expose (h : atWork) (id : SymbolId) : Becomes atWork (.pending none) (.pending (some id))

namespace Slot.Becomes

variable {P Q : Prop} {a b c : Slot}

theorem trans (h : Becomes P a b) (h' : Becomes P b c) : Becomes P a c := by
  cases h with
  | same => exact h'
  | settle id => cases h' with | same => exact .settle id
  | expose h id => cases h' with | same => exact .expose h id

theorem imp (h : Becomes P a b) (hPQ : P → Q) : Becomes Q a b := by
  cases h with
  | same => exact .same _
  | settle id => exact .settle id
  | expose h id => exact .expose (hPQ h) id

theorem told (h : Becomes P a b) {v : Option SymbolId} (hv : a.told? = some v) :
    b.told? = some v := by
  cases h with
  | same => exact hv
  | settle id => cases hv
  | expose _ id => cases hv

theorem ne_unresolved (h : Becomes P a b) (ha : a ≠ .unresolved) : b ≠ .unresolved := by
  cases h with
  | same => exact ha
  | settle id => exact absurd rfl ha
  | expose _ id => exact Slot.noConfusion

theorem of_pending_none (h : Becomes P a (.pending none)) : a = .pending none := by
  cases h with
  | same => rfl

theorem eq_of_ne_unresolved (h : Becomes False a b) (ha : a ≠ .unresolved) : b = a := by
  cases h with
  | same => rfl
  | settle id => exact absurd rfl ha
  | expose h id => exact h.elim

end Slot.Becomes

/-! ## Chains of requests -/

/-- Building the first entry may ask for the second: a child of it, or a type that it or an
entry under it refers to. -/
def Asks (src : Source) (asker asked : Nat) : Prop :=
  ∃ e c, src.tree.get? asker = some e ∧ c ∈ e.preorder ∧
    (c.offset = asked ∨ c.reference? src.view .type = some asked)

/-- Entries with these tags ask for a type before they tell an identifier of their own. -/
def ExposesLate (tag : Tag) : Prop :=
  tag = .constType ∨ tag = .volatileType ∨ tag = .subroutineType ∨ tag = .subprogram

/-- The type that the entry itself refers to leads to the offset, so that the offset may be
asked for before the entry has an identifier. -/
def Detours (src : Source) (e : Entry) (offset : Nat) : Prop :=
  ExposesLate e.tag ∧
    ∃ type, e.reference? src.view .type = some type ∧ Relation.ReflTransGen (Asks src) type offset

/-- Entries that are asked for, but never become symbols. -/
def NeverNamed (src : Source) (e : Entry) : Prop :=
  e.tag = .var ∨ e.tag = .subprogram ∧ e.flag src.view .declaration = true

/-- The entry may be without an identifier when the offset is asked for because of it. -/
def Awaits (src : Source) (e : Entry) (offset : Nat) : Prop :=
  NeverNamed src e ∨ Detours src e offset

theorem Awaits.step {e : Entry} {offset next : Nat} (h : Awaits src e offset)
    (asks : Asks src offset next) : Awaits src e next := by
  rcases h with h | ⟨late, type, htype, chain⟩
  · exact .inl h
  · exact .inr ⟨late, type, htype, chain.tail asks⟩

theorem Awaits.of_type {e : Entry} {type : Nat} (late : ExposesLate e.tag)
    (htype : e.reference? src.view .type = some type) : Awaits src e type :=
  .inr ⟨late, type, htype, .refl⟩

/-! ## References -/

/-- A later state, as far as slots and events are concerned. -/
structure Later (src : Source) (s s' : State) : Prop where
  asked : ∀ offset, slot s offset ≠ .unresolved → slot s' offset ≠ .unresolved
  /-- The root is left out: a unit that is built again gets another symbol. -/
  told : ∀ offset v, offset ≠ src.tree.root.offset →
    (slot s offset).told? = some v → (slot s' offset).told? = some v
  noted : ∀ event ∈ s.journal, event ∈ s'.journal

theorem Later.refl (s : State) : Later src s s :=
  ⟨fun _ h => h, fun _ _ _ h => h, fun _ h => h⟩

theorem Later.trans {s'' : State} (h : Later src s s') (h' : Later src s' s'') :
    Later src s s'' :=
  ⟨fun o ha => h'.asked o (h.asked o ha), fun o v ne hv => h'.told o v ne (h.told o v ne hv),
    fun e he => h'.noted e (h.noted e he)⟩

/-- What is stored for the type of entry `c`, where `owner` is the entry being built.  The
symbol of the root is not that of a type. -/
def Refers (src : Source) (s : State) (owner c : Entry) (stored : Option SymbolId) : Prop :=
  match c.reference? src.view .type with
  | none => stored = none
  | some target =>
    match src.tree.get? target with
    | none => stored = none
    | some d =>
      target ≠ src.tree.root.offset →
        slot s target ≠ .unresolved ∧
          ∃ found, .followed c.offset target found ∈ s.journal ∧
            (found ≠ .pending none → (slot s target).told? = some stored) ∧
            (found = .pending none → stored = none ∧ Awaits src d owner.offset)

theorem Refers.later {owner c : Entry} {stored : Option SymbolId}
    (h : Refers src s owner c stored) (later : Later src s s') : Refers src s' owner c stored := by
  unfold Refers at *
  split at h
  · exact h
  · split at h
    · exact h
    · intro ne
      obtain ⟨asked, found, hfound, told, lost⟩ := h ne
      exact ⟨later.asked _ asked, found, later.noted _ hfound,
        fun h => later.told _ _ ne (told h), lost⟩

/-! ## Symbols -/

/-- The answer is an identifier, and the symbol stands there. -/
def Stands (new : SymbolId → Prop) (s : State) (r : Option SymbolId) (x : Symbol) : Prop :=
  ∃ id, new id ∧ r = some id ∧ s.symbols.get? id = some x

/- What is stored for the types of entries is told by a relation `R`. -/
variable {R R' : Entry → Option SymbolId → Prop} {new new' : SymbolId → Prop} {e : Entry}

def DescribesSignature (R : Entry → Option SymbolId → Prop) (e : Entry) (g : Symbol.Signature) :
    Prop :=
  R e g.returnType ∧ List.Forall₂ R (e.childrenOf .formalParameter) g.parameters.toList

def DescribesAggregate (R : Entry → Option SymbolId → Prop) (new : SymbolId → Prop) (s : State)
    (kind : Symbol.AggregateKind) (e : Entry) (r : Option SymbolId) : Prop :=
  ∃ a, Stands new s r (.aggregate a) ∧ a.kind = kind ∧
    List.Forall₂ (fun c m => R c m.type) (e.childrenOf .member) a.members.toList

/-- The index type of an array is that of its last subrange. -/
def DescribesIndex (R : Entry → Option SymbolId → Prop) (subranges : List Entry)
    (index : Option SymbolId) : Prop :=
  match subranges.getLast? with
  | none => index = none
  | some c => R c index

def NotBuilt (src : Source) (e : Entry) : Prop :=
  (src.image.thunk? (extent src e).1).isSome = true ∨ e.flag src.view .declaration = true

/-- The answer is what the entry is to be built into.  Its symbols are among the `new`
ones. -/
def Describes (src : Source) (R : Entry → Option SymbolId → Prop) (new : SymbolId → Prop)
    (s : State) (e : Entry) (r : Option SymbolId) : Prop :=
  match e.tag with
  | .baseType => ∃ b, Stands new s r (.baseType b)
  | .typedef => ∃ d, Stands new s r (.typedef d) ∧ R e d.target
  | .pointerType | .referenceType => ∃ p, Stands new s r (.pointer p) ∧ R e p.target
  | .classType => DescribesAggregate R new s .classType e r
  | .structureType => DescribesAggregate R new s .structType e r
  | .unionType => DescribesAggregate R new s .unionType e r
  | .arrayType =>
    if e.abbreviation.hasChildren then
      ∃ a, Stands new s r (.array a) ∧ R e a.element ∧
        DescribesIndex R (e.childrenOf .subrangeType) a.index
    else
      r = none
  | .constType | .volatileType => R e r
  | .enumerationType =>
    ∃ n, Stands new s r (.enumeration n) ∧
      List.Forall₂ (fun c v => v.value = (c.signed? src.view .constValue).getD 0)
        (e.childrenOf .enumerator) n.enumerators.toList
  | .subprogram =>
    (NotBuilt src e → r = none) ∧
      (¬NotBuilt src e → ∃ f g, Stands new s r (.function f) ∧ new f.signature ∧
        s.symbols.get? f.signature = some (.signature g) ∧ DescribesSignature R e g)
  | .subroutineType => ∃ g, Stands new s r (.signature g) ∧ DescribesSignature R e g
  -- The root is built with its unit.
  | .compileUnit => True
  | _ => r = none

theorem Stands.imp {r : Option SymbolId} {x : Symbol} (h : Stands new s r x)
    (kept : ∀ id x, new id → s.symbols.get? id = some x →
      s'.symbols.get? id = some x ∧ new' id) : Stands new' s' r x := by
  obtain ⟨id, hnew, hr, hx⟩ := h
  exact ⟨id, (kept id x hnew hx).2, hr, (kept id x hnew hx).1⟩

theorem DescribesSignature.imp {g : Symbol.Signature} (h : DescribesSignature R e g)
    (refs : ∀ c stored, R c stored → R' c stored) : DescribesSignature R' e g :=
  ⟨refs _ _ h.1, h.2.imp refs⟩

theorem DescribesIndex.imp {subranges : List Entry} {index : Option SymbolId}
    (h : DescribesIndex R subranges index) (refs : ∀ c stored, R c stored → R' c stored) :
    DescribesIndex R' subranges index := by
  unfold DescribesIndex at *
  split at h
  · exact h
  · exact refs _ _ h

theorem DescribesAggregate.imp {kind : Symbol.AggregateKind} {r : Option SymbolId}
    (h : DescribesAggregate R new s kind e r) (refs : ∀ c stored, R c stored → R' c stored)
    (kept : ∀ id x, new id → s.symbols.get? id = some x →
      s'.symbols.get? id = some x ∧ new' id) : DescribesAggregate R' new' s' kind e r := by
  obtain ⟨a, hstands, hkind, hmembers⟩ := h
  exact ⟨a, hstands.imp kept, hkind, hmembers.imp fun _ _ h => refs _ _ h⟩

theorem Describes.imp {r : Option SymbolId} (h : Describes src R new s e r)
    (refs : ∀ c stored, R c stored → R' c stored)
    (kept : ∀ id x, new id → s.symbols.get? id = some x →
      s'.symbols.get? id = some x ∧ new' id) : Describes src R' new' s' e r := by
  unfold Describes at *
  split at h
  · obtain ⟨b, hb⟩ := h
    exact ⟨b, hb.imp kept⟩
  · obtain ⟨d, hd, target⟩ := h
    exact ⟨d, hd.imp kept, refs _ _ target⟩
  · obtain ⟨p, hp, target⟩ := h
    exact ⟨p, hp.imp kept, refs _ _ target⟩
  · obtain ⟨p, hp, target⟩ := h
    exact ⟨p, hp.imp kept, refs _ _ target⟩
  · exact h.imp refs kept
  · exact h.imp refs kept
  · exact h.imp refs kept
  · by_cases children : e.abbreviation.hasChildren
    · rw [if_pos children] at h ⊢
      obtain ⟨a, ha, element, index⟩ := h
      exact ⟨a, ha.imp kept, refs _ _ element, index.imp refs⟩
    · rw [if_neg children] at h ⊢
      exact h
  · exact refs _ _ h
  · exact refs _ _ h
  · obtain ⟨n, hn, values⟩ := h
    exact ⟨n, hn.imp kept, values⟩
  · refine ⟨h.1, fun built => ?_⟩
    obtain ⟨f, g, hf, hnew, hg, hsignature⟩ := h.2 built
    exact ⟨f, g, hf.imp kept, (kept _ _ hnew hg).2, (kept _ _ hnew hg).1, hsignature.imp refs⟩
  · obtain ⟨g, hg, hsignature⟩ := h
    exact ⟨g, hg.imp kept, hsignature.imp refs⟩
  · trivial
  · exact h

/-- What is built stays so in a later state that keeps its symbols. -/
theorem Describes.later {r : Option SymbolId} (h : Describes src (Refers src s e) new s e r)
    (later : Later src s s')
    (kept : ∀ id x, new id → s.symbols.get? id = some x →
      s'.symbols.get? id = some x ∧ new' id) :
    Describes src (Refers src s' e) new' s' e r :=
  h.imp (fun _ _ refers => refers.later later) kept

/-- An entry that has a kind is built into a symbol of that kind. -/
theorem Describes.stands_of_kind {id : SymbolId} {k : Symbol.Kind}
    (h : Describes src R new s e (some id)) (kind : e.tag.kind? = some k) :
    ∃ x, new id ∧ s.symbols.get? id = some x ∧ x.kind? = some k := by
  have stands : ∀ {x}, Stands new s (some id) x → x.kind? = some k →
      ∃ x, new id ∧ s.symbols.get? id = some x ∧ x.kind? = some k := by
    rintro x ⟨i, hnew, ⟨⟩, hx⟩ hk
    exact ⟨x, hnew, hx, hk⟩
  unfold Describes at h
  split at h <;> rename_i tag <;> try rw [tag] at kind
  · obtain ⟨b, hb⟩ := h
    exact stands hb kind
  · obtain ⟨d, hd, -⟩ := h
    exact stands hd kind
  · obtain ⟨p, hp, -⟩ := h
    exact stands hp kind
  · obtain ⟨p, hp, -⟩ := h
    exact stands hp kind
  · obtain ⟨a, ha, hkind, -⟩ := h
    exact stands ha (by rw [← kind, Symbol.kind?, hkind]; rfl)
  · obtain ⟨a, ha, hkind, -⟩ := h
    exact stands ha (by rw [← kind, Symbol.kind?, hkind]; rfl)
  · obtain ⟨a, ha, hkind, -⟩ := h
    exact stands ha (by rw [← kind, Symbol.kind?, hkind]; rfl)
  · split at h
    · obtain ⟨a, ha, -, -⟩ := h
      exact stands ha kind
    · cases h
  · cases kind
  · cases kind
  · obtain ⟨n, hn, -⟩ := h
    exact stands hn kind
  · cases kind
  · cases kind
  · cases kind
  · cases h

/-- Entries that never become symbols have none. -/
theorem Describes.eq_none_of_neverNamed {r : Option SymbolId} (h : Describes src R new s e r)
    (never : NeverNamed src e) : r = none := by
  rcases never with tag | ⟨tag, declaration⟩
  · rw [Describes, tag] at h
    exact h
  · rw [Describes, tag] at h
    exact h.1 (.inr declaration)

end Build
end Dwarf2
