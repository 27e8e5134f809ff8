/-
The parts of aggregates, enumerations and types of functions.

Parts are added one by one to a symbol that others may already refer to, and the types of the
parts may lead back to it.  `Assembled` says what that comes to when all calls have returned:
the parts of a symbol are those that the children of its entry stand for, one for each and in
their order, and no symbol has parts of anything else.
-/
import Dwarf2.Proofs.Build.Trace

namespace Dwarf2
namespace Build

variable {src : Source} {start s : State} {e : Entry} {offset : Nat} {r : Option SymbolId}

/-- The tag tells which kind of aggregate is built. -/
theorem build_aggregate {resolve : Resolver} {kind : Symbol.AggregateKind}
    (tag : e.tag.kind? = some (.aggregate kind)) :
    build src resolve e = some <$> buildAggregate src resolve kind e := by
  unfold Tag.kind? at tag
  unfold build
  split at tag <;> cases tag <;> rename_i htag <;> rw [htag] <;> rfl

theorem kind?_eq_enumeration_iff {tag : Tag} :
    tag.kind? = some .enumeration ↔ tag = .enumerationType := by
  refine ⟨fun h => ?_, fun h => h ▸ rfl⟩
  unfold Tag.kind? at h
  split at h <;> cases h
  rfl

namespace Grows

/-! ## The parts of one entry -/

section Parts

variable (grows : Grows src {} start s) (fresh : ∀ offset, slot start offset = .unresolved)
  (he : src.tree.get? offset = some e) (resolved : slot s offset = .resolved r)
include grows fresh he resolved

theorem members {kind : Symbol.AggregateKind} (tag : e.tag.kind? = some (.aggregate kind)) :
    ∃ a, Stands (start.symbols.size ≤ ·.index) s r (.aggregate a) ∧ a.kind = kind ∧
      List.Forall₂ (MemberOf src (Stores src s e)) (e.childrenOf .member) a.members.toList := by
  obtain ⟨s₁, s₂, trace⟩ := grows.trace fresh he (fun root => by rw [root] at tag; cases tag)
    resolved
  obtain ⟨steps, work, pending, eq⟩ := trace.runs
  rw [build_aggregate tag] at eq
  obtain ⟨id, run, rfl⟩ := run_map_eq.1 eq
  obtain ⟨x, exposed, a, rfl, hkind, members⟩ :=
    work.run_buildAggregate pending (answers_resolveWithin src steps) run
  exact ⟨a, trace.stands exposed, hkind, members.imp fun _ _ h => h.imp (trace.stores grows fresh)⟩

theorem enumerators (tag : e.tag = .enumerationType) :
    ∃ n, Stands (start.symbols.size ≤ ·.index) s r (.enumeration n) ∧
      List.Forall₂ (EnumeratorOf src) (e.childrenOf .enumerator) n.enumerators.toList := by
  obtain ⟨s₁, s₂, trace⟩ := grows.trace fresh he (by rw [tag]; nofun) resolved
  obtain ⟨steps, work, pending, eq⟩ := trace.runs
  rw [build, tag] at eq
  obtain ⟨id, run, rfl⟩ := run_map_eq.1 eq
  obtain ⟨x, exposed, n, rfl, values⟩ := work.run_buildEnumeration pending run
  exact ⟨n, trace.stands exposed, values⟩

theorem parameters (tag : e.tag = .subroutineType) :
    ∃ g, Stands (start.symbols.size ≤ ·.index) s r (.signature g) ∧
      List.Forall₂ (Stores src s e) (e.childrenOf .formalParameter) g.parameters.toList := by
  obtain ⟨s₁, s₂, trace⟩ := grows.trace fresh he (by rw [tag]; nofun) resolved
  obtain ⟨steps, work, pending, eq⟩ := trace.runs
  rw [build, tag] at eq
  obtain ⟨id, run, rfl⟩ := run_map_eq.1 eq
  obtain ⟨x, exposed, g, rfl, -, parameters⟩ :=
    work.run_buildSubroutineType pending (answers_resolveWithin src steps) tag run
  exact ⟨g, trace.stands exposed, parameters.imp (trace.stores grows fresh)⟩

/-- The signature of a function takes up parameters like that of a type of functions. -/
theorem functionSignature (tag : e.tag = .subprogram) {f : Symbol.Function}
    (stands : Stands (start.symbols.size ≤ ·.index) s r (.function f)) :
    ∃ g, s.symbols.get? f.signature = some (.signature g) ∧
      DescribesSignature (Stores src s e) e g := by
  have describes := grows.described offset e r he ⟨fresh offset, resolved⟩
  simp only [Describes, tag] at describes
  have built : ¬NotBuilt src e := fun not => by
    obtain ⟨id, -, some, -⟩ := stands
    exact Option.some_ne_none id (some.symm.trans (describes.1 not))
  obtain ⟨f', g, stands', -, hg, signature⟩ := describes.2 built
  cases stands'.unique stands
  exact ⟨g, hg, signature.imp fun _ _ => grows.stores fresh⟩

end Parts
end Grows

/-! ## All parts -/

/-- The signature is that of the entry, be it a type of functions or a function, and the entry
has been resolved. -/
def SignsFor (symbols : Symbol.Table) (s : State) (offset : Nat) (e : Entry) (id : SymbolId) :
    Prop :=
  ∃ r, slot s offset = .resolved r ∧ Signs (symbols.size ≤ ·.index) s e r id

/-- What the lists of parts are like in the end, where the symbols of the calls come after
those of the table that was given. -/
structure Assembled (src : Source) (symbols : Symbol.Table) (s : State) : Prop where
  /-- A structure, class or union has a member for each child that is a member. -/
  members : ∀ offset e r kind, src.tree.get? offset = some e →
    e.tag.kind? = some (.aggregate kind) → slot s offset = .resolved r →
      ∃ a, Stands (symbols.size ≤ ·.index) s r (.aggregate a) ∧ a.kind = kind ∧
        List.Forall₂ (MemberOf src (Stores src s e)) (e.childrenOf .member) a.members.toList
  enumerators : ∀ offset e r, src.tree.get? offset = some e → e.tag = .enumerationType →
    slot s offset = .resolved r →
      ∃ n, Stands (symbols.size ≤ ·.index) s r (.enumeration n) ∧
        List.Forall₂ (EnumeratorOf src) (e.childrenOf .enumerator) n.enumerators.toList
  parameters : ∀ offset e r, src.tree.get? offset = some e → e.tag = .subroutineType →
    slot s offset = .resolved r →
      ∃ g, Stands (symbols.size ≤ ·.index) s r (.signature g) ∧
        List.Forall₂ (Stores src s e) (e.childrenOf .formalParameter) g.parameters.toList
  /-- There are no other aggregates, and no two entries share one. -/
  ofAggregate : ∀ id a, symbols.size ≤ id.index → s.symbols.get? id = some (.aggregate a) →
    ∃! offset, ∃ e, src.tree.get? offset = some e ∧ e.tag.kind? = some (.aggregate a.kind) ∧
      slot s offset = .resolved (some id)
  ofEnumeration : ∀ id n, symbols.size ≤ id.index → s.symbols.get? id = some (.enumeration n) →
    ∃! offset, ∃ e, src.tree.get? offset = some e ∧ e.tag = .enumerationType ∧
      slot s offset = .resolved (some id)
  /-- There are other signatures, of functions and of declarations.  Those that have parameters
  at all have those of one entry. -/
  ofSignature : ∀ id g, symbols.size ≤ id.index → s.symbols.get? id = some (.signature g) →
    g.parameters ≠ #[] → ∃ offset e, src.tree.get? offset = some e ∧
      SignsFor symbols s offset e id ∧
        List.Forall₂ (Stores src s e) (e.childrenOf .formalParameter) g.parameters.toList
  /-- Nothing is added to symbols that were there before. -/
  kept : ∀ id, id.index < symbols.size → s.symbols.get? id = symbols.get? id

section After

variable (src : Source) (symbols : Symbol.Table) (names : NameSupply) (calls : List Call)

theorem assembled_after : Assembled src symbols (after src symbols names calls) := by
  have grows := grows_after src symbols names calls
  have fresh := slot_new symbols names
  have sole : ∀ id x k, symbols.size ≤ id.index →
      (after src symbols names calls).symbols.get? id = some x → x.kind? = some k →
        ∃! offset, ∃ e, src.tree.get? offset = some e ∧ e.tag.kind? = some k ∧
          slot (after src symbols names calls) offset = .resolved (some id) := by
    intro id x k low hx hk
    obtain ⟨offset, e, he, htag, hs⟩ := grows.owned id x k low List.not_mem_nil hx hk
    refine ⟨offset, ⟨e, he, htag, hs.2⟩, ?_⟩
    rintro other ⟨d, hd, htag', resolved⟩
    exact grows.unique other offset d e k k id hd he htag' htag ⟨fresh other, resolved⟩ hs
  refine ⟨fun _ e r kind he tag resolved => grows.members fresh he resolved tag,
    fun _ e r he tag resolved => grows.enumerators fresh he resolved tag,
    fun _ e r he tag resolved => grows.parameters fresh he resolved tag,
    fun id a low ha => sole id _ _ low ha rfl, fun id n low hn => ?_, fun id g low hg ne => ?_,
    fun id low => grows.kept id low List.not_mem_nil⟩
  · simp only [← kind?_eq_enumeration_iff]
    exact sole id _ _ low hn rfl
  · obtain ⟨offset, e, r, he, hs, signs⟩ := grows.signed id g low List.not_mem_nil hg ne
    have signs : Signs (symbols.size ≤ ·.index) (after src symbols names calls) e r id :=
      signs.imp fun id x new hx => ⟨hx, new.1⟩
    refine ⟨offset, e, he, ⟨r, hs.2, signs⟩, ?_⟩
    rcases signs with ⟨tag, rfl⟩ | ⟨tag, f, stands, rfl⟩
    · obtain ⟨g', stands, parameters⟩ := grows.parameters fresh he hs.2 tag
      cases stands.unique (⟨id, low, rfl, hg⟩ : Stands (symbols.size ≤ ·.index) _ _ _)
      exact parameters
    · obtain ⟨g', hg', -, parameters⟩ := grows.functionSignature fresh he hs.2 tag stands
      cases hg.symm.trans hg'
      exact parameters

end After

end Build
end Dwarf2
