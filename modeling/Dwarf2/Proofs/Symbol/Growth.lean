/-
How a symbol table grows.

Nothing that is in a table is ever taken back: an identifier stands for its symbol for good,
and a symbol is at most filled in or given more parts.  `Extends R` says that one table has
grown out of another, where `R` tells for every identifier what may have become of its symbol.
Whoever builds symbols may change those that it has in hand, and no others: `Within`.
-/
import Dwarf2.Proofs.Symbol.Table

namespace Dwarf2
namespace Symbol

/-! ## Symbols -/

/-- What may become of a function.  It is given more parts, and its labels are put in order. -/
structure Function.Develops (f g : Function) : Prop where
  name : g.name = f.name
  compiland : g.compiland = f.compiland
  address : g.address = f.address
  length : g.length = f.length
  signature : g.signature = f.signature
  locals : f.locals.toList <+: g.locals.toList
  blocks : f.blocks.toList <+: g.blocks.toList
  labels : ∀ l, f.labels.toList.count l ≤ g.labels.toList.count l
  lines : f.lines.Sublist g.lines
  normalized : f.normalized = true → g.normalized = true

theorem Function.Develops.refl (f : Function) : f.Develops f :=
  ⟨rfl, rfl, rfl, rfl, rfl, List.prefix_refl _, List.prefix_refl _, fun _ => Nat.le_refl _,
    .refl _, id⟩

theorem Function.Develops.trans {f g k : Function} (h : f.Develops g) (h' : g.Develops k) :
    f.Develops k where
  name := h'.name.trans h.name
  compiland := h'.compiland.trans h.compiland
  address := h'.address.trans h.address
  length := h'.length.trans h.length
  signature := h'.signature.trans h.signature
  locals := h.locals.trans h'.locals
  blocks := h.blocks.trans h'.blocks
  labels l := Nat.le_trans (h.labels l) (h'.labels l)
  lines := h.lines.trans h'.lines
  normalized done := h'.normalized (h.normalized done)

namespace Function.Develops

variable (f : Function)

theorem addLocal (l : Local) : f.Develops { f with locals := f.locals.push l } :=
  { refl f with
    locals := by
      rw [Array.toList_push]
      exact List.prefix_append _ _ }

theorem openBlock (b : Block) : f.Develops { f with blocks := f.blocks.push b } :=
  { refl f with
    blocks := by
      rw [Array.toList_push]
      exact List.prefix_append _ _ }

theorem addLabel (l : Label) : f.Develops { f with labels := f.labels.push l } :=
  { refl f with
    labels := fun _ => by
      rw [Array.toList_push, List.count_append]
      exact Nat.le_add_right _ _ }

theorem normalize :
    f.Develops { f with labels := Table.sortLabels f.labels, normalized := true } :=
  { refl f with
    labels := fun l =>
      Nat.le_of_eq ((List.mergeSort_perm f.labels.toList _).count_eq l).symm
    normalized := fun _ => rfl }

end Function.Develops

/-- What may become of a symbol.  A place is filled with anything.  From then on the kind of
the symbol is settled, and all that it says but for the parts it takes up. -/
inductive Develops : Symbol → Symbol → Prop
  | same (x : Symbol) : Develops x x
  | fill (x : Symbol) : Develops .placeholder x
  | aggregate {a : Aggregate} {members : Array Member}
      (more : a.members.toList <+: members.toList) :
      Develops (.aggregate a) (.aggregate { a with members })
  | enumeration {e : Enumeration} {enumerators : Array Enumerator}
      (more : e.enumerators.toList <+: enumerators.toList) :
      Develops (.enumeration e) (.enumeration { e with enumerators })
  | signature {g : Signature} {parameters : Array (Option SymbolId)}
      (more : g.parameters.toList <+: parameters.toList) :
      Develops (.signature g) (.signature { g with parameters })
  | function {f g : Function} (h : f.Develops g) : Develops (.function f) (.function g)

namespace Develops

theorem addMember (a : Aggregate) (m : Member) :
    (Symbol.aggregate a).Develops (.aggregate { a with members := a.members.push m }) :=
  .aggregate (by rw [Array.toList_push]; exact List.prefix_append _ _)

theorem addEnumerator (e : Enumeration) (v : Enumerator) :
    (Symbol.enumeration e).Develops (.enumeration { e with enumerators := e.enumerators.push v }) :=
  .enumeration (by rw [Array.toList_push]; exact List.prefix_append _ _)

theorem addParameter (g : Signature) (type : Option SymbolId) :
    (Symbol.signature g).Develops (.signature { g with parameters := g.parameters.push type }) :=
  .signature (by rw [Array.toList_push]; exact List.prefix_append _ _)

theorem trans {x y z : Symbol} (h : x.Develops y) (h' : y.Develops z) : x.Develops z := by
  cases h with
  | same => exact h'
  | fill => exact .fill z
  | aggregate more =>
    cases h' with
    | same => exact .aggregate more
    | aggregate more' => exact .aggregate (more.trans more')
  | enumeration more =>
    cases h' with
    | same => exact .enumeration more
    | enumeration more' => exact .enumeration (more.trans more')
  | signature more =>
    cases h' with
    | same => exact .signature more
    | signature more' => exact .signature (more.trans more')
  | function more =>
    cases h' with
    | same => exact .function more
    | function more' => exact .function (more.trans more')

theorem of_compiland {source : SourceId} {y : Symbol} (h : (Symbol.compiland source).Develops y) :
    y = .compiland source := by
  cases h with
  | same => rfl

theorem of_signature {g : Signature} {y : Symbol} (h : (Symbol.signature g).Develops y) :
    ∃ g', y = .signature g' := by
  cases h with
  | same => exact ⟨g, rfl⟩
  | signature => exact ⟨_, rfl⟩

theorem of_function {f : Function} {y : Symbol} (h : (Symbol.function f).Develops y) :
    ∃ g, y = .function g ∧ f.Develops g := by
  cases h with
  | same => exact ⟨f, rfl, .refl f⟩
  | function h => exact ⟨_, rfl, h⟩

end Develops

/-- The symbol with the identifier may develop if it is in hand, and stays as it is if not. -/
structure Within (hand : List SymbolId) (id : SymbolId) (x y : Symbol) : Prop where
  develops : x.Develops y
  kept : id ∉ hand → y = x

namespace Within

variable {hand : List SymbolId} {id : SymbolId} {x y z : Symbol}

theorem refl (hand : List SymbolId) (id : SymbolId) (x : Symbol) : Within hand id x x :=
  ⟨.same x, fun _ => rfl⟩

theorem trans (h : Within hand id x y) (h' : Within hand id y z) : Within hand id x z :=
  ⟨h.develops.trans h'.develops, fun out => (h'.kept out).trans (h.kept out)⟩

theorem free (mine : id ∈ hand) (x y : Symbol) (h : x.Develops y) : Within hand id x y :=
  ⟨h, fun out => absurd mine out⟩

theorem mono {hand' : List SymbolId} (h : Within hand id x y) (sub : ∀ i ∈ hand, i ∈ hand') :
    Within hand' id x y :=
  ⟨h.develops, fun out => h.kept fun mem => out (sub id mem)⟩

end Within

/-- The symbol is the same but for lines that a function has got. -/
inductive Gains : Symbol → Symbol → Prop
  | same (x : Symbol) : Gains x x
  | lines {f : Function} {lines : List LineFact} (more : f.lines.Sublist lines) :
      Gains (.function f) (.function { f with lines })

namespace Gains

theorem trans {x y z : Symbol} (h : x.Gains y) (h' : y.Gains z) : x.Gains z := by
  cases h with
  | same => exact h'
  | lines more =>
    cases h' with
    | same => exact .lines more
    | lines more' => exact .lines (more.trans more')

theorem function {f : Function} {y : Symbol} (h : Gains (.function f) y) :
    ∃ lines, y = .function { f with lines } := by
  cases h with
  | same => exact ⟨f.lines, rfl⟩
  | @lines _ lines => exact ⟨lines, rfl⟩

theorem develops {x y : Symbol} (h : x.Gains y) : x.Develops y := by
  cases h with
  | same => exact .same x
  | @lines f _ more => exact .function { Function.Develops.refl f with lines := more }

end Gains

/-! ## Tables -/

namespace Table

/-- The table has grown out of another one. -/
structure Extends (R : SymbolId → Symbol → Symbol → Prop) (t u : Table) : Prop where
  symbols : ∀ id x, t.get? id = some x → ∃ y, u.get? id = some y ∧ R id x y
  addresses : ∀ p ∈ t.addresses.placed, p ∈ u.addresses.placed
  sources : t.sources.toList <+: u.sources.toList
  detached : t.detached.toList <+: u.detached.toList
  capabilities : u.capabilities = t.capabilities

variable {R R' : SymbolId → Symbol → Symbol → Prop} {t u w : Table} {id : SymbolId}

namespace Extends

theorem refl (same : ∀ id x, R id x x) (t : Table) : Extends R t t :=
  ⟨fun id x hx => ⟨x, hx, same id x⟩, fun _ h => h, List.prefix_refl _, List.prefix_refl _, rfl⟩

theorem trans (join : ∀ id x y z, R id x y → R id y z → R id x z) (h : Extends R t u)
    (h' : Extends R u w) : Extends R t w where
  symbols id x hx := by
    obtain ⟨y, hy, first⟩ := h.symbols id x hx
    obtain ⟨z, hz, second⟩ := h'.symbols id y hy
    exact ⟨z, hz, join id x y z first second⟩
  addresses p hp := h'.addresses p (h.addresses p hp)
  sources := h.sources.trans h'.sources
  detached := h.detached.trans h'.detached
  capabilities := h'.capabilities.trans h.capabilities

theorem imp (h : Extends R t u)
    (weaker : ∀ id x y, t.get? id = some x → R id x y → R' id x y) : Extends R' t u where
  symbols id x hx := by
    obtain ⟨y, hy, changed⟩ := h.symbols id x hx
    exact ⟨y, hy, weaker id x y hx changed⟩
  addresses := h.addresses
  sources := h.sources
  detached := h.detached
  capabilities := h.capabilities

theorem lt_size (h : Extends R t u) (inside : id.index < t.size) : id.index < u.size := by
  obtain ⟨y, hy, -⟩ := h.symbols id _ (Array.getElem?_eq_getElem inside)
  exact lt_size_of_get? hy

theorem size_le (h : Extends R t u) : t.size ≤ u.size := by
  cases n : t.size with
  | zero => exact Nat.zero_le _
  | succ last =>
    have inside : (⟨last⟩ : SymbolId).index < t.size := by
      rw [n]
      exact Nat.lt_succ_self last
    exact h.lt_size inside

theorem sources_size_le (h : Extends R t u) : t.sources.size ≤ u.sources.size :=
  h.sources.length_le

end Extends

/-! ## Operations -/

theorem lt_size_push (t : Table) (x : Symbol) : t.size < (t.push x).2.size := by
  rw [size_push]
  exact Nat.lt_succ_self t.size

theorem mem_addresses_place (t : Table) (id : SymbolId) (x : Symbol) (p : Placed) :
    p ∈ (t.place id x).addresses.placed ↔
      p ∈ t.addresses.placed ∨ p.id = id ∧ x.address? = some p.address := by
  obtain ⟨address, other⟩ := p
  unfold place
  split
  · rename_i there
    rw [there, AddressIndex.insert, mem_insertPlaced, or_comm, Placed.mk.injEq]
    simp only [Option.some.injEq, and_comm, eq_comm]
  · rename_i nowhere
    simp [nowhere]

namespace Extends

theorem place (h : Extends R t u) (id : SymbolId) (x : Symbol) :
    Extends R t (u.place id x) := by
  have unplaced : (u.place id x).sources = u.sources ∧ (u.place id x).detached = u.detached ∧
      (u.place id x).capabilities = u.capabilities := by
    unfold Table.place
    split <;> exact ⟨rfl, rfl, rfl⟩
  obtain ⟨sources, detached, capabilities⟩ := unplaced
  refine ⟨fun other y hy => ?_, fun p hp => ?_, ?_, ?_, ?_⟩
  · rw [get?_place]
    exact h.symbols other y hy
  · exact (mem_addresses_place u id x p).2 (.inl (h.addresses p hp))
  · rw [sources]
    exact h.sources
  · rw [detached]
    exact h.detached
  · rw [capabilities]
    exact h.capabilities

theorem push (same : ∀ id x, R id x x) (t : Table) (x : Symbol) : Extends R t (t.push x).2 := by
  have pushed : Extends R t { t with symbols := t.symbols.push x } := by
    refine ⟨fun id y hy => ⟨y, ?_, same id y⟩, fun _ h => h, List.prefix_refl _,
      List.prefix_refl _, rfl⟩
    have inside : id.index < t.symbols.size := lt_size_of_get? hy
    rw [get?, Array.getElem?_push, if_neg (Nat.ne_of_lt inside)]
    exact hy
  exact pushed.place _ x

theorem update (same : ∀ id x, R id x x) {f : Symbol → Symbol}
    (changed : ∀ x, t.get? id = some x → R id x (f x)) : Extends R t (t.update id f) := by
  refine ⟨fun other x hx => ?_, fun _ h => h, List.prefix_refl _, List.prefix_refl _, rfl⟩
  by_cases here : other = id
  · subst here
    exact ⟨f x, by rw [get?_update_self, hx]; rfl, changed x hx⟩
  · exact ⟨x, by rw [get?_update_of_ne t f here, hx], same other x⟩

theorem fill (same : ∀ id x, R id x x) {x : Symbol} (filled : R id .placeholder x) :
    Extends R t (t.fill id x) := by
  unfold Table.fill
  split
  · rename_i empty
    refine .place (.update same fun y hy => ?_) id x
    cases empty.symm.trans hy
    exact filled
  · exact .refl same t

theorem updateFunction (same : ∀ id x, R id x x) {f : Function → Function}
    (changed : ∀ g, t.get? id = some (.function g) → R id (.function g) (.function (f g))) :
    Extends R t (t.updateFunction id f) :=
  .update same fun x hx => by
    cases x with
    | function g => exact changed g hx
    | _ => exact same id _

theorem addMember (same : ∀ id x, R id x x) (free : ∀ x y, x.Develops y → R id x y) (m : Member) :
    Extends R t (t.addMember id m) :=
  .update same fun x _ => by
    cases x with
    | aggregate a => exact free _ _ (.addMember a m)
    | _ => exact same id _

theorem addEnumerator (same : ∀ id x, R id x x) (free : ∀ x y, x.Develops y → R id x y)
    (v : Enumerator) : Extends R t (t.addEnumerator id v) :=
  .update same fun x _ => by
    cases x with
    | enumeration e => exact free _ _ (.addEnumerator e v)
    | _ => exact same id _

theorem addParameter (same : ∀ id x, R id x x) (free : ∀ x y, x.Develops y → R id x y)
    (type : Option SymbolId) : Extends R t (t.addParameter id type) :=
  .update same fun x _ => by
    cases x with
    | signature g => exact free _ _ (.addParameter g type)
    | _ => exact same id _

theorem addLocal (same : ∀ id x, R id x x) (free : ∀ x y, x.Develops y → R id x y) (l : Local) :
    Extends R t (t.addLocal id l) :=
  .updateFunction same fun f _ => free _ _ (.function (.addLocal f l))

theorem openBlock (same : ∀ id x, R id x x) (free : ∀ x y, x.Develops y → R id x y) (b : Block) :
    Extends R t (t.openBlock id b).2 := by
  unfold Table.openBlock
  split
  · exact .updateFunction same fun f _ => free _ _ (.function (.openBlock f b))
  · exact .refl same t

theorem addLabel (same : ∀ id x, R id x x) (free : ∀ x y, x.Develops y → R id x y) (l : Label) :
    Extends R t (t.addLabel id l) :=
  .updateFunction same fun f _ => free _ _ (.function (.addLabel f l))

theorem normalize (same : ∀ id x, R id x x) (free : ∀ x y, x.Develops y → R id x y) :
    Extends R t (t.normalize id) :=
  .updateFunction same fun f _ => free _ _ (.function (.normalize f))

theorem addDetached (same : ∀ id x, R id x x) (t : Table) (l : Local) :
    Extends R t (t.addDetached l) :=
  { Extends.refl same t with
    detached := by
      rw [Table.addDetached, Array.toList_push]
      exact List.prefix_append _ _ }

theorem intern (same : ∀ id x, R id x x) (t : Table) (path : String) :
    Extends R t (t.intern path).2 where
  symbols id x hx := ⟨x, hx, same id x⟩
  addresses _ h := h
  sources := by
    rcases t.intern_cases path with ⟨source, -, eq⟩ | ⟨-, -, sources⟩
    · exact ⟨[], by rw [List.append_nil, eq]⟩
    · rw [sources, Array.toList_push]
      exact List.prefix_append _ _
  detached := List.prefix_refl _
  capabilities := rfl

theorem internFile (same : ∀ id x, R id x x) (t : Table) (directory : Option String)
    (name : String) : Extends R t (t.internFile directory name).2 :=
  .intern same t _

end Extends

theorem intern_lt_size (t : Table) (path : String) :
    (t.intern path).1.index < (t.intern path).2.sources.size :=
  (Array.getElem?_eq_some_iff.1 (t.source?_intern path)).1

/-! ## What is in hand -/

/-- The table has grown, and of the symbols that were there only those in hand have changed. -/
abbrev Grows (hand : List SymbolId) (t u : Table) : Prop :=
  Extends (Within hand) t u

namespace Grows

variable {hand hand' : List SymbolId}

theorem refl (t : Table) : Grows hand t t :=
  Extends.refl (Within.refl hand) t

theorem trans (h : Grows hand t u) (h' : Grows hand u w) : Grows hand t w :=
  Extends.trans (fun _ _ _ _ => Within.trans) h h'

theorem widen (h : Grows hand t u) (sub : ∀ id ∈ hand, id ∈ hand') : Grows hand' t u :=
  Extends.imp h fun _ _ _ _ within => within.mono sub

/-- What was not there before may be changed in any case. -/
theorem leave (h : Grows hand t u) (new : ∀ id ∈ hand, t.size ≤ id.index) : Grows [] t u :=
  Extends.imp h fun id _ _ hx within => ⟨within.develops, fun _ => within.kept fun mem =>
    absurd (lt_size_of_get? hx) (Nat.not_lt.2 (new id mem))⟩

theorem develops (h : Grows hand t u) : Extends (fun _ => Develops) t u :=
  Extends.imp h fun _ _ _ _ within => within.develops

theorem get?_eq (h : Grows [] t u) {x : Symbol} (hx : t.get? id = some x) : u.get? id = some x := by
  obtain ⟨y, hy, within⟩ := h.symbols id x hx
  rw [hy, within.kept List.not_mem_nil]

theorem function (h : Grows hand t u) {f : Function} (hf : t.get? id = some (.function f)) :
    ∃ g, u.get? id = some (.function g) ∧ f.Develops g := by
  obtain ⟨y, hy, within⟩ := h.symbols id _ hf
  obtain ⟨g, rfl, more⟩ := within.develops.of_function
  exact ⟨g, hy, more⟩

end Grows
end Table
end Symbol
end Dwarf2
