/-
Well formed symbol tables.

Symbols refer to one another, to source files and to the blocks of functions by number.  In a
table that is `WellFormed` every such number stands for what it is meant for, and no symbol is
left unfinished.

While symbols are built, `Holds` is what each of them owes to its table, and `Finished` what it
is given in the end.  A builder knows nothing of the symbols that it finds in the table, so it
answers for those that come on top: `SoundBeyond`.
-/
import Dwarf2.Proofs.Symbol.Growth
import Dwarf2.Proofs.Symbol.Sort

namespace Dwarf2
namespace Symbol

/-- The symbols that a symbol refers to. -/
def references : Symbol → List SymbolId
  | placeholder | compiland _ | baseType _ | enumeration _ => []
  | pointer p => p.target.toList
  | array a => a.element.toList ++ a.index.toList
  | typedef d => d.target.toList
  | aggregate a => a.members.toList.filterMap Member.type
  | signature g => g.returnType.toList ++ g.parameters.toList.filterMap id
  | function f => f.compiland.toList ++ f.signature :: f.locals.toList.filterMap Local.type
  | global g => g.compiland.toList ++ g.type.toList

def sources : Symbol → List SourceId
  | compiland source => [source]
  | function f => f.lines.map LineFact.source
  | _ => []

def compiland? : Symbol → Option SymbolId
  | function f => f.compiland
  | global g => g.compiland
  | _ => none

structure Function.WellFormed (f : Function) : Prop where
  /-- A block comes behind the one around it. -/
  parents : ∀ (i p : Nat) (b : Block), f.blocks[i]? = some b → b.parent = some p → p < i
  blocks : ∀ l ∈ f.locals, ∀ b, l.block = some b → b < f.blocks.size
  lines : f.lines.Pairwise fun a b => a.offset ≤ b.offset

structure Function.Finished (f : Function) : Prop where
  normalized : f.normalized = true
  labels : f.labels.toList.Pairwise fun a b => a.address ≤ b.address

def Finished : Symbol → Prop
  | placeholder => False
  | function f => f.Finished
  | _ => True

namespace Table

variable {start t u : Table} {own own' : List SymbolId} {id : SymbolId} {x : Symbol}

/-- What is referred to is in the table, if there is anything. -/
def Inside (t : Table) (id : Option SymbolId) : Prop :=
  ∀ i, id = some i → i.index < t.size

theorem Inside.none (t : Table) : t.Inside none :=
  nofun

/-- The table has everything that the symbol refers to. -/
structure Holds (t : Table) (x : Symbol) : Prop where
  references : ∀ id ∈ x.references, id.index < t.size
  sources : ∀ source ∈ x.sources, source.index < t.sources.size
  compiland : ∀ id, x.compiland? = some id → ∃ source, t.get? id = some (.compiland source)
  signature : ∀ f, x = .function f → ∃ g, t.get? f.signature = some (.signature g)
  function : ∀ f, x = .function f → f.WellFormed

/-- All numbers in the table stand for what they are meant for, and all symbols are there in
the end. -/
structure WellFormed (t : Table) : Prop where
  symbols : ∀ id x, t.get? id = some x → t.Holds x ∧ x.Finished
  detached : ∀ l ∈ t.detached, t.Inside l.type ∧ l.block = none
  placed : ∀ p ∈ t.addresses.placed, p.id.index < t.size

/-- The same of what the table has besides that of another one.  Some symbols need not be
finished. -/
structure SoundBeyond (t start : Table) (own : List SymbolId) : Prop where
  holds : ∀ id x, start.size ≤ id.index → t.get? id = some x → t.Holds x
  finished : ∀ id x, start.size ≤ id.index → t.get? id = some x → id ∉ own → x.Finished
  detached : ∀ l ∈ t.detached, l ∈ start.detached ∨ t.Inside l.type ∧ l.block = none
  placed : ∀ p ∈ t.addresses.placed, p ∈ start.addresses.placed ∨ p.id.index < t.size

/-! ## Growth -/

theorem Inside.grow {i : Option SymbolId} (h : t.Inside i)
    (grows : Extends (fun _ => Develops) t u) : u.Inside i :=
  fun j hj => grows.lt_size (h j hj)

theorem Holds.grow (h : t.Holds x) (grows : Extends (fun _ => Develops) t u) : u.Holds x where
  references id hid := grows.lt_size (h.references id hid)
  sources source hs := Nat.lt_of_lt_of_le (h.sources source hs) grows.sources_size_le
  compiland id hid := by
    obtain ⟨source, there⟩ := h.compiland id hid
    obtain ⟨y, hy, develops⟩ := grows.symbols id _ there
    exact ⟨source, by rw [hy, develops.of_compiland]⟩
  signature f hf := by
    obtain ⟨g, there⟩ := h.signature f hf
    obtain ⟨y, hy, develops⟩ := grows.symbols f.signature _ there
    obtain ⟨g', rfl⟩ := develops.of_signature
    exact ⟨g', hy⟩
  function := h.function

/-- Where the table was well formed before, it is so again. -/
theorem SoundBeyond.wellFormed (h : t.SoundBeyond start []) (before : start.WellFormed)
    (grows : Grows [] start t) : t.WellFormed where
  symbols id x hx := by
    by_cases old : id.index < start.size
    · have there : start.get? id = some start.symbols[id.index] := Array.getElem?_eq_getElem old
      cases (grows.get?_eq there).symm.trans hx
      obtain ⟨holds, finished⟩ := before.symbols id _ there
      exact ⟨holds.grow grows.develops, finished⟩
    · have new := Nat.not_lt.1 old
      exact ⟨h.holds id x new hx, h.finished id x new hx List.not_mem_nil⟩
  detached l hl := by
    rcases h.detached l hl with old | new
    · obtain ⟨type, block⟩ := before.detached l old
      exact ⟨type.grow grows.develops, block⟩
    · exact new
  placed p hp := by
    rcases h.placed p hp with old | new
    · exact grows.lt_size (before.placed p old)
    · exact new

theorem wellFormed_iff : t.WellFormed ↔ t.SoundBeyond {} [] := by
  constructor
  · intro h
    exact ⟨fun id x _ hx => (h.symbols id x hx).1, fun id x _ hx _ => (h.symbols id x hx).2,
      fun l hl => .inr (h.detached l hl), fun p hp => .inr (h.placed p hp)⟩
  · intro h
    refine ⟨fun id x hx => ⟨h.holds id x (Nat.zero_le _) hx,
      h.finished id x (Nat.zero_le _) hx List.not_mem_nil⟩, fun l hl => ?_, fun p hp => ?_⟩
    · exact (h.detached l hl).resolve_left (Array.not_mem_empty l)
    · exact (h.placed p hp).resolve_left List.not_mem_nil

/-- What a table has to offer has no part in it. -/
theorem WellFormed.offer (h : t.WellFormed) (capabilities : Capabilities) :
    WellFormed { t with capabilities } := by
  refine ⟨fun id x hx => ?_, h.detached, h.placed⟩
  obtain ⟨holds, finished⟩ := h.symbols id x hx
  exact ⟨⟨holds.references, holds.sources, holds.compiland, holds.signature, holds.function⟩,
    finished⟩

namespace SoundBeyond

theorem refl (t : Table) : t.SoundBeyond t [] where
  holds _ _ new hx := absurd (lt_size_of_get? hx) (Nat.not_lt.2 new)
  finished _ _ new hx := absurd (lt_size_of_get? hx) (Nat.not_lt.2 new)
  detached _ h := .inl h
  placed _ h := .inl h

theorem widen (h : t.SoundBeyond start own) (sub : ∀ id ∈ own, id ∈ own') :
    t.SoundBeyond start own' :=
  { h with finished := fun id x new hx out => h.finished id x new hx fun mem => out (sub id mem) }

/-- The symbol need not be kept in mind once it is finished. -/
theorem finish (h : t.SoundBeyond start (id :: own))
    (done : ∀ x, t.get? id = some x → x.Finished) : t.SoundBeyond start own :=
  { h with
    finished := fun other x new hx out => by
      by_cases here : other = id
      · subst here
        exact done x hx
      · exact h.finished other x new hx fun mem => (List.mem_cons.1 mem).elim here out }

/-- What is beyond the symbols that change stays sound as the table grows. -/
theorem grow (h : t.SoundBeyond start own) (grows : Extends (fun _ => Develops) t u)
    (symbols : ∀ id x, start.size ≤ id.index → u.get? id = some x → t.get? id = some x ∨
      u.Holds x ∧ (id ∉ own → x.Finished))
    (detached : ∀ l ∈ u.detached, l ∈ t.detached ∨ u.Inside l.type ∧ l.block = none)
    (placed : ∀ p ∈ u.addresses.placed, p ∈ t.addresses.placed ∨ p.id.index < u.size) :
    u.SoundBeyond start own where
  holds id x new hx := by
    rcases symbols id x new hx with old | changed
    · exact (h.holds id x new old).grow grows
    · exact changed.1
  finished id x new hx out := by
    rcases symbols id x new hx with old | changed
    · exact h.finished id x new old out
    · exact changed.2 out
  detached l hl := by
    rcases detached l hl with old | changed
    · exact (h.detached l old).imp_right fun sound => ⟨sound.1.grow grows, sound.2⟩
    · exact .inr changed
  placed p hp := by
    rcases placed p hp with old | changed
    · exact (h.placed p old).imp_right fun inside => grows.lt_size inside
    · exact .inr changed

/-! ## Operations -/

theorem push (h : t.SoundBeyond start own) (holds : t.Holds x)
    (finished : x.Finished ∨ ⟨t.size⟩ ∈ own) : (t.push x).2.SoundBeyond start own := by
  have grows : Extends (fun _ => Develops) t (t.push x).2 := .push (fun _ => .same) t x
  refine h.grow grows (fun id y _ hy => ?_) (fun l hl => .inl ?_) fun p hp => ?_
  · by_cases here : id = ⟨t.size⟩
    · rw [here, get?_push_self] at hy
      cases hy
      exact .inr ⟨holds.grow grows, fun out => finished.resolve_right fun mem => out (here ▸ mem)⟩
    · rw [get?_push_of_ne x here] at hy
      exact .inl hy
  · unfold Table.push place at hl
    dsimp only at hl
    split at hl <;> exact hl
  · rcases (mem_addresses_place _ _ x p).1 hp with old | ⟨here, -⟩
    · exact .inl old
    · right
      rw [here]
      exact lt_size_push t x

theorem update (h : t.SoundBeyond start own) {f : Symbol → Symbol}
    (grows : Extends (fun _ => Develops) t (t.update id f))
    (holds : ∀ x, t.get? id = some x → t.Holds x → t.Holds (f x))
    (finished : id ∈ own ∨ ∀ x : Symbol, x.Finished → (f x).Finished) :
    (t.update id f).SoundBeyond start own := by
  refine h.grow grows (fun other y new hy => ?_) (fun _ => .inl) fun _ => .inl
  by_cases here : other = id
  · subst here
    rw [get?_update_self, Option.map_eq_some_iff] at hy
    obtain ⟨x, hx, rfl⟩ := hy
    refine .inr ⟨(holds x hx (h.holds _ x new hx)).grow grows, fun out => ?_⟩
    rcases finished with mem | kept
    · exact absurd mem out
    · exact kept x (h.finished _ x new hx out)
  · rw [get?_update_of_ne t f here] at hy
    exact .inl hy

/-- The place stays unfinished until it is left to itself. -/
theorem fill (h : t.SoundBeyond start own) (holds : t.Holds x) (mine : id ∈ own) :
    (t.fill id x).SoundBeyond start own := by
  have grows : Extends (fun _ => Develops) t (t.fill id x) := .fill (fun _ => .same) (.fill x)
  refine h.grow grows (fun other y _ hy => ?_) (fun l hl => .inl ?_) fun p hp => ?_
  · by_cases here : other = id
    · subst here
      by_cases empty : t.get? other = some .placeholder
      · rw [get?_fill_self empty] at hy
        cases hy
        exact .inr ⟨holds.grow grows, fun out => absurd mine out⟩
      · unfold Table.fill at hy
        split at hy
        · contradiction
        · exact .inl hy
    · rw [get?_fill_of_ne t x here] at hy
      exact .inl hy
  · unfold Table.fill place at hl
    split at hl
    · split at hl <;> exact hl
    · exact hl
  · rw [size_fill]
    unfold Table.fill at hp
    split at hp
    · rename_i empty
      rcases (mem_addresses_place _ _ x p).1 hp with old | ⟨here, -⟩
      · exact .inl old
      · right
        rw [here]
        exact lt_size_of_get? empty
    · exact .inl hp

theorem addDetached (h : t.SoundBeyond start own) {l : Local} (inside : t.Inside l.type)
    (unblocked : l.block = none) : (t.addDetached l).SoundBeyond start own := by
  refine h.grow (.addDetached (fun _ => .same) t l) (fun _ _ _ => .inl) (fun other hl => ?_)
    fun _ => .inl
  rcases Array.mem_push.1 hl with old | rfl
  · exact .inl old
  · exact .inr ⟨inside, unblocked⟩

theorem intern (h : t.SoundBeyond start own) (path : String) :
    (t.intern path).2.SoundBeyond start own := by
  have grows : Extends (fun _ => Develops) t (t.intern path).2 := .intern (fun _ => .same) t path
  exact h.grow grows (fun _ _ _ => .inl) (fun _ => .inl) fun _ => .inl

end SoundBeyond

theorem WellFormed.empty : WellFormed {} :=
  wellFormed_iff.2 (.refl {})

theorem WellFormed.intern (h : t.WellFormed) (path : String) : (t.intern path).2.WellFormed :=
  wellFormed_iff.2 ((wellFormed_iff.1 h).intern path)

/-! ## Parts -/

namespace SoundBeyond

theorem addMember (h : t.SoundBeyond start own) (id : SymbolId) {m : Member}
    (inside : t.Inside m.type) : (t.addMember id m).SoundBeyond start own := by
  refine h.update (.addMember (fun _ => .same) (fun _ _ h => h) m) (fun x _ holds => ?_)
    (.inr fun x done => ?_)
  · cases x with
    | aggregate a =>
      refine ⟨fun i hi => ?_, nofun, nofun, nofun, nofun⟩
      simp only [Symbol.references, Array.toList_push, List.filterMap_append, List.mem_append,
        List.mem_filterMap, List.mem_singleton] at hi
      rcases hi with old | ⟨_, rfl, hm⟩
      · exact holds.references i (List.mem_filterMap.2 old)
      · exact inside i hm
    | _ => exact holds
  · cases x with
    | aggregate => trivial
    | _ => exact done

theorem addEnumerator (h : t.SoundBeyond start own) (id : SymbolId) (v : Enumerator) :
    (t.addEnumerator id v).SoundBeyond start own := by
  refine h.update (.addEnumerator (fun _ => .same) (fun _ _ h => h) v) (fun x _ holds => ?_)
    (.inr fun x done => ?_)
  · cases x with
    | enumeration => exact ⟨nofun, nofun, nofun, nofun, nofun⟩
    | _ => exact holds
  · cases x with
    | enumeration => trivial
    | _ => exact done

theorem addParameter (h : t.SoundBeyond start own) (id : SymbolId) {type : Option SymbolId}
    (inside : t.Inside type) : (t.addParameter id type).SoundBeyond start own := by
  refine h.update (.addParameter (fun _ => .same) (fun _ _ h => h) type) (fun x _ holds => ?_)
    (.inr fun x done => ?_)
  · cases x with
    | signature g =>
      refine ⟨fun i hi => ?_, nofun, nofun, nofun, nofun⟩
      simp only [Symbol.references, Array.toList_push, List.filterMap_append, List.mem_append,
        List.mem_filterMap, List.mem_singleton] at hi
      rcases hi with returned | old | ⟨_, rfl, hm⟩
      · exact holds.references i (List.mem_append_left _ returned)
      · exact holds.references i (List.mem_append_right _ (List.mem_filterMap.2 old))
      · exact inside i hm
    | _ => exact holds
  · cases x with
    | signature => trivial
    | _ => exact done

end SoundBeyond

/-! ## Functions -/

theorem Holds.type_inside {f : Function} (h : t.Holds (.function f)) {l : Local}
    (hl : l ∈ f.locals.toList) : t.Inside l.type := fun i hi =>
  h.references i (List.mem_append_right _ (.tail _ (List.mem_filterMap.2 ⟨l, hl, hi⟩)))

/-- A function that is given more locals and lines. -/
theorem Holds.develop {f g : Function} (h : t.Holds (.function f)) (develops : f.Develops g)
    (locals : ∀ l ∈ g.locals.toList, l ∈ f.locals.toList ∨ t.Inside l.type)
    (lines : ∀ fact ∈ g.lines, fact ∈ f.lines ∨ fact.source.index < t.sources.size)
    (wellFormed : g.WellFormed) : t.Holds (.function g) where
  references id hid := by
    simp only [Symbol.references, develops.compiland, develops.signature, List.mem_append,
      List.mem_cons, List.mem_filterMap] at hid
    rcases hid with unit | rfl | ⟨l, hl, hid⟩
    · exact h.references id (List.mem_append_left _ unit)
    · exact h.references _ (List.mem_append_right _ List.mem_cons_self)
    · rcases locals l hl with old | inside
      · exact h.type_inside old id hid
      · exact inside id hid
  sources source hs := by
    obtain ⟨fact, hfact, rfl⟩ := List.mem_map.1 hs
    rcases lines fact hfact with old | inside
    · exact h.sources _ (List.mem_map_of_mem old)
    · exact inside
  compiland id hid := h.compiland id (develops.compiland.symm.trans hid)
  signature g' hg := by
    cases hg
    rw [develops.signature]
    exact h.signature f rfl
  function g' hg := by
    cases hg
    exact wellFormed

theorem SoundBeyond.updateFunction (h : t.SoundBeyond start own) {f : Function → Function}
    (develops : ∀ g, t.get? id = some (.function g) → g.Develops (f g))
    (holds : ∀ g, t.get? id = some (.function g) → t.Holds (.function g) →
      t.Holds (.function (f g)))
    (finished : id ∈ own ∨ ∀ g : Function, g.Finished → (f g).Finished) :
    (t.updateFunction id f).SoundBeyond start own := by
  have grows : Extends (fun _ => Develops) t (t.updateFunction id f) :=
    .updateFunction (fun _ => .same) fun g hg => .function (develops g hg)
  refine h.update grows (fun x hx sound => ?_) (finished.imp_right fun kept x done => ?_)
  · cases x with
    | function g => exact holds g hx sound
    | _ => exact sound
  · cases x with
    | function g => exact kept g done
    | _ => exact done

theorem ascending_sortLabels (labels : Array Label) :
    (sortLabels labels).toList.Pairwise fun a b => a.address ≤ b.address :=
  pairwise_sort Label.address labels.toList

namespace SoundBeyond

theorem addLocal (h : t.SoundBeyond start own) {l : Local} (inside : t.Inside l.type)
    (inBlock : ∀ f, t.get? id = some (.function f) → ∀ b, l.block = some b → b < f.blocks.size) :
    (t.addLocal id l).SoundBeyond start own := by
  refine h.updateFunction (fun f _ => .addLocal f l) (fun f hf holds => ?_)
    (.inr fun _ done => ⟨done.1, done.2⟩)
  have sound := holds.function f rfl
  refine holds.develop (.addLocal f l) (fun other hl => ?_) (fun _ => .inl)
    ⟨sound.parents, fun other hl b hb => ?_, sound.lines⟩
  · rw [Array.toList_push, List.mem_append, List.mem_singleton] at hl
    rcases hl with old | rfl
    · exact .inl old
    · exact .inr inside
  · rcases Array.mem_push.1 hl with old | rfl
    · exact sound.blocks other old b hb
    · exact inBlock f hf b hb

theorem openBlock (h : t.SoundBeyond start own) {b : Block}
    (inBlock : ∀ f, t.get? id = some (.function f) → ∀ p, b.parent = some p → p < f.blocks.size) :
    (t.openBlock id b).2.SoundBeyond start own := by
  unfold Table.openBlock
  split
  · refine h.updateFunction (fun f _ => .openBlock f b) (fun f hf holds => ?_)
      (.inr fun _ done => ⟨done.1, done.2⟩)
    have sound := holds.function f rfl
    refine holds.develop (.openBlock f b) (fun _ => .inl) (fun _ => .inl)
      ⟨fun i p other hi hp => ?_, fun l hl i hi => ?_, sound.lines⟩
    · rw [Array.getElem?_push] at hi
      split at hi
      · rename_i last
        cases hi
        rw [last]
        exact inBlock f hf p hp
      · exact sound.parents i p other hi hp
    · rw [Array.size_push]
      exact Nat.lt_succ_of_lt (sound.blocks l hl i hi)
  · exact h

theorem addLabel (h : t.SoundBeyond start own) (mine : id ∈ own) (l : Label) :
    (t.addLabel id l).SoundBeyond start own := by
  refine h.updateFunction (fun f _ => .addLabel f l) (fun f _ holds => ?_) (.inl mine)
  have sound := holds.function f rfl
  exact holds.develop (.addLabel f l) (fun _ => .inl) (fun _ => .inl)
    ⟨sound.parents, sound.blocks, sound.lines⟩

/-- The last thing that is done to a function finishes it. -/
theorem normalize (h : t.SoundBeyond start (id :: own)) {f : Function}
    (there : t.get? id = some (.function f)) : (t.normalize id).SoundBeyond start own := by
  have normalized : (t.normalize id).SoundBeyond start (id :: own) := by
    refine h.updateFunction (fun g _ => .normalize g) (fun g _ holds => ?_)
      (.inl List.mem_cons_self)
    have sound := holds.function g rfl
    exact holds.develop (.normalize g) (fun _ => .inl) (fun _ => .inl)
      ⟨sound.parents, sound.blocks, sound.lines⟩
  refine normalized.finish fun x hx => ?_
  rw [Table.normalize, get?_updateFunction there] at hx
  cases hx
  exact ⟨rfl, ascending_sortLabels f.labels⟩

end SoundBeyond
end Table
end Symbol
end Dwarf2
