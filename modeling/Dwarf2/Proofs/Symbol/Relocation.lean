/-
Symbols whose addresses are all moved up by the same amount.

`Relocated` says that two tables differ in nothing else.  An operation with its addresses moved
keeps tables so, as long as no address that is recorded leaves the range of a word: what order
the addresses are in is asked for by the index and by the sorting of labels, and it would not
survive a wrap.
-/
import Dwarf2.Proofs.Symbol.AddressIndex

namespace Dwarf2

/-- The address can be moved up by so much. -/
def Room (d address : UInt64) : Prop :=
  address.toNat + d.toNat < UInt64.size

instance (d address : UInt64) : Decidable (Room d address) :=
  inferInstanceAs (Decidable (address.toNat + d.toNat < UInt64.size))

namespace Room

variable {d a b : UInt64}

theorem toNat_add (h : Room d a) : (a + d).toNat = a.toNat + d.toNat := by
  rw [UInt64.toNat_add]
  exact Nat.mod_eq_of_lt h

theorem add_le_add (h : Room d a) (h' : Room d b) : a + d ≤ b + d ↔ a ≤ b := by
  rw [UInt64.le_iff_toNat_le, UInt64.le_iff_toNat_le, h.toNat_add, h'.toNat_add]
  omega

theorem add_lt_add (h : Room d a) (h' : Room d b) : a + d < b + d ↔ a < b := by
  rw [UInt64.lt_iff_toNat_lt, UInt64.lt_iff_toNat_lt, h.toNat_add, h'.toNat_add]
  omega

end Room

/-- Distances stay as they are, whatever wraps. -/
theorem add_sub_add (a b d : UInt64) : a + d - (b + d) = a - b := by
  rw [UInt64.sub_eq_add_neg, UInt64.sub_eq_add_neg, UInt64.neg_add, UInt64.add_assoc,
    UInt64.add_comm d, UInt64.sub_add_cancel]

theorem add_add_comm (a b c : UInt64) : a + b + c = a + c + b := by
  rw [UInt64.add_assoc, UInt64.add_comm b, ← UInt64.add_assoc]

theorem find?_congr {α : Type} {p q : α → Bool} {l : List α} (same : ∀ a ∈ l, p a = q a) :
    l.find? p = l.find? q := by
  induction l with
  | nil => rfl
  | cons a rest ih =>
    rw [List.find?_cons, List.find?_cons, same a List.mem_cons_self,
      ih fun b mem => same b (List.mem_cons_of_mem a mem)]

namespace Symbol

def Block.relocate (d : UInt64) (b : Block) : Block :=
  { b with address := b.address + d }

def Label.relocate (d : UInt64) (l : Label) : Label :=
  { l with address := l.address + d }

def Function.relocate (d : UInt64) (f : Function) : Function :=
  { f with
    address := f.address + d
    blocks := f.blocks.map (Block.relocate d)
    labels := f.labels.map (Label.relocate d) }

def Global.relocate (d : UInt64) (g : Global) : Global :=
  { g with address := g.address + d }

/-- The symbol with all its addresses moved up. -/
def relocate (d : UInt64) : Symbol → Symbol
  | function f => function (f.relocate d)
  | global g => global (g.relocate d)
  | x => x

/-- All addresses that a symbol tells. -/
def addresses : Symbol → List UInt64
  | function f =>
    f.address :: (f.blocks.toList.map Block.address ++ f.labels.toList.map Label.address)
  | global g => [g.address]
  | _ => []

def HasRoom (d : UInt64) (x : Symbol) : Prop :=
  ∀ address ∈ x.addresses, Room d address

def Placed.relocate (d : UInt64) (p : Placed) : Placed :=
  { p with address := p.address + d }

variable {d : UInt64}

theorem address?_relocate (d : UInt64) (x : Symbol) :
    (x.relocate d).address? = x.address?.map (· + d) := by
  cases x <;> rfl

theorem room_of_address? {x : Symbol} (room : x.HasRoom d) {address : UInt64}
    (there : x.address? = some address) : Room d address := by
  cases x with
  | function f =>
    cases there
    exact room _ List.mem_cons_self
  | global g =>
    cases there
    exact room _ List.mem_cons_self
  | _ => cases there

theorem relocate_eq_placeholder_iff (x : Symbol) :
    x.relocate d = .placeholder ↔ x = .placeholder := by
  cases x <;> simp [relocate]

/-! ## The index -/

namespace Placed

variable {p q : Placed}

theorem relocate_inj : p.relocate d = q.relocate d ↔ p = q := by
  obtain ⟨address, id⟩ := p
  obtain ⟨address', id'⟩ := q
  simp only [relocate, mk.injEq, UInt64.add_left_inj]

theorem before_relocate (h : Room d p.address) (h' : Room d q.address) :
    (p.relocate d).Before (q.relocate d) ↔ p.Before q := by
  unfold Before relocate
  rw [h.add_lt_add h', UInt64.add_left_inj]

end Placed

theorem insertPlaced_relocate {p : Placed} {placed : List Placed} (h : Room d p.address)
    (rooms : ∀ q ∈ placed, Room d q.address) :
    insertPlaced (p.relocate d) (placed.map (Placed.relocate d)) =
      (insertPlaced p placed).map (Placed.relocate d) := by
  induction placed with
  | nil => rfl
  | cons q rest ih =>
    have ih := ih fun other mem => rooms other (List.mem_cons_of_mem q mem)
    simp only [List.map_cons, insertPlaced, ih, Placed.relocate_inj,
      Placed.before_relocate (rooms q List.mem_cons_self) h]
    split
    · rfl
    · split <;> rfl

/-! ## Labels and lines -/

theorem sortLabels_relocate {labels : Array Label}
    (room : ∀ l ∈ labels.toList, Room d l.address) :
    Table.sortLabels (labels.map (Label.relocate d)) =
      (Table.sortLabels labels).map (Label.relocate d) := by
  apply Array.toList_inj.1
  rw [Table.sortLabels, Table.sortLabels, Array.toList_map, Array.toList_map,
    List.map_mergeSort]
  intro a ha b hb
  exact decide_eq_decide.2 ((room a ha).add_le_add (room b hb)).symm

theorem Function.covers_relocate {f : Function} {address : UInt64} (h : Room d f.address)
    (h' : Room d address) : (f.relocate d).covers (address + d) = f.covers address := by
  refine decide_eq_decide.2 (and_congr (h.add_le_add h') ?_)
  change address + d - (f.address + d) ≤ f.length ↔ _
  rw [add_sub_add]

/-! ## Tables -/

namespace Table

def HasRoom (d : UInt64) (t : Table) : Prop :=
  ∀ id x, t.get? id = some x → x.HasRoom d

/-- The tables are the same but for the addresses, which are all moved up. -/
structure Relocated (d : UInt64) (t u : Table) : Prop where
  symbols : u.symbols = t.symbols.map (Symbol.relocate d)
  addresses : u.addresses.placed = t.addresses.placed.map (Placed.relocate d)
  sources : u.sources = t.sources
  detached : u.detached = t.detached
  capabilities : u.capabilities = t.capabilities

variable {t u : Table} {id : SymbolId}

theorem addresses_of_develops {x y : Symbol} (h : x.Develops y) (address : UInt64)
    (mem : address ∈ x.addresses) : address ∈ y.addresses := by
  cases h with
  | @function f g more =>
    simp only [Symbol.addresses, List.mem_cons, List.mem_append, List.mem_map] at mem ⊢
    rw [more.address]
    rcases mem with rfl | ⟨b, mem, rfl⟩ | ⟨l, mem, rfl⟩
    · exact .inl rfl
    · exact .inr (.inl ⟨b, more.blocks.subset mem, rfl⟩)
    · have counted := List.count_pos_iff.2 mem
      have kept := List.count_pos_iff.1 (Nat.lt_of_lt_of_le counted (more.labels l))
      exact .inr (.inr ⟨l, kept, rfl⟩)
  | same => exact mem
  | _ => cases mem

/-- Nothing that is in the one table is taken back in the other. -/
def Retains (t u : Table) : Prop :=
  ∀ id x, t.get? id = some x → ∃ y, u.get? id = some y ∧ x.Develops y

namespace Retains

theorem refl (t : Table) : t.Retains t :=
  fun _ x there => ⟨x, there, .same x⟩

theorem trans {t u w : Table} (h : t.Retains u) (h' : u.Retains w) : t.Retains w := by
  intro id x there
  obtain ⟨y, there, first⟩ := h id x there
  obtain ⟨z, there, second⟩ := h' id y there
  exact ⟨z, there, first.trans second⟩

theorem of_extends (h : Extends (fun _ => Develops) t u) : t.Retains u :=
  h.symbols

end Retains

theorem HasRoom.of_retains (room : u.HasRoom d) (h : t.Retains u) : t.HasRoom d := by
  intro id x there address mem
  obtain ⟨y, there', develops⟩ := h id x there
  exact room id y there' address (addresses_of_develops develops address mem)

theorem HasRoom.placed (room : t.HasRoom d) (indexed : t.Indexed) (p : Placed)
    (mem : p ∈ t.addresses.placed) : Room d p.address := by
  obtain ⟨x, there, address⟩ := Option.bind_eq_some_iff.1 ((indexed p).1 mem)
  exact room_of_address? (room p.id x there) address

theorem HasRoom.intern (room : t.HasRoom d) (path : String) : (t.intern path).2.HasRoom d :=
  room

theorem HasRoom.addLine (room : t.HasRoom d) (source : SourceId) (line address : UInt64) :
    (t.addLine source line address).2.HasRoom d := by
  rcases t.addLine_cases source line address with same | ⟨id, f, lines, -, there, -, -, eq⟩
  · rw [same]
    exact room
  · rw [eq]
    intro other x there'
    by_cases here : other = id
    · subst here
      rw [get?_updateFunction there] at there'
      cases there'
      exact fun address mem => room other _ there address mem
    · exact room other x ((get?_update_of_ne t _ here).symm.trans there')

theorem fill_of_placeholder {x : Symbol} (empty : t.get? id = some .placeholder) :
    t.fill id x = (t.update id fun _ => x).place id x := by
  unfold fill
  rw [empty]

theorem fill_of_ne {x : Symbol} (filled : t.get? id ≠ some .placeholder) : t.fill id x = t := by
  unfold fill
  split
  · contradiction
  · rfl

namespace Relocated

theorem get?_eq (h : Relocated d t u) (id : SymbolId) :
    u.get? id = (t.get? id).map (Symbol.relocate d) := by
  rw [get?, h.symbols, Array.getElem?_map]
  rfl

theorem size_eq (h : Relocated d t u) : u.size = t.size := by
  rw [size, h.symbols, Array.size_map]
  rfl

theorem function?_eq (h : Relocated d t u) (id : SymbolId) :
    u.function? id = (t.function? id).map (Function.relocate d) := by
  unfold function?
  rw [h.get?_eq]
  cases t.get? id with
  | none => rfl
  | some x => cases x <;> rfl

theorem empty (d : UInt64) : Relocated d {} {} :=
  ⟨by simp, rfl, rfl, rfl, rfl⟩

theorem place (h : Relocated d t u) (rooms : ∀ p ∈ t.addresses.placed, Room d p.address)
    (id : SymbolId) {x : Symbol} (room : x.HasRoom d) :
    Relocated d (t.place id x) (u.place id (x.relocate d)) := by
  unfold Table.place
  rw [address?_relocate]
  cases there : x.address? with
  | none => exact h
  | some address =>
    refine ⟨h.symbols, ?_, h.sources, h.detached, h.capabilities⟩
    have moved := insertPlaced_relocate (p := ⟨address, id⟩) (room_of_address? room there) rooms
    rw [← h.addresses] at moved
    exact moved

theorem push (h : Relocated d t u) (indexed : t.Indexed) {x : Symbol}
    (room : (t.push x).2.HasRoom d) :
    (u.push (x.relocate d)).1 = (t.push x).1 ∧
      Relocated d (t.push x).2 (u.push (x.relocate d)).2 := by
  have grows : t.Retains (t.push x).2 := .of_extends (.push (fun _ => .same) t x)
  have same : u.symbols.size = t.symbols.size := h.size_eq
  refine ⟨congrArg SymbolId.mk same, ?_⟩
  have pushed : Relocated d { t with symbols := t.symbols.push x }
      { u with symbols := u.symbols.push (x.relocate d) } :=
    ⟨by rw [Array.map_push, h.symbols], h.addresses, h.sources, h.detached, h.capabilities⟩
  unfold Table.push
  dsimp only
  rw [same]
  exact pushed.place ((room.of_retains grows).placed indexed) _
    (room ⟨t.size⟩ x (get?_push_self t x))

theorem update (h : Relocated d t u) (id : SymbolId) {f f' : Symbol → Symbol}
    (commutes : ∀ x, t.get? id = some x → f' (x.relocate d) = (f x).relocate d) :
    Relocated d (t.update id f) (u.update id f') := by
  refine ⟨?_, h.addresses, h.sources, h.detached, h.capabilities⟩
  apply Array.ext_getElem?
  intro i
  simp only [Table.update, h.symbols, Array.getElem?_modify, Array.getElem?_map]
  split
  · rename_i here
    subst here
    cases there : t.symbols[id.index]? with
    | none => rfl
    | some x => exact congrArg some (commutes x there)
  · rfl

theorem updateFunction (h : Relocated d t u) (id : SymbolId) {f f' : Function → Function}
    (commutes : ∀ g, t.get? id = some (.function g) → f' (g.relocate d) = (f g).relocate d) :
    Relocated d (t.updateFunction id f) (u.updateFunction id f') :=
  h.update id fun x there => by
    cases x with
    | function g => exact congrArg Symbol.function (commutes g there)
    | _ => rfl

theorem fill (h : Relocated d t u) (indexed : t.Indexed) {x : Symbol}
    (room : (t.fill id x).HasRoom d) : Relocated d (t.fill id x) (u.fill id (x.relocate d)) := by
  have grows : t.Retains (t.fill id x) := .of_extends (.fill (fun _ => .same) (.fill x))
  have rooms := (room.of_retains grows).placed indexed
  by_cases empty : t.get? id = some .placeholder
  · have roomy := room id x (get?_fill_self empty)
    have empty' : u.get? id = some .placeholder := by rw [h.get?_eq, empty]; rfl
    have updated : Relocated d (t.update id fun _ => x) (u.update id fun _ => x.relocate d) :=
      h.update id fun _ _ => rfl
    rw [fill_of_placeholder empty, fill_of_placeholder empty']
    exact updated.place rooms id roomy
  · have filled : u.get? id ≠ some .placeholder := fun empty' => by
      rw [h.get?_eq, Option.map_eq_some_iff] at empty'
      obtain ⟨y, there, eq⟩ := empty'
      rw [there, (relocate_eq_placeholder_iff y).1 eq] at empty
      exact empty rfl
    rw [fill_of_ne empty, fill_of_ne filled]
    exact h

theorem openBlock (h : Relocated d t u) (id : SymbolId) (b : Block) :
    (u.openBlock id (b.relocate d)).1 = (t.openBlock id b).1 ∧
      Relocated d (t.openBlock id b).2 (u.openBlock id (b.relocate d)).2 := by
  unfold Table.openBlock
  rw [h.function?_eq]
  cases t.function? id with
  | none => exact ⟨rfl, h⟩
  | some f =>
    refine ⟨congrArg some (Array.size_map ..), h.updateFunction id fun g _ => ?_⟩
    simp [Function.relocate]

theorem normalize (h : Relocated d t u) (id : SymbolId) (room : t.HasRoom d) :
    Relocated d (t.normalize id) (u.normalize id) := by
  refine h.updateFunction id fun g there => ?_
  have rooms : ∀ l ∈ g.labels.toList, Room d l.address := by
    intro l mem
    refine room id _ there _ (List.mem_cons_of_mem _ (List.mem_append_right _ ?_))
    exact List.mem_map_of_mem mem
  simp only [Function.relocate, sortLabels_relocate rooms]

theorem intern (h : Relocated d t u) (path : String) :
    (u.intern path).1 = (t.intern path).1 ∧ Relocated d (t.intern path).2 (u.intern path).2 := by
  have known (source : SourceId) : u.source? source = t.source? source :=
    congrArg (·[source.index]?) h.sources
  rcases t.intern_cases path with ⟨source, there, eq⟩ | ⟨new, id, sources⟩
  · rw [eq, intern_of_source? ((known source).trans there)]
    exact ⟨rfl, h⟩
  · rcases u.intern_cases path with ⟨source, there, -⟩ | ⟨-, id', sources'⟩
    · exact absurd (mem_sources_iff.2 ⟨source, (known source).symm.trans there⟩) new
    · rw [h.sources] at id' sources'
      exact ⟨id'.trans id.symm, h.symbols, h.addresses, sources'.trans sources.symm, h.detached,
        h.capabilities⟩

theorem addDetached (h : Relocated d t u) (l : Local) :
    Relocated d (t.addDetached l) (u.addDetached l) :=
  ⟨h.symbols, h.addresses, h.sources, by rw [Table.addDetached, h.detached]; rfl, h.capabilities⟩

/-- Sizes are told by symbols that have no address. -/
theorem lengthWithin_eq (h : Relocated d t u) (hops : Nat) (elements : UInt64) (id : SymbolId) :
    u.lengthWithin hops elements id = t.lengthWithin hops elements id := by
  induction hops generalizing elements id with
  | zero => rfl
  | succ hops ih =>
    unfold lengthWithin
    rw [h.get?_eq]
    have element (elements : UInt64) := funext (ih elements)
    cases t.get? id with
    | none => rfl
    | some x => cases x <;> simp only [Option.map_some, relocate, element]

theorem typeLength?_eq (h : Relocated d t u) : u.typeLength? = t.typeLength? := by
  funext id
  rw [typeLength?, typeLength?, h.size_eq, h.lengthWithin_eq]

/-! ## Giving lines -/

theorem nearest?_eq (h : Relocated d t u) (indexed : t.Indexed) (rooms : t.HasRoom d)
    {address : UInt64} (room : Room d address) :
    u.nearest? (address + d) = t.nearest? address := by
  have found : (t.addresses.placed.find? fun p => p.address + d ≤ address + d) =
      t.addresses.placed.find? (·.address ≤ address) :=
    find?_congr fun p mem =>
      decide_eq_decide.2 ((rooms.placed indexed p mem).add_le_add room)
  rw [nearest?, nearest?, AddressIndex.nearest?, AddressIndex.nearest?, h.addresses,
    List.find?_map, Option.map_map]
  exact congrArg (Option.map Placed.id) found

/-- The line goes to the same function, at the same offset. -/
theorem addLine (h : Relocated d t u) (indexed : t.Indexed) (rooms : t.HasRoom d)
    (source : SourceId) (line : UInt64) {address : UInt64} (room : Room d address) :
    (u.addLine source line (address + d)).1 = (t.addLine source line address).1 ∧
      Relocated d (t.addLine source line address).2 (u.addLine source line (address + d)).2 := by
  unfold Table.addLine
  rw [h.nearest?_eq indexed rooms room]
  cases t.nearest? address with
  | none => exact ⟨rfl, h⟩
  | some id =>
    dsimp only
    rw [h.function?_eq]
    cases there : t.function? id with
    | none => exact ⟨rfl, h⟩
    | some f =>
      have start := rooms id _ (get?_of_function? there) f.address List.mem_cons_self
      have offset : address + d - (f.relocate d).address = address - f.address :=
        add_sub_add address f.address d
      rw [Option.map_some]
      dsimp only
      rw [Function.covers_relocate start room, offset]
      split
      · have same : (f.relocate d).lines = f.lines := rfl
        rw [same]
        cases insertLine? ⟨source, line, address - f.address⟩ f.lines with
        | none => exact ⟨rfl, h⟩
        | some lines => exact ⟨rfl, h.updateFunction id fun _ _ => rfl⟩
      · exact ⟨rfl, h⟩

end Relocated

/-! ## Operations -/

namespace Operation

def relocate (d : UInt64) : Operation → Operation
  | fill id x => fill id (x.relocate d)
  | newFunction name unit address length type => newFunction name unit (address + d) length type
  | newGlobal g => newGlobal (g.relocate d)
  | openBlock id b => openBlock id (b.relocate d)
  | addLabel id l => addLabel id (l.relocate d)
  | addLine source line address => addLine source line (address + d)
  | op => op

theorem retains_perform (t : Table) (op : Operation) : t.Retains (op.perform t) := by
  have same : ∀ (id : SymbolId) (x : Symbol), x.Develops x := fun _ => .same
  have free : ∀ (x y : Symbol), x.Develops y → x.Develops y := fun _ _ => id
  cases op with
  | fill id x => exact .of_extends (.fill same (.fill x))
  | addMember id m => exact .of_extends (.addMember same free m)
  | addEnumerator id e => exact .of_extends (.addEnumerator same free e)
  | addParameter id type => exact .of_extends (.addParameter same free type)
  | addLocal id l => exact .of_extends (.addLocal same free l)
  | openBlock id b => exact .of_extends (.openBlock same free b)
  | addLabel id l => exact .of_extends (.addLabel same free l)
  | normalize id => exact .of_extends (.normalize same free)
  | addLine source line address =>
    exact .of_extends ((t.gains_addLine source line address).imp fun _ _ _ _ gains =>
      gains.develops)
  | internFile directory name => exact .of_extends (.internFile same t directory name)
  | addDetached | offer => exact .refl t
  | _ => exact .of_extends (.push same t _)

theorem relocated_perform {op : Operation} (h : Relocated d t u) (indexed : t.Indexed)
    (room : (op.perform t).HasRoom d)
    (lands : ∀ source line address, op = .addLine source line address → Room d address) :
    Relocated d (op.perform t) ((op.relocate d).perform u) := by
  cases op with
  | fill id x => exact h.fill indexed room
  | addMember id m | addEnumerator id e | addParameter id type =>
    exact h.update id fun x _ => by cases x <;> rfl
  | addLocal id l => exact h.updateFunction id fun _ _ => rfl
  | addDetached l => exact h.addDetached l
  | openBlock id b => exact (h.openBlock id b).2
  | addLabel id l => exact h.updateFunction id fun _ _ => by simp [Function.relocate]
  | normalize id => exact h.normalize id (room.of_retains (retains_perform t (.normalize id)))
  | addLine source line address =>
    have rooms := room.of_retains (retains_perform t (.addLine source line address))
    exact (h.addLine indexed rooms source line (lands source line address rfl)).2
  | internFile directory name => exact (h.intern _).2
  | offer capabilities => exact ⟨h.symbols, h.addresses, h.sources, h.detached, rfl⟩
  | newFunction name unit address length type =>
    have moved := (h.push indexed room).2
    simp only [Symbol.relocate, Function.relocate, List.map_toArray, List.map_nil] at moved
    exact moved
  | _ => exact (h.push indexed room).2

end Operation
end Table
end Symbol
end Dwarf2
