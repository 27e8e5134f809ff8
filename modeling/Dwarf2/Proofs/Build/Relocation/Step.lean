/-
Building the symbols of a module that lies elsewhere.

The builders see of an address only where it lies against the thunks.  So with the module and
its thunks moved up they take the same steps, and what they build is the same but for the
addresses.  `Relocates` says so of two builders, for any state that they start from, and it is
carried from the basic steps to all builders.
-/
import Dwarf2.Build.Root
import Dwarf2.Proofs.Symbol.Relocation

namespace Dwarf2

/-! ## Images -/

def Thunk.relocate (d : UInt64) (t : Thunk) : Thunk :=
  { t with start := t.start + d, stop := t.stop + d }

/-- The module with its thunks, at an address further up. -/
def Image.relocate (d : UInt64) (image : Image) : Image :=
  ⟨image.base + d, image.thunks.map (Thunk.relocate d)⟩

/-- The bounds of all thunks can be moved. -/
def Image.HasRoom (d : UInt64) (image : Image) : Prop :=
  ∀ thunk ∈ image.thunks, Room d thunk.start ∧ Room d thunk.stop

namespace Image

instance (d : UInt64) (image : Image) : Decidable (image.HasRoom d) :=
  inferInstanceAs (Decidable (∀ thunk ∈ image.thunks, Room d thunk.start ∧ Room d thunk.stop))

variable {d : UInt64} {image : Image}

theorem address_relocate (d : UInt64) (image : Image) (offset : UInt64) :
    (image.relocate d).address offset = image.address offset + d :=
  add_add_comm image.base d offset

/-- An address that wraps lies in no thunk, neither before nor after. -/
theorem contains_relocate {thunk : Thunk} (start : Room d thunk.start) (stop : Room d thunk.stop)
    (address : UInt64) : (thunk.relocate d).contains (address + d) = thunk.contains address := by
  refine decide_eq_decide.2 ?_
  -- If `address + d` wraps it comes before `d`, and `address` was behind all that can be moved.
  have := address.toNat_lt
  unfold Room UInt64.size at start stop
  simp only [Thunk.relocate, UInt64.le_iff_toNat_le, UInt64.lt_iff_toNat_lt, UInt64.toNat_add]
  omega

theorem isSome_thunk?_relocate (room : image.HasRoom d) (address : UInt64) :
    ((image.relocate d).thunk? (address + d)).isSome = (image.thunk? address).isSome := by
  have found : (image.thunks.find? fun t => (t.relocate d).contains (address + d)) =
      image.thunks.find? (·.contains address) :=
    find?_congr fun thunk mem => contains_relocate (room thunk mem).1 (room thunk mem).2 address
  rw [thunk?, thunk?, ← found]
  change (List.find? _ (image.thunks.map (Thunk.relocate d))).isSome = _
  rw [List.find?_map, Option.isSome_map]
  rfl

end Image

namespace Build

open Dwarf2.Symbol (Develops)
open Dwarf2.Symbol.Table (Relocated Retains Operation)

def Source.relocate (d : UInt64) (src : Source) : Source :=
  { src with image := src.image.relocate d }

theorem Source.view_relocate (d : UInt64) (src : Source) : (src.relocate d).view = src.view :=
  rfl

theorem Source.tree_relocate (d : UInt64) (src : Source) : (src.relocate d).tree = src.tree :=
  rfl

theorem Source.image_relocate (d : UInt64) (src : Source) :
    (src.relocate d).image = src.image.relocate d :=
  rfl

/-! ## States -/

/-- The states are the same but for the addresses of the symbols. -/
structure Moved (d : UInt64) (s s' : State) : Prop where
  symbols : Relocated d s.symbols s'.symbols
  indexed : s.symbols.Indexed
  names : s'.names = s.names
  slots : s'.slots = s.slots
  compiland : s'.compiland = s.compiland
  journal : s'.journal = s.journal

variable {α β : Type} {d : UInt64}

namespace Moved

variable {s s' : State}

theorem slot_eq (h : Moved d s s') (offset : Nat) : slot s' offset = slot s offset := by
  rw [slot, slot, h.slots]

theorem eq (h : Moved d s s') : s' = { s with symbols := s'.symbols } := by
  obtain ⟨symbols, names, slots, compiland, journal⟩ := s'
  obtain rfl : names = s.names := h.names
  obtain rfl : slots = s.slots := h.slots
  obtain rfl : compiland = s.compiland := h.compiland
  obtain rfl : journal = s.journal := h.journal
  rfl

end Moved

/-- The builders do the same, from states that are the same but for the addresses. -/
structure Relocates (d : UInt64) (m m' : Build α) : Prop where
  retains : ∀ s : State, s.symbols.Retains (m.run s).2.symbols
  moves : ∀ s s' : State, Moved d s s' → (m.run s).2.symbols.HasRoom d →
    (m'.run s').1 = (m.run s).1 ∧ Moved d (m.run s).2 (m'.run s').2

/-- The resolvers do the same for every entry. -/
abbrev Resolves (d : UInt64) (resolve resolve' : Resolver) : Prop :=
  ∀ offset, Relocates d (resolve offset) (resolve' offset)

namespace Relocates

theorem pure (a : α) : Relocates d (Pure.pure a) (Pure.pure a) :=
  ⟨fun s => .refl s.symbols, fun _ _ moved _ => ⟨rfl, moved⟩⟩

/-- What is known of every result may be used of it. -/
theorem bind_of {m m' : Build α} {f f' : α → Build β} {P : α → Prop} (first : Relocates d m m')
    (results : ∀ s, P (m.run s).1) (second : ∀ a, P a → Relocates d (f a) (f' a)) :
    Relocates d (m >>= f) (m' >>= f') := by
  have then' (s : State) := second (m.run s).1 (results s)
  refine ⟨fun s => (first.retains s).trans ((then' s).retains _), fun s s' moved room => ?_⟩
  obtain ⟨same, moved⟩ := first.moves s s' moved (room.of_retains ((then' s).retains _))
  change ((f' (m'.run s').1).run (m'.run s').2).1 = _ ∧
    Moved d _ ((f' (m'.run s').1).run (m'.run s').2).2
  rw [same]
  exact (then' s).moves _ _ moved room

theorem bind {m m' : Build α} {f f' : α → Build β} (first : Relocates d m m')
    (second : ∀ a, Relocates d (f a) (f' a)) : Relocates d (m >>= f) (m' >>= f') :=
  first.bind_of (P := fun _ => True) (fun _ => trivial) fun a _ => second a

theorem map {m m' : Build α} (h : Relocates d m m') (f : α → β) :
    Relocates d (f <$> m) (f <$> m') :=
  h.bind fun a => .pure (f a)

theorem ite {c : Prop} [Decidable c] {m m' k k' : Build α} (yes : c → Relocates d m m')
    (no : ¬c → Relocates d k k') :
    Relocates d (if c then m else k) (if c then m' else k') := by
  split
  · exact yes ‹_›
  · exact no ‹_›

/-- What is asked of the state is no address. -/
theorem get_bind {f f' : State → Build α} (h : ∀ s, Relocates d (f s) (f' s))
    (same : ∀ s s', Moved d s s' → f' s' = f' s) : Relocates d (get >>= f) (get >>= f') := by
  refine ⟨fun s => (h s).retains s, fun s s' moved room => ?_⟩
  change ((f' s').run s').1 = _ ∧ Moved d _ ((f' s').run s').2
  rw [same s s' moved]
  exact (h s).moves s s' moved room

theorem forM {f f' : α → Build Unit} (l : List α) (h : ∀ a, Relocates d (f a) (f' a)) :
    Relocates d (l.forM f) (l.forM f') := by
  induction l with
  | nil => exact .pure ()
  | cons a rest ih => exact (h a).bind fun _ => ih

theorem foldlM {f f' : β → α → Build β} (l : List α) (h : ∀ b a, Relocates d (f b a) (f' b a))
    (b : β) : Relocates d (l.foldlM f b) (l.foldlM f' b) := by
  induction l generalizing b with
  | nil => exact .pure b
  | cons a rest ih => exact (h b a).bind ih

/-! ## Steps -/

/-- A step beside the table goes by the rest of the state. -/
theorem beside {m : Build α} (kept : ∀ s, (m.run s).2.symbols = s.symbols)
    (same : ∀ s symbols, m.run { s with symbols } =
      ((m.run s).1, { (m.run s).2 with symbols })) : Relocates d m m := by
  refine ⟨fun s => ?_, fun s s' moved _ => ?_⟩
  · rw [kept]
    exact .refl s.symbols
  · have symbols := (kept s).symm ▸ moved.symbols
    have indexed := (kept s).symm ▸ moved.indexed
    rw [moved.eq, same]
    exact ⟨rfl, symbols, indexed, rfl, rfl, rfl, rfl⟩

theorem setSlot (offset : Nat) (slot : Slot) :
    Relocates d (Build.setSlot offset slot) (Build.setSlot offset slot) :=
  .beside (fun _ => rfl) fun _ _ => rfl

theorem note (event : Event) : Relocates d (Build.note event) (Build.note event) :=
  .beside (fun _ => rfl) fun _ _ => rfl

theorem fresh (label : String) : Relocates d (Build.fresh label) (Build.fresh label) :=
  .beside (fun _ => rfl) fun _ _ => rfl

theorem push (x : Symbol) : Relocates d (Build.push x) (Build.push (x.relocate d)) := by
  refine ⟨fun s => .of_extends (.push (fun _ => .same) s.symbols x), fun s s' moved room => ?_⟩
  obtain ⟨same, symbols⟩ := moved.symbols.push moved.indexed room
  exact ⟨same, { moved with symbols, indexed := moved.indexed.push x }⟩

/-- A step of the table is one of the operations on it, and asks for no address. -/
theorem onTable {f f' : Symbol.Table → α × Symbol.Table} (op : Operation)
    (silent : ∀ source line address, op ≠ .addLine source line address)
    (is : ∀ t, (f t).2 = op.perform t) (is' : ∀ t, (f' t).2 = (op.relocate d).perform t)
    (same : ∀ t u, Relocated d t u → (f' u).1 = (f t).1) :
    Relocates d (Build.onTable f) (Build.onTable f') := by
  have after (s : State) : ((Build.onTable f).run s).2 = { s with symbols := (f s.symbols).2 } :=
    rfl
  refine ⟨fun s => ?_, fun s s' moved room => ⟨same _ _ moved.symbols, ?_⟩⟩
  · rw [after, is]
    exact Operation.retains_perform s.symbols op
  · rw [after, is] at room ⊢
    have symbols := Operation.relocated_perform moved.symbols moved.indexed room
      fun source line address eq => absurd eq (silent source line address)
    rw [← is'] at symbols
    exact { moved with symbols, indexed := moved.indexed.effect (op.effect s.symbols) }

theorem change {f f' : Symbol.Table → Symbol.Table} (op : Operation)
    (silent : ∀ source line address, op ≠ .addLine source line address)
    (is : ∀ t, f t = op.perform t) (is' : ∀ t, f' t = (op.relocate d).perform t) :
    Relocates d (Build.change f) (Build.change f') := by
  have silently : Relocates d (Build.onTable fun t => ((), f t))
      (Build.onTable fun t => ((), f' t)) :=
    .onTable op silent is is' fun _ _ _ => rfl
  exact silently

theorem onTable_openBlock (id : SymbolId) (b : Symbol.Block) :
    Relocates d (Build.onTable (·.openBlock id b))
      (Build.onTable (·.openBlock id (b.relocate d))) :=
  .onTable (.openBlock id b) nofun (fun _ => rfl) (fun _ => rfl) fun _ _ relocated =>
    (relocated.openBlock id b).1

theorem onTable_internFile (directory : Option String) (name : String) :
    Relocates d (Build.onTable (·.internFile directory name))
      (Build.onTable (·.internFile directory name)) :=
  .onTable (.internFile directory name) nofun (fun _ => rfl) (fun _ => rfl) fun _ _ relocated =>
    (relocated.intern _).1

theorem push_function (name : String) (unit : Option SymbolId) (address length : UInt64)
    (type : SymbolId) :
    Relocates d
      (Build.push (.function { name, compiland := unit, address, length, signature := type }))
      (Build.push (.function
        { name, compiland := unit, address := address + d, length, signature := type })) :=
  .onTable (.newFunction name unit address length type) nofun (fun _ => rfl) (fun _ => rfl)
    fun _ _ relocated => congrArg SymbolId.mk relocated.size_eq

/-! ## Frames of builders -/

theorem expose (e : Entry) (id : SymbolId) : Relocates d (Build.expose e id) (Build.expose e id) :=
  .setSlot e.offset (.pending (some id))

/-- What is put in the place tells no address itself. -/
theorem inPlace (e : Entry) {m m' : Build Symbol} (h : Relocates d m m')
    (still : ∀ s, ((m.run s).1).relocate d = (m.run s).1) :
    Relocates d (Build.inPlace e m) (Build.inPlace e m') := by
  refine .bind (.push .placeholder) fun id => .bind (.note _) fun _ => .bind (.expose e id) fun _ =>
    .bind_of (P := fun x => x.relocate d = x) h still fun x still => ?_
  refine .get_bind (fun s => ?_) fun s s' moved => ?_
  · refine .bind (.change (.fill id x) nofun (fun _ => rfl) fun t => ?_) fun _ =>
      .bind (.note _) fun _ => .pure id
    rw [Operation.relocate, still]
    rfl
  -- Whether the place was still free goes into the journal.
  · have empty : s'.symbols.get? id = some .placeholder ↔
        s.symbols.get? id = some .placeholder := by
      rw [moved.symbols.get?_eq]
      cases s.symbols.get? id with
      | none => rfl
      | some y => simp [Symbol.relocate_eq_placeholder_iff]
    simp only [empty]

theorem withParts (e : Entry) (x : Symbol) {parts parts' : SymbolId → Build Unit}
    (h : ∀ id, Relocates d (parts id) (parts' id)) :
    Relocates d (Build.withParts e x parts) (Build.withParts e (x.relocate d) parts') :=
  .bind (.push x) fun id => .bind (.expose e id) fun _ => .bind (h id) fun _ => .pure id

/-! ## What all builders ask for -/

variable {src : Source} {resolve resolve' : Resolver}

theorem nameOf (src : Source) (e : Entry) (label : String) :
    Relocates d (Build.nameOf src e label) (Build.nameOf (src.relocate d) e label) := by
  change Relocates d (Build.nameOf src e label) (Build.nameOf src e label)
  unfold Build.nameOf
  split
  · exact .pure _
  · exact .fresh label

theorem typeOf (answers : Resolves d resolve resolve') (e : Entry) :
    Relocates d (Build.typeOf src resolve e) (Build.typeOf (src.relocate d) resolve' e) := by
  change Relocates d _ (Build.typeOf src resolve' e)
  unfold Build.typeOf
  split
  · rename_i target _
    refine .get_bind (fun s => .bind (.note _) fun _ => answers target) fun s s' moved => ?_
    simp only [moved.slot_eq]
  · exact .pure none

end Relocates

end Build
end Dwarf2
