/-
The builders of functions and variables leave no place behind.

What lies in a scope changes the function and the signature of that scope, which are there from
the start and are never places.
-/
import Dwarf2.Proofs.Build.Function
import Dwarf2.Proofs.Build.Waiting.Type

namespace Dwarf2
namespace Build

variable {src : Source} {first : Nat} {hand : List SymbolId} {s s' : State} {resolve : Resolver}
  {scope : Scope} {block : Option Nat} {e c : Entry} {id : SymbolId}

namespace Calm

/-! ## Variables and labels -/

theorem updateFunction {f : Symbol.Function → Symbol.Function} (mine : id ∈ hand)
    (develops : ∀ g : Symbol.Function, g.Develops (f g)) :
    Calm src first e hand (change (·.updateFunction id f)) := by
  intro s _ s' work eq
  rw [of_run_change eq]
  exact work.ready.updateFunction mine develops

theorem addDetached (l : Symbol.Local) : Calm src first e hand (change (·.addDetached l)) := by
  intro s _ s' work eq
  rw [of_run_change eq]
  exact work.ready.touch (.addDetached (Symbol.Within.refl hand) _ l) rfl fun _ place => place

theorem buildLocal {name : String} {type : Option SymbolId} {register : Option UInt16}
    {deref : Bool} {offset : Int64} :
    Calm src first e scope.own (Build.buildLocal scope block c name type register deref offset) := by
  obtain ⟨function, signature, frame⟩ := scope
  cases function with
  | some id => exact .updateFunction (Scope.own_of_function rfl) fun g => .addLocal g _
  | none => exact .addDetached _

theorem buildGlobal {name : String} {type : Option SymbolId} {offset : Int64} :
    Calm src first e hand (Build.buildGlobal src c name type offset) :=
  .bind .get fun _ => .bind (.push ⟨nofun, rfl⟩) fun _ => .pure ()

theorem buildLocated {name : String} {type : Option SymbolId} :
    Calm src first e scope.own (Build.buildLocated src scope block c name type) := by
  unfold Build.buildLocated
  split
  · exact .pure ()
  · exact .buildGlobal
  · exact .buildLocal
  · exact .buildLocal

theorem countParameter {type : Option SymbolId} :
    Calm src first e scope.own (Build.countParameter scope c type) := by
  unfold Build.countParameter
  split
  · split
    · rename_i id hid
      exact .addParameter (Scope.own_of_signature hid) type
    · exact .pure ()
  · exact .pure ()

theorem buildVariable (serves : Serves src first resolve) (hc : c ∈ e.preorder) :
    Calm src first e scope.own (Build.buildVariable src resolve scope block c) :=
  .bind (.typeOf serves hc) fun _ => .bind (.nameOf _) fun _ =>
    .bind .buildLocated fun _ => .countParameter

theorem buildLabel : Calm src first e scope.own (Build.buildLabel src scope c) := by
  refine .bind (.nameOf _) fun name => ?_
  split
  · rename_i id hid
    exact .updateFunction (Scope.own_of_function hid) fun g => .addLabel g _
  · exact .pure ()

theorem openBlock : Calm src first e scope.own (Build.openBlock src scope block c) := by
  unfold Build.openBlock
  dsimp only
  split
  · rename_i id hid
    intro s inner s' work eq
    rw [run_onTable] at eq
    cases eq
    unfold Symbol.Table.openBlock
    split
    · exact work.ready.updateFunction (Scope.own_of_function hid) fun g => .openBlock g _
    · exact .refl work.ready
  · exact .pure none

/-! ## Parts -/

mutual

theorem buildPart (serves : Serves src first resolve) {scope : Scope} {inBlock : Bool}
    {block : Option Nat} :
    (c : Entry) → (∀ d ∈ c.preorder, d ∈ e.preorder) →
      Calm src first e scope.own (Build.buildPart src resolve scope inBlock block c)
  | ⟨offset, abbreviation, attributeOffsets, children⟩, under => by
    have mine := under _ (Entry.mem_preorder _)
    have inside : ∀ d ∈ Entry.preorderAll children, d ∈ e.preorder :=
      fun d hd => under d (Entry.mem_preorder_of_under hd)
    unfold Build.buildPart
    split
    · exact .buildVariable serves mine
    · cases inBlock with
      | true => exact .pure ()
      | false => exact .buildVariable serves mine
    · cases inBlock with
      | true => exact .pure ()
      | false => exact .buildLabel
    · exact .bind .openBlock fun inner => buildParts serves children inside
    · refine (buildParts serves children inside).widen fun id hid => ?_
      rcases List.mem_append.1 hid with hid | hid
      · exact List.mem_append_left _ hid
      · cases hid
    · exact .pure ()

theorem buildParts (serves : Serves src first resolve) {scope : Scope} {inBlock : Bool}
    {block : Option Nat} :
    (es : List Entry) → (∀ d ∈ Entry.preorderAll es, d ∈ e.preorder) →
      Calm src first e scope.own (Build.buildParts src resolve scope inBlock block es)
  | [], _ => .pure ()
  | c :: rest, under =>
    .bind (buildPart serves c fun d hd => under d (List.mem_append_left _ hd)) fun _ =>
      buildParts serves rest fun d hd => under d (List.mem_append_right _ hd)

end

theorem buildDeclaration (serves : Serves src first resolve) {returnType : Option SymbolId} :
    Calm src first e [] (Build.buildDeclaration src resolve e returnType) :=
  .bind (.push ⟨nofun, rfl⟩) fun _ =>
    .buildParts serves e.children fun _ => Entry.mem_preorder_of_under

end Calm

/-! ## Functions -/

namespace Working

/-- The function is told after its signature, and both take up what lies under the entry. -/
theorem buildFunction (h : Working src first e s) (serves : Serves src first resolve)
    (pending : slot s e.offset = .pending none) (tag : e.tag ≠ .compileUnit) {name : String}
    {returnType : Option SymbolId}
    (eq : (Build.buildFunction src resolve e name returnType).run s = (id, s')) :
    Completes src first e s (some id) s' := by
  unfold Build.buildFunction at eq
  split at eq
  obtain ⟨signature, s₁, hsignature, eq⟩ := run_bind_eq.1 eq
  obtain ⟨_, _, ⟨⟩, eq⟩ := run_bind_eq.1 eq
  obtain ⟨function, s₂, hfunction, eq⟩ := run_bind_eq.1 eq
  obtain ⟨_, _, ⟨⟩, eq⟩ := run_bind_eq.1 eq
  obtain ⟨_, s₃, hparts, eq⟩ := run_bind_eq.1 eq
  obtain ⟨_, s₄, hnormalize, eq⟩ := run_bind_eq.1 eq
  cases eq
  obtain ⟨hsig, hs₁⟩ := of_run_push hsignature
  obtain ⟨hid, hs₂⟩ := of_run_push hfunction
  have pushed : Moves src first none [] s s₁ := hs₁ ▸ h.ready.push ⟨nofun, rfl⟩
  have work := h.grow pushed
  have told : Moves src first (some e.offset) [id] s₁ (s₂.mark e.offset (.pending (some id))) :=
    hs₂ ▸ work.appear (pushed.pending pending) tag hid rfl s₁.journal
  have parts : Moves src first none [id, signature] (s₂.mark e.offset (.pending (some id))) s₃ :=
    Calm.buildParts serves e.children (fun _ => Entry.mem_preorder_of_under) _ _ _
      (work.grow told) hparts
  have more : Moves src first none [id, signature] (s₂.mark e.offset (.pending (some id))) s' := by
    rw [of_run_change hnormalize]
    exact parts.trans (parts.ready.updateFunction List.mem_cons_self fun g => .normalize g)
  obtain ⟨f, there⟩ : ∃ f, s₂.symbols.get? id = some (.function f) := by
    rw [hs₂, hid]
    exact ⟨_, Symbol.Table.get?_push_self s₁.symbols _⟩
  refine .of_appeared (pushed.within.trans (told.mono fun i hi => ?_)) (slot_mark_self _ _ _)
    there ⟨nofun, rfl⟩ more fun i hi => ?_
  · exact List.mem_singleton.1 hi ▸ List.mem_cons_self
  · rcases List.mem_cons.1 hi with rfl | hi
    · rw [hid]
      exact pushed.grows.size_le
    · exact Nat.le_of_eq (by rw [List.mem_singleton.1 hi, hsig])

/-- What a subprogram is built into, if anything. -/
theorem buildSubprogram (h : Working src first e s) (serves : Serves src first resolve)
    (pending : slot s e.offset = .pending none) (tag : e.tag ≠ .compileUnit) {r : Option SymbolId}
    (eq : (Build.buildSubprogram src resolve e).run s = (r, s')) :
    Completes src first e s r s' := by
  unfold Build.buildSubprogram at eq
  split at eq
  · cases eq
    exact .of_moves pending (.refl h.ready) nofun
  obtain ⟨name, s₁, hname, eq⟩ := run_bind_eq.1 eq
  obtain ⟨returnType, s₂, htype, eq⟩ := run_bind_eq.1 eq
  have named : Moves src first none [] s s₁ := h.ready.nameOf hname
  have before := named.trans ((h.grow named).typeOf serves e.mem_preorder htype).1
  split at eq
  · obtain ⟨_, s₃, hdeclaration, eq⟩ := run_bind_eq.1 eq
    cases eq
    exact .of_moves pending
      (before.trans (Calm.buildDeclaration serves _ _ _ (h.grow before) hdeclaration)) nofun
  · obtain ⟨id, hfunction, rfl⟩ := run_map_eq.1 eq
    exact .after before
      ((h.grow before).buildFunction serves (before.pending pending) tag hfunction)

/-- A variable that is asked for by itself is no symbol to be answered with. -/
theorem buildVariable (h : Working src first e s) (serves : Serves src first resolve)
    (pending : slot s e.offset = .pending none)
    (eq : (Build.buildVariable src resolve {} none e).run s = ((), s')) :
    Completes src first e s none s' :=
  .of_moves pending (Calm.buildVariable serves e.mem_preorder _ _ _ h eq) nofun

end Working
end Build
end Dwarf2
