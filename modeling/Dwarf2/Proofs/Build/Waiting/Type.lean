/-
The builders of types fill the places that they reserve.

A type that is built in a place asks for other types meanwhile, and so does one that takes up its
parts.  Both wait for what they ask for, and what they are given is a symbol of the builder.
-/
import Dwarf2.Build.Type
import Dwarf2.Proofs.Build.Waiting.Step

namespace Dwarf2
namespace Build

variable {src : Source} {first : Nat} {hand : List SymbolId} {s s' : State} {resolve : Resolver}
  {e c : Entry} {id : SymbolId}

/-! ## Parts -/

namespace Calm

theorem addMember (mine : id ∈ hand) (m : Symbol.Member) :
    Calm src first e hand (change (·.addMember id m)) :=
  update mine (fun x => by
    cases x with
    | aggregate a => exact .addMember a m
    | _ => exact .same _) rfl

theorem addEnumerator (mine : id ∈ hand) (v : Symbol.Enumerator) :
    Calm src first e hand (change (·.addEnumerator id v)) :=
  update mine (fun x => by
    cases x with
    | enumeration n => exact .addEnumerator n v
    | _ => exact .same _) rfl

theorem addParameter (mine : id ∈ hand) (type : Option SymbolId) :
    Calm src first e hand (change (·.addParameter id type)) :=
  update mine (fun x => by
    cases x with
    | signature g => exact .addParameter g type
    | _ => exact .same _) rfl

theorem buildMember (serves : Serves src first resolve) (mine : id ∈ hand) (hc : c ∈ e.preorder) :
    Calm src first e hand (Build.buildMember src resolve id c) :=
  .bind (.nameOf _) fun _ => .bind (.typeOf serves hc) fun _ => .bind .get fun _ =>
    .addMember mine _

theorem buildContent (serves : Serves src first resolve) (mine : id ∈ hand)
    (hc : c ∈ e.preorder) : Calm src first e hand (Build.buildContent src resolve id c) := by
  unfold Build.buildContent
  split
  · exact .buildMember serves mine hc
  · exact .bind (.child serves hc) fun _ => .pure ()
  · exact .pure ()

theorem buildEnumerator (mine : id ∈ hand) :
    Calm src first e hand (Build.buildEnumerator src id c) := by
  unfold Build.buildEnumerator
  split
  · exact .bind (.nameOf _) fun _ => .addEnumerator mine _
  · exact .pure ()

theorem buildParameterType (serves : Serves src first resolve) (mine : id ∈ hand)
    (hc : c ∈ e.preorder) :
    Calm src first e hand (Build.buildParameterType src resolve id c) := by
  unfold Build.buildParameterType
  split
  · exact .bind (.typeOf serves hc) fun _ => .addParameter mine _
  · exact .pure ()

end Calm

/-! ## Types -/

namespace Working

theorem buildBaseType (h : Working src first e s) (pending : slot s e.offset = .pending none)
    (eq : (Build.buildBaseType src e).run s = (id, s')) : Completes src first e s (some id) s' := by
  obtain ⟨name, s₁, hname, eq⟩ := run_bind_eq.1 eq
  obtain ⟨hid, rfl⟩ := of_run_push eq
  have named : Moves src first none [] s s₁ := h.ready.nameOf hname
  refine .of_moves pending (named.trans (named.ready.push ⟨nofun, rfl⟩)) ?_
  rintro _ ⟨⟩
  rw [hid]
  exact ⟨named.ready.first_le, Symbol.Table.lt_size_push _ _⟩

theorem buildTypedef (h : Working src first e s) (serves : Serves src first resolve)
    (pending : slot s e.offset = .pending none) (tag : e.tag ≠ .compileUnit)
    (eq : (Build.buildTypedef src resolve e).run s = (id, s')) :
    Completes src first e s (some id) s' := by
  refine h.inPlace pending tag eq fun s₁ x s₂ work run => ?_
  obtain ⟨name, s₃, hname, run⟩ := run_bind_eq.1 run
  obtain ⟨target, s₄, htarget, run⟩ := run_bind_eq.1 run
  cases run
  have named : Moves src first none [] s₁ s₃ := work.ready.nameOf hname
  obtain ⟨asked, fresh⟩ := (work.grow named).typeOf serves e.mem_preorder htarget
  exact ⟨named.trans asked, nofun, fresh⟩

theorem buildPointer (h : Working src first e s) (serves : Serves src first resolve)
    (pending : slot s e.offset = .pending none) (tag : e.tag ≠ .compileUnit)
    (eq : (Build.buildPointer src resolve e).run s = (id, s')) :
    Completes src first e s (some id) s' := by
  refine h.inPlace pending tag eq fun s₁ x s₂ work run => ?_
  obtain ⟨target, s₃, htarget, run⟩ := run_bind_eq.1 run
  cases run
  exact ⟨(work.typeOf serves e.mem_preorder htarget).1, nofun, nofun⟩

theorem buildArray (h : Working src first e s) (serves : Serves src first resolve)
    (pending : slot s e.offset = .pending none) (tag : e.tag ≠ .compileUnit) {r : Option SymbolId}
    (eq : (Build.buildArray src resolve e).run s = (r, s')) : Completes src first e s r s' := by
  unfold Build.buildArray at eq
  split at eq
  · cases eq
    exact .of_moves pending (.refl h.ready) nofun
  obtain ⟨id, placed, rfl⟩ := run_map_eq.1 eq
  refine h.inPlace pending tag placed fun s₁ x s₂ work run => ?_
  obtain ⟨element, s₃, helement, run⟩ := run_bind_eq.1 run
  obtain ⟨range, s₄, hrange, run⟩ := run_bind_eq.1 run
  cases run
  obtain ⟨asked, fresh⟩ := work.typeOf serves e.mem_preorder helement
  have bounded : Moves src first none [] s₃ s₂ := by
    refine run_foldlM (P := fun _ _ s₅ => Moves src first none [] s₃ s₅) hrange
      (.refl asked.ready) fun _ range c s₅ range' s₆ hc sofar run => ?_
    unfold readBounds at run
    split at run
    · obtain ⟨index, s₇, hindex, run⟩ := run_bind_eq.1 run
      cases run
      exact sofar.trans (((work.grow asked).grow sofar).typeOf serves
        (Entry.mem_preorder_of_mem_children hc) hindex).1
    · cases run
      exact sofar
  exact ⟨asked.trans bounded, nofun, bounded.fresh fresh⟩

/-- A qualified type is the type that it qualifies. -/
theorem buildQualified (h : Working src first e s) (serves : Serves src first resolve)
    (pending : slot s e.offset = .pending none) {r : Option SymbolId}
    (eq : (Build.typeOf src resolve e).run s = (r, s')) : Completes src first e s r s' := by
  obtain ⟨moves, fresh⟩ := h.typeOf serves e.mem_preorder eq
  exact .of_moves pending moves fresh

theorem buildAggregate (h : Working src first e s) (serves : Serves src first resolve)
    (pending : slot s e.offset = .pending none) (tag : e.tag ≠ .compileUnit)
    {kind : Symbol.AggregateKind} (eq : (Build.buildAggregate src resolve kind e).run s = (id, s')) :
    Completes src first e s (some id) s' := by
  obtain ⟨name, s₁, hname, eq⟩ := run_bind_eq.1 eq
  have named : Moves src first none [] s s₁ := h.ready.nameOf hname
  refine .after named ((h.grow named).withParts (named.pending pending) tag eq ⟨nofun, rfl⟩
    (.forM fun c hc => .buildContent serves (List.mem_singleton_self id)
      (Entry.mem_preorder_of_mem_children hc)))

theorem buildEnumeration (h : Working src first e s) (pending : slot s e.offset = .pending none)
    (tag : e.tag ≠ .compileUnit) (eq : (Build.buildEnumeration src e).run s = (id, s')) :
    Completes src first e s (some id) s' := by
  obtain ⟨name, s₁, hname, eq⟩ := run_bind_eq.1 eq
  have named : Moves src first none [] s s₁ := h.ready.nameOf hname
  exact .after named ((h.grow named).withParts (named.pending pending) tag eq ⟨nofun, rfl⟩
    (.forM fun c _ => .buildEnumerator (List.mem_singleton_self id)))

theorem buildSubroutineType (h : Working src first e s) (serves : Serves src first resolve)
    (pending : slot s e.offset = .pending none) (tag : e.tag ≠ .compileUnit)
    (eq : (Build.buildSubroutineType src resolve e).run s = (id, s')) :
    Completes src first e s (some id) s' := by
  obtain ⟨type, s₁, htype, eq⟩ := run_bind_eq.1 eq
  obtain ⟨asked, -⟩ := h.typeOf serves e.mem_preorder htype
  exact .after asked ((h.grow asked).withParts (asked.pending pending) tag eq ⟨nofun, rfl⟩
    (.forM fun c hc => .buildParameterType serves (List.mem_singleton_self id)
      (Entry.mem_preorder_of_mem_children hc)))

end Working
end Build
end Dwarf2
