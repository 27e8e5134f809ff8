/-
The body of a function in the end.

While a function is built, the types of its variables may have other functions built in the same
table.  `mirrors_after` says that nevertheless it has exactly the blocks, locals and labels that
the entries under its own entry stand for, and its signature the types of its own parameters.
One of these is lost where the parameter refers to a type that is still waiting for the function
itself: `parameter_lost`.
-/
import Dwarf2.Proofs.Build.Trace

namespace Dwarf2
namespace Build

variable {src : Source} {start s : State} {e : Entry} {offset : Nat} {id : SymbolId}

theorem Grows.body (grows : Grows src {} start s)
    (fresh : ∀ offset, slot start offset = .unresolved) (he : src.tree.get? offset = some e)
    (tag : e.tag = .subprogram) (resolved : slot s offset = .resolved (some id)) :
    ∃ f g, s.symbols.get? id = some (.function f) ∧
      s.symbols.get? f.signature = some (.signature g) ∧
      Mirrors src (Stores src s e) (frameOf src e) (partsOf e) f ∧
      DescribesSignature (Stores src s e) e g := by
  obtain ⟨s₁, s₂, trace⟩ := grows.trace fresh he (by rw [tag]; nofun) resolved
  obtain ⟨steps, work, pending, eq⟩ := trace.runs
  rw [build, tag] at eq
  have run := work.run_buildSubprogram pending (answers_resolveWithin src steps) tag eq
  obtain ⟨-, _, f, g, ⟨⟩, exposed, hg, signature, mirrors⟩ := run.resolve_left fun nothing =>
    Option.some_ne_none id nothing.2.1
  obtain ⟨_, -, ⟨⟩, hf⟩ := trace.stands exposed
  have new : New [] s₁ s₂ f.signature :=
    ⟨exposed.behind _ (by simp), Symbol.Table.lt_size_of_get? hg, List.not_mem_nil⟩
  exact ⟨f, g, hf, (trace.kept _ _ new hg).1, mirrors.imp (trace.stores grows fresh),
    signature.imp (trace.stores grows fresh)⟩

/-- The function of an entry has a block for each block that is reached from the entry, a local
for each variable and parameter that is reached and lives in a register or in the frame, and a
label for each label, all in the order of the entries and every one in its innermost block.
What is stored for the types of locals, and of the parameters of the signature, is told by
`Stores`. -/
theorem mirrors_after (src : Source) (symbols : Symbol.Table) (names : NameSupply)
    (calls : List Call) (offset : Nat) (e : Entry) (id : SymbolId) :
    let s := after src symbols names calls
    src.tree.get? offset = some e → e.tag = .subprogram → slot s offset = .resolved (some id) →
      InPreorder e (partsOf e) ∧
        ∃ f g, s.symbols.get? id = some (.function f) ∧
          s.symbols.get? f.signature = some (.signature g) ∧
          Mirrors src (Stores src s e) (frameOf src e) (partsOf e) f ∧
          List.Forall₂ (Stores src s e) (e.childrenOf .formalParameter) g.parameters.toList := by
  intro s he tag resolved
  obtain ⟨f, g, hf, hg, mirrors, -, parameters⟩ :=
    (grows_after src symbols names calls).body (slot_new symbols names) he tag resolved
  exact ⟨inPreorder_partsOf e, f, g, hf, hg, mirrors, parameters⟩

/-! ## A function that takes itself

The parameter of a function is of a constant type, which the function itself is the type of. -/

namespace Selfish

def parameter : Entry :=
  typed 4 4 .formalParameter

def function : Entry :=
  ⟨3, ⟨3, .subprogram, true, []⟩, [],
    [parameter, ⟨6, ⟨5, .lexicalBlock, true, []⟩, [],
      [⟨7, ⟨6, .inlinedSubroutine, true, []⟩, [],
        [⟨8, ⟨7, .label, false, [⟨.lowPc, .data1⟩]⟩, [9], []⟩]⟩]⟩]⟩

def source : Source where
  view := ⟨.little, #[1, 2, 3, 3, 4, 1, 5, 6, 7, 16, 0, 0, 0, 0], #[], 0, 4⟩
  tree := .ofRoot ⟨0, ⟨1, .compileUnit, true, []⟩, [], [typed 1 2 .constType, function]⟩ (by decide)
  image := ⟨0, []⟩

theorem size_tree : source.tree.size = 7 := by
  simp [source, function, parameter, typed, Entry.Tree.size, Entry.Tree.ofRoot, Entry.fold,
    Entry.foldAll, Std.HashMap.size_insert]

theorem get?_function : source.tree.get? 3 = some function := by cbv

/-! What is there when the constant type has been asked for. -/

theorem slot_function : slot (after source {} {} [.resolve 1]) 3 = .resolved (some ⟨1⟩) := by
  rw [after_resolve size_tree]
  cbv

theorem slot_constant : slot (after source {} {} [.resolve 1]) 1 = .resolved (some ⟨1⟩) := by
  rw [after_resolve size_tree]
  cbv

theorem get?_signature : (after source {} {} [.resolve 1]).symbols.get? ⟨0⟩ =
    some (.signature ⟨none, .farC, #[none]⟩) := by
  rw [after_resolve size_tree]
  cbv

theorem get?_symbol : (after source {} {} [.resolve 1]).symbols.get? ⟨1⟩ = some (.function
    { name := "subprogram_0", compiland := none, address := 0, length := 0, signature := ⟨0⟩
      blocks := #[⟨0, 0, none⟩], labels := #[⟨"label_2", 16⟩], normalized := true }) := by
  rw [after_resolve size_tree]
  cbv

end Selfish

theorem mirrors_selfish :
    let s := after Selfish.source {} {} [.resolve 1]
    Selfish.source.tree.get? 3 = some Selfish.function ∧ Selfish.function.tag = .subprogram ∧
      slot s 3 = .resolved (some ⟨1⟩) ∧ InPreorder Selfish.function (partsOf Selfish.function) ∧
      ∃ f g, s.symbols.get? ⟨1⟩ = some (.function f) ∧
        s.symbols.get? f.signature = some (.signature g) ∧
        Mirrors Selfish.source (Stores Selfish.source s Selfish.function)
          (frameOf Selfish.source Selfish.function) (partsOf Selfish.function) f ∧
        List.Forall₂ (Stores Selfish.source s Selfish.function)
          (Selfish.function.childrenOf .formalParameter) g.parameters.toList :=
  ⟨Selfish.get?_function, rfl, Selfish.slot_function,
    mirrors_after Selfish.source {} {} [.resolve 1] 3 Selfish.function ⟨1⟩ Selfish.get?_function rfl
      Selfish.slot_function⟩

/-- The constant type has a symbol in the end, and the parameter that is of it has none. -/
theorem parameter_lost :
    let s := after Selfish.source {} {} [.resolve 1]
    Selfish.source.tree.get? 3 = some Selfish.function ∧ Selfish.function.tag = .subprogram ∧
      slot s 3 = .resolved (some ⟨1⟩) ∧
      Selfish.function.childrenOf .formalParameter = [Selfish.parameter] ∧
      Selfish.parameter.reference? Selfish.source.view .type = some 1 ∧
      1 ≠ Selfish.source.tree.root.offset ∧ slot s 1 = .resolved (some ⟨1⟩) ∧
      (∃ f, s.symbols.get? ⟨1⟩ = some (.function f) ∧ f.signature = ⟨0⟩) ∧
      s.symbols.get? ⟨0⟩ = some (.signature ⟨none, .farC, #[none]⟩) :=
  ⟨Selfish.get?_function, rfl, Selfish.slot_function, rfl, by decide, by decide,
    Selfish.slot_constant, ⟨_, Selfish.get?_symbol, rfl⟩, Selfish.get?_signature⟩

end Build
end Dwarf2
