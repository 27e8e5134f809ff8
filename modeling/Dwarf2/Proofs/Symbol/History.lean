/-
What is kept of a table, whatever is done to it.

An operation puts a symbol behind the others, or changes the one symbol that it names, or none.
`Framed` says so of a single operation, and what a symbol can become by it is put together to
what it can become in any number of them: `framed_after`.
-/
import Mathlib.Logic.Relation
import Dwarf2.Proofs.Symbol.Line
import Dwarf2.Proofs.Symbol.Operation
import Dwarf2.Proofs.Symbol.Sort

namespace Dwarf2
namespace Symbol

/-! ## Symbols -/

/-- More labels behind those that are there, or the same put in order. -/
def Rearranged (labels labels' : Array Label) : Prop :=
  labels.toList <+: labels'.toList ∨ Sorts Label.address labels.toList labels'.toList

/-- What may become of a symbol in the course of time. -/
structure Advances (x y : Symbol) : Prop where
  develops : x.Develops y
  labels : ∀ f g, x = .function f → y = .function g →
    Relation.ReflTransGen Rearranged f.labels g.labels

theorem Advances.refl (x : Symbol) : x.Advances x where
  develops := .same x
  labels f g hf hg := by
    cases hf.symm.trans hg
    exact .refl

theorem Advances.trans {x y z : Symbol} (h : x.Advances y) (h' : y.Advances z) :
    x.Advances z where
  develops := h.develops.trans h'.develops
  labels f k hf hk := by
    subst hf
    obtain ⟨g, hg, -⟩ := h.develops.of_function
    exact (h.labels f g rfl hg).trans (h'.labels g k hg hk)

namespace Table

variable {t u : Table} {id : SymbolId}

theorem update_eq_self {f : Symbol → Symbol} (same : ∀ x, t.get? id = some x → f x = x) :
    t.update id f = t := by
  have symbols : t.symbols.modify id.index f = t.symbols := by
    refine Array.ext (by simp) fun i _ inside => ?_
    rw [Array.getElem_modify]
    split
    · rename_i here
      exact same _ (here ▸ Array.getElem?_eq_getElem inside)
    · rfl
  rw [update, symbols]

namespace Operation

variable {op : Operation}

/-! ## What an operation is about -/

/-- Whether the operation is to change a symbol. -/
def isChange : Operation → Bool
  | fill .. | addMember .. | addEnumerator .. | addParameter .. | addLocal .. | openBlock ..
  | addLabel .. | normalize .. | addLine .. => true
  | _ => false

/-- The symbol that is to be changed.  For a line it is the one that is nearest to the address. -/
def subject? (t : Table) : Operation → Option SymbolId
  | fill id _ | addMember id _ | addEnumerator id _ | addParameter id _ | addLocal id _
  | openBlock id _ | addLabel id _ | normalize id => some id
  | addLine _ _ address => t.nearest? address
  | _ => none

/-- Whether the operation can be done to the symbol. -/
def suits : Operation → Symbol → Bool
  | fill .., .placeholder | addMember .., .aggregate _ | addEnumerator .., .enumeration _
  | addParameter .., .signature _ | addLocal .., .function _ | openBlock .., .function _
  | addLabel .., .function _ | normalize _, .function _ => true
  | addLine _ _ address, .function f => f.covers address
  | _, _ => false

/-- The operation has nothing to be done to: the symbol is not there, or of another kind. -/
def Idle (t : Table) (op : Operation) : Prop :=
  ∀ id x, op.subject? t = some id → t.get? id = some x → op.suits x = false

/-- What may become of a symbol by an operation. -/
structure Turns (op : Operation) (x y : Symbol) : Prop where
  develops : x.Develops y
  labels : ∀ f g, x = .function f → y = .function g →
    f.labels.toList <+: g.labels.toList ∨
      (∃ id, op = .normalize id) ∧ Sorts Label.address f.labels.toList g.labels.toList

/-- What an operation leaves of the table that it is done to. -/
structure Framed (op : Operation) (t u : Table) : Prop where
  size : u.size = t.size + if op.new?.isSome then 1 else 0
  others : ∀ id, id.index < t.size → op.subject? t ≠ some id → u.get? id = t.get? id
  turns : ∀ id x, t.get? id = some x → ∃ y, u.get? id = some y ∧ op.Turns x y
  idle : op.isChange = true → op.Idle t → u = t

namespace Turns

theorem refl (op : Operation) (x : Symbol) : op.Turns x x where
  develops := .same x
  labels f g hf hg := by
    cases hf.symm.trans hg
    exact .inl (List.prefix_refl _)

theorem function {f g : Function} (develops : f.Develops g)
    (labels : f.labels.toList <+: g.labels.toList) : op.Turns (.function f) (.function g) where
  develops := .function develops
  labels _ _ hf hg := by
    cases hf
    cases hg
    exact .inl labels

theorem normalize (id : SymbolId) (f : Function) :
    (Operation.normalize id).Turns (.function f)
      (.function { f with labels := sortLabels f.labels, normalized := true }) where
  develops := .function (.normalize f)
  labels _ _ hf hg := by
    cases hf
    cases hg
    exact .inr ⟨⟨id, rfl⟩, sorts_sort Label.address f.labels.toList⟩

theorem advances {x y : Symbol} (h : op.Turns x y) : x.Advances y where
  develops := h.develops
  labels f g hf hg := .single ((h.labels f g hf hg).imp_right And.right)

end Turns

/-! ## A single operation -/

namespace Framed

theorem push {x : Symbol} (new : op.new? = some x) (isChange : op.isChange = false) :
    op.Framed t (t.push x).2 where
  size := by simp [new]
  others id inside _ := by rw [get?_push, if_neg (Nat.ne_of_lt inside)]
  turns id y there := by
    refine ⟨y, ?_, .refl op y⟩
    rw [get?_push, if_neg (Nat.ne_of_lt (lt_size_of_get? there)), there]
  idle isChange' := by simp [isChange] at isChange'

/-- The operations that do not have to do with symbols. -/
theorem beside (new : op.new? = none) (isChange : op.isChange = false)
    (symbols : u.symbols = t.symbols) : op.Framed t u := by
  have same (id : SymbolId) : u.get? id = t.get? id := by simp [get?, symbols]
  refine ⟨by simp [Table.size, symbols, new], fun id _ _ => same id,
    fun id x there => ⟨x, (same id).trans there, .refl op x⟩, fun isChange' => ?_⟩
  simp [isChange] at isChange'

theorem unchanged (new : op.new? = none) : op.Framed t t where
  size := by simp [new]
  others _ _ _ := rfl
  turns id x there := ⟨x, there, .refl op x⟩
  idle _ _ := rfl

/-- The symbol suits the operation or stays as it is. -/
theorem update {f : Symbol → Symbol} (new : op.new? = none) (subject : op.subject? t = some id)
    (changes : ∀ x, t.get? id = some x → op.suits x = true ∧ op.Turns x (f x) ∨ f x = x) :
    op.Framed t (t.update id f) where
  size := by simp [new]
  others other _ apart := get?_update_of_ne t f fun same => apart (same ▸ subject)
  turns other x there := by
    by_cases same : other = id
    · subst same
      refine ⟨f x, by rw [get?_update_self, there, Option.map_some], ?_⟩
      rcases changes x there with ⟨-, turns⟩ | kept
      · exact turns
      · exact kept.symm ▸ .refl op x
    · exact ⟨x, by rw [get?_update_of_ne t f same, there], .refl op x⟩
  idle _ idle := update_eq_self fun x there => by
    rcases changes x there with ⟨suited, -⟩ | kept
    · cases suited.symm.trans (idle id x subject there)
    · exact kept

theorem updateFunction {f : Function → Function} (new : op.new? = none)
    (subject : op.subject? t = some id)
    (turns : ∀ g, t.get? id = some (.function g) → op.Turns (.function g) (.function (f g)))
    (suited : ∀ g, t.get? id = some (.function g) → op.suits (.function g) = true) :
    op.Framed t (t.updateFunction id f) := by
  refine .update new subject fun x there => ?_
  cases x with
  | function g => exact .inl ⟨suited g there, turns g there⟩
  | _ => exact .inr rfl

theorem fill (t : Table) (id : SymbolId) (x : Symbol) :
    (Operation.fill id x).Framed t (t.fill id x) where
  size := size_fill t id x
  others other _ apart := get?_fill_of_ne t x fun same => apart (same ▸ rfl)
  turns other y there := by
    by_cases same : other = id
    · subst same
      cases y with
      | placeholder => exact ⟨x, get?_fill_self there, ⟨.fill x, nofun⟩⟩
      | _ => exact ⟨_, by rw [Table.fill, there]; exact there, .refl _ _⟩
    · exact ⟨y, by rw [get?_fill_of_ne t x same, there], .refl _ y⟩
  idle _ idle := by
    unfold Table.fill
    split
    · rename_i empty
      exact absurd (idle id .placeholder rfl empty) (by simp [suits])
    · rfl

theorem openBlock (t : Table) (id : SymbolId) (b : Block) :
    (Operation.openBlock id b).Framed t (t.openBlock id b).2 := by
  unfold Table.openBlock
  split
  · exact .updateFunction rfl rfl (fun g _ => .function (.openBlock g b) (List.prefix_refl _))
      fun _ _ => rfl
  · exact .unchanged rfl

theorem addLine (t : Table) (source : SourceId) (line address : UInt64) :
    (Operation.addLine source line address).Framed t (t.addLine source line address).2 := by
  rcases t.addLine_cases source line address with
    same | ⟨id, f, lines, nearest, there, covers, inserted, added⟩
  · rw [same]
    exact .unchanged rfl
  · rw [added]
    refine .updateFunction rfl nearest (fun g here => ?_) (fun g here => ?_)
    · cases there.symm.trans here
      have develops : f.Develops { f with lines } :=
        { Function.Develops.refl f with lines := sublist_insertLine? inserted }
      exact .function develops (List.prefix_refl _)
    · cases there.symm.trans here
      exact covers

end Framed

/-- An operation changes no more than the symbol that it is about. -/
theorem framed (t : Table) (op : Operation) : op.Framed t (op.perform t) := by
  cases op with
  | fill id x => exact .fill t id x
  | addMember id m =>
    refine .update rfl rfl fun x _ => ?_
    cases x with
    | aggregate a => exact .inl ⟨rfl, .addMember a m, nofun⟩
    | _ => exact .inr rfl
  | addEnumerator id e =>
    refine .update rfl rfl fun x _ => ?_
    cases x with
    | enumeration a => exact .inl ⟨rfl, .addEnumerator a e, nofun⟩
    | _ => exact .inr rfl
  | addParameter id type =>
    refine .update rfl rfl fun x _ => ?_
    cases x with
    | signature a => exact .inl ⟨rfl, .addParameter a type, nofun⟩
    | _ => exact .inr rfl
  | addLocal id l =>
    exact .updateFunction rfl rfl (fun g _ => .function (.addLocal g l) (List.prefix_refl _))
      fun _ _ => rfl
  | addLabel id l =>
    refine .updateFunction rfl rfl (fun g _ => .function (.addLabel g l) ?_) fun _ _ => rfl
    rw [Array.toList_push]
    exact List.prefix_append _ _
  | normalize id => exact .updateFunction rfl rfl (fun g _ => .normalize id g) fun _ _ => rfl
  | openBlock id b => exact .openBlock t id b
  | addLine source line address => exact .addLine t source line address
  | internFile directory name => exact .beside rfl rfl (t.symbols_internFile directory name)
  | addDetached | offer => exact .beside rfl rfl rfl
  | _ =>
    show Framed _ t (t.push _).2
    exact .push rfl rfl

theorem Framed.size_le (h : op.Framed t u) : t.size ≤ u.size := by
  rw [h.size]
  exact Nat.le_add_right _ _

end Operation

/-! ## Any operations -/

/-- A table never shrinks and every symbol keeps its identifier.  One that is known stays what it
is and is only given more parts.  An operation changes at most the symbol that it names, or the one
that it puts behind the others, and does nothing to the table when that symbol is not there or of
another kind. -/
theorem framed_after (t : Table) (operations : List Operation) :
    let u := t.after operations
    t.size ≤ u.size ∧
    (∀ id x, t.get? id = some x → ∃ y, u.get? id = some y ∧ x.Advances y) ∧
    ∀ op : Operation, op.Framed u (op.perform u) := by
  refine ⟨?_, ?_, fun op => op.framed _⟩
  · exact after_induction (P := fun u => t.size ≤ u.size)
      (fun u op sofar => Nat.le_trans sofar (op.framed u).size_le) (Nat.le_refl _) operations
  · refine after_induction
      (P := fun u => ∀ id x, t.get? id = some x → ∃ y, u.get? id = some y ∧ x.Advances y)
      (fun u op sofar id x there => ?_) (fun id x there => ⟨x, there, .refl x⟩) operations
    obtain ⟨y, here, first⟩ := sofar id x there
    obtain ⟨z, here', turns⟩ := (op.framed u).turns id y here
    exact ⟨z, here', first.trans turns.advances⟩

end Table
end Symbol
end Dwarf2
