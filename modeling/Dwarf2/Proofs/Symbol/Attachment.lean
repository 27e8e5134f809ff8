/-
The lines that functions get while a table is used.

Only `addLine` gives lines, to the function that is nearest to the address and covers it.  What
is nearest changes only when another function or global variable comes into the table.  As long
as none does, the lines of a function are told by the calls alone: `attached_lines`.
-/
import Mathlib.Algebra.GroupWithZero.Nat
import Mathlib.Data.List.Induction
import Dwarf2.Proofs.Symbol.LineOrder

namespace Dwarf2
namespace Symbol
namespace Table

variable {t u : Table} {id other : SymbolId} {f g k : Function} {source : SourceId}
  {line address : UInt64} {facts facts' : List LineFact} {fact : LineFact}

theorem function?_of_get? (there : t.get? id = some (.function f)) : t.function? id = some f := by
  rw [function?, there]

/-! ## One operation -/

/-- The fact that a function gets to hold by an operation. -/
def recorded? (t : Table) (id : SymbolId) (f : Function) : Operation → Option LineFact
  | .addLine source line address =>
    if t.nearest? address = some id ∧ f.covers address = true then
      some ⟨source, line, address - f.address⟩
    else none
  | _ => none

/-- `g` is at the place of `f` and has the facts besides those of `f`, in the order in which they
are recorded. -/
structure Attached (f : Function) (facts : List LineFact) (g : Function) : Prop where
  address : g.address = f.address
  length : g.length = f.length
  lines : g.lines = facts.foldl record f.lines

namespace Attached

theorem of_code (code : g.code = f.code) : Attached f [] g :=
  let ⟨address, length, lines⟩ := Code.mk.inj code
  ⟨address, length, lines⟩

theorem trans (h : Attached f facts g) (h' : Attached g facts' k) :
    Attached f (facts ++ facts') k where
  address := h'.address.trans h.address
  length := h'.length.trans h.length
  lines := by rw [h'.lines, h.lines, List.foldl_append]

end Attached

theorem addLine_of_nearest (nearest : t.nearest? address = some id)
    (there : t.get? id = some (.function f)) (covers : f.covers address = true) :
    t.addLine source line address =
      match insertLine? ⟨source, line, address - f.address⟩ f.lines with
      | some lines => (true, t.updateFunction id fun f => { f with lines })
      | none => (false, t) := by
  unfold addLine
  rw [nearest]
  dsimp only
  rw [function?_of_get? there]
  exact if_pos covers

theorem get?_addLine (there : t.get? id = some (.function f)) (source : SourceId)
    (line address : UInt64) :
    ∃ g, (t.addLine source line address).2.get? id = some (.function g) ∧
      Attached f (recorded? t id f (.addLine source line address)).toList g := by
  by_cases lands : t.nearest? address = some id ∧ f.covers address = true
  · rw [recorded?, if_pos lands, addLine_of_nearest lands.1 there lands.2]
    cases inserted : insertLine? ⟨source, line, address - f.address⟩ f.lines with
    | none => exact ⟨f, there, rfl, rfl, by simp [record, inserted]⟩
    | some lines =>
      exact ⟨{ f with lines }, get?_updateFunction there _, rfl, rfl, by simp [record, inserted]⟩
  · rw [recorded?, if_neg lands]
    refine ⟨f, ?_, rfl, rfl, rfl⟩
    rcases t.addLine_cases source line address with
      same | ⟨id', f', lines, nearest, there', covers, -, eq⟩
    · rw [same]
      exact there
    · rw [eq]
      by_cases here : id = id'
      · subst here
        cases there.symm.trans there'
        exact absurd ⟨nearest, covers⟩ lands
      · exact (get?_update_of_ne t _ here).trans there

theorem Operation.Effect.get? {op : Operation} (effect : op.Effect t u)
    (silent : ∀ source line address, op ≠ .addLine source line address)
    (there : t.get? id = some (.function f)) :
    ∃ g, u.get? id = some (.function g) ∧ Attached f [] g := by
  cases effect with
  | push =>
    have old : id ≠ ⟨t.size⟩ := fun new => by
      have := lt_size_of_get? there
      rw [new] at this
      exact Nat.lt_irrefl _ this
    exact ⟨f, (get?_push_of_ne _ old).trans there, .of_code rfl⟩
  | fill other x =>
    refine ⟨f, ?_, .of_code rfl⟩
    unfold Table.fill
    split
    · rename_i empty
      have apart : id ≠ other := fun same => by
        rw [← same, there] at empty
        cases empty
      rw [get?_place, get?_update_of_ne _ _ apart, there]
    · exact there
  | @change _ other F _ code =>
    by_cases here : id = other
    · subst here
      obtain ⟨g, eq, same⟩ := code?_eq_some (code (.function f))
      exact ⟨g, by rw [get?_update_self, there, Option.map_some, eq], .of_code same⟩
    · exact ⟨f, (get?_update_of_ne t F here).trans there, .of_code rfl⟩
  | attach source line address => exact absurd rfl (silent source line address)
  | beside symbols => exact ⟨f, by rw [Table.get?, symbols]; exact there, .of_code rfl⟩

/-- A function stays where it is, whatever is done, and gets what is recorded for it. -/
theorem get?_perform (there : t.get? id = some (.function f)) (op : Operation) :
    ∃ g, (op.perform t).get? id = some (.function g) ∧
      Attached f (recorded? t id f op).toList g := by
  cases op with
  | addLine source line address => exact get?_addLine there source line address
  | _ => exact (Operation.effect t _).get? nofun there

/-! ## What is nearest -/

/-- The operation puts a function or a global variable into the table. -/
def Operation.registers (t : Table) : Operation → Bool
  | fill id x => t.get? id = some .placeholder ∧ x.address?.isSome
  | op => (op.new?.bind Symbol.address?).isSome

/-- None of the operations does. -/
def Quiet : Table → List Operation → Prop
  | _, [] => True
  | t, op :: rest => op.registers t = false ∧ Quiet (op.perform t) rest

instance Quiet.decidable : (t : Table) → (ops : List Operation) → Decidable (Quiet t ops)
  | _, [] => .isTrue trivial
  | t, op :: rest =>
    have := decidable (op.perform t) rest
    inferInstanceAs (Decidable (op.registers t = false ∧ Quiet (op.perform t) rest))

theorem addresses_place_of_none {x : Symbol} (h : x.address? = none) :
    (t.place id x).addresses = t.addresses := by
  unfold place
  rw [h]

theorem Operation.Effect.addresses {op : Operation} (effect : op.Effect t u)
    (quiet : op.registers t = false) : u.addresses = t.addresses := by
  cases effect with
  | @push _ x new =>
    have unplaced : x.address? = none := by
      cases op <;> simp_all [registers, Operation.new?]
    exact addresses_place_of_none unplaced
  | fill id x =>
    unfold Table.fill
    split
    · rename_i empty
      have unplaced : x.address? = none := by simpa [registers, empty] using quiet
      exact addresses_place_of_none unplaced
    · rfl
  | change => rfl
  | attach source line address =>
    rcases t.addLine_cases source line address with same | ⟨id, f, lines, -, -, -, -, eq⟩
    · rw [same]
    · rw [eq]
      rfl
  | beside _ addresses => exact addresses

theorem recorded?_congr (addresses : u.addresses = t.addresses) (attached : Attached f facts g)
    (id : SymbolId) : recorded? u id g = recorded? t id f := by
  funext op
  cases op with
  | addLine source line address =>
    simp only [recorded?, nearest?, Function.covers, addresses, attached.address,
      attached.length]
    rfl
  | _ => rfl

/-! ## Runs -/

theorem offset_le_of_recorded? {op : Operation} (h : recorded? t id f op = some fact) :
    fact.offset ≤ f.length := by
  cases op with
  | addLine source line address =>
    rw [recorded?, Option.ite_none_right_eq_some] at h
    obtain ⟨⟨-, covers⟩, eq⟩ := h
    cases eq
    exact (of_decide_eq_true covers).2
  | _ => cases h

theorem get?_after (there : t.get? id = some (.function f)) (ops : List Operation) :
    ∃ facts g, (t.after ops).get? id = some (.function g) ∧ Attached f facts g ∧
      (∀ fact ∈ facts, fact.offset ≤ f.length) ∧
      (Quiet t ops → facts = ops.filterMap (recorded? t id f)) := by
  induction ops generalizing t f with
  | nil => exact ⟨[], f, there, .of_code rfl, nofun, fun _ => rfl⟩
  | cons op rest ih =>
    obtain ⟨g, there', first⟩ := get?_perform there op
    obtain ⟨facts, k, there', later, inside, told⟩ := ih there'
    refine ⟨(recorded? t id f op).toList ++ facts, k, there', first.trans later,
      fun fact mem => ?_, fun quiet => ?_⟩
    · rcases List.mem_append.1 mem with mem | mem
      · exact offset_le_of_recorded? (Option.mem_toList.1 mem)
      · exact first.length ▸ inside fact mem
    · have addresses := (op.effect t).addresses quiet.1
      rw [told quiet.2, recorded?_congr addresses first]
      cases recorded : recorded? t id f op with
      | none => rw [List.filterMap_cons_none recorded]; rfl
      | some fact => rw [List.filterMap_cons_some recorded]; rfl

/-! ## Lists in order -/

structure Orderly (length : UInt64) (lines : List LineFact) : Prop where
  ascending : Ascending lines
  nodup : lines.Nodup
  inside : ∀ fact ∈ lines, fact.offset ≤ length

namespace Orderly

variable {length : UInt64} {lines : List LineFact}

theorem nil : Orderly length [] :=
  ⟨.nil, .nil, nofun⟩

theorem record (h : Orderly length lines) (inside : fact.offset ≤ length) :
    Orderly length (record lines fact) := by
  unfold Table.record
  cases inserted : insertLine? fact lines with
  | none => exact h
  | some more =>
    have perm := perm_insertLine? inserted
    have absent : fact ∉ lines := fun mem => by
      rw [(insertLine?_eq_none_iff h.ascending).2 mem] at inserted
      cases inserted
    refine ⟨pairwise_insertLine? inserted h.ascending,
      perm.nodup_iff.2 (List.nodup_cons.2 ⟨absent, h.nodup⟩), fun other mem => ?_⟩
    rcases (mem_insertLine? inserted other).1 mem with rfl | mem
    · exact inside
    · exact h.inside other mem

theorem foldl_record (h : Orderly length lines) (inside : ∀ fact ∈ facts, fact.offset ≤ length) :
    Orderly length (facts.foldl Table.record lines) :=
  List.foldlRecOn facts _ h fun _ h fact mem => h.record (inside fact mem)

/-- Lines in order are sorted already, and none of them is a repetition. -/
theorem byOffset_eraseDups (h : Orderly length lines) : byOffset lines.eraseDups = lines := by
  rw [eraseDups_of_nodup h.nodup]
  exact List.mergeSort_of_pairwise (h.ascending.imp decide_eq_true)

end Orderly

/-! ## Functions that were made in the table -/

/-- Of the operations on a table, one made the function; it was not put in the place of another
symbol. -/
def Founded (start : Table) (ops : List Operation) (id : SymbolId) : Prop :=
  ∃ earlier name unit address length type later,
    ops = earlier ++ .newFunction name unit address length type :: later ∧
      id = ⟨(start.after earlier).size⟩

theorem Founded.orderly {start : Table} {ops : List Operation} (h : Founded start ops id) :
    ∃ f, (start.after ops).get? id = some (.function f) ∧ Orderly f.length f.lines := by
  obtain ⟨earlier, name, unit, address, length, type, later, rfl, rfl⟩ := h
  rw [after_append]
  generalize start.after earlier = t
  obtain ⟨facts, g, there, attached, inside, -⟩ := get?_after (get?_push_self t _) later
  refine ⟨g, there, ?_⟩
  rw [attached.length, attached.lines]
  exact Orderly.nil.foldl_record inside

theorem Founded.append {start : Table} {ops : List Operation} (h : Founded start ops id)
    (more : List Operation) : Founded start (ops ++ more) id := by
  obtain ⟨earlier, name, unit, address, length, type, later, rfl, rfl⟩ := h
  exact ⟨earlier, name, unit, address, length, type, later ++ more, by simp, rfl⟩

theorem Operation.Effect.function_cases {op : Operation} (effect : op.Effect t u)
    (there : u.get? id = some (.function g)) :
    (∃ f, t.get? id = some (.function f)) ∨
      (op.new? = some (.function g) ∧ id = ⟨t.size⟩) ∨ op = .fill id (.function g) := by
  cases effect with
  | push new =>
    rw [get?_push] at there
    split at there
    · rename_i here
      exact .inr (.inl ⟨new.trans there, congrArg SymbolId.mk here⟩)
    · exact .inl ⟨g, there⟩
  | fill other x =>
    unfold Table.fill at there
    split at there
    · rename_i empty
      rw [get?_place] at there
      by_cases here : id = other
      · subst here
        rw [get?_update_self, empty] at there
        cases there
        exact .inr (.inr rfl)
      · exact .inl ⟨g, (get?_update_of_ne _ _ here).symm.trans there⟩
    · exact .inl ⟨g, there⟩
  | @change _ other F _ code =>
    by_cases here : id = other
    · subst here
      rw [get?_update_self] at there
      obtain ⟨x, there, eq⟩ := Option.map_eq_some_iff.1 there
      have kept : x.code? = some g.code := by rw [← code, eq]; rfl
      obtain ⟨f, rfl, -⟩ := code?_eq_some kept
      exact .inl ⟨f, there⟩
    · exact .inl ⟨g, (get?_update_of_ne t F here).symm.trans there⟩
  | attach source line address =>
    rcases t.addLine_cases source line address with same | ⟨id', f, lines, -, there', -, -, eq⟩
    · rw [same] at there
      exact .inl ⟨g, there⟩
    · rw [eq] at there
      by_cases here : id = id'
      · exact .inl ⟨f, here ▸ there'⟩
      · exact .inl ⟨g, (get?_update_of_ne t _ here).symm.trans there⟩
  | beside symbols =>
    rw [Table.get?, symbols] at there
    exact .inl ⟨g, there⟩

/-- Where no function is put in the place of another symbol, every function was made by an
operation of its own. -/
theorem founded_of_function {ops : List Operation}
    (unfilled : ∀ id f, .fill id (.function f) ∉ ops)
    (there : (({} : Table).after ops).get? id = some (.function f)) : Founded {} ops id := by
  induction ops using List.reverseRecOn generalizing f with
  | nil => cases there
  | append_singleton ops op ih =>
    have earlier := fun id f mem => unfilled id f (List.mem_append_left _ mem)
    rw [after_append] at there
    rcases (op.effect _).function_cases there with ⟨f, old⟩ | ⟨new, rfl⟩ | rfl
    · exact (ih earlier old).append [op]
    · cases op with
      | newFunction name unit address length type =>
        exact ⟨ops, name, unit, address, length, type, [], rfl, rfl⟩
      | _ => cases new
    · exact absurd (List.mem_append_right _ (List.mem_singleton_self _)) (unfilled id f)

/-! ## Counting -/

/-- How many facts the functions of the table have, taken together. -/
def factCount (t : Table) : Nat :=
  (t.symbols.toList.map fun x => (x.code?.map (·.lines.length)).getD 0).sum

theorem sum_map_modify {α : Type} (size : α → Nat) (F : α → α) {l : List α} {i : Nat} {x : α}
    (there : l[i]? = some x) :
    ((l.modify i F).map size).sum + size x = (l.map size).sum + size (F x) := by
  induction l generalizing i with
  | nil => cases there
  | cons y rest ih =>
    cases i with
    | zero =>
      cases there
      simp only [List.modify_zero_cons, List.map_cons, List.sum_cons]
      omega
    | succ i =>
      have := ih there
      simp only [List.modify_succ_cons, List.map_cons, List.sum_cons]
      omega

theorem factCount_updateFunction (there : t.get? id = some (.function f))
    (F : Function → Function) :
    (t.updateFunction id F).factCount + f.lines.length = t.factCount + (F f).lines.length := by
  have there : t.symbols.toList[id.index]? = some (.function f) := by simpa [Table.get?] using there
  rw [factCount, updateFunction, update, Array.toList_modify]
  exact sum_map_modify (fun x => (x.code?.map (·.lines.length)).getD 0) _ there

/-- One function gets the fact, between the facts that it has, and nothing else changes. -/
def Inserts (source : SourceId) (line address : UInt64) (t u : Table) : Prop :=
  ∃ id f front back, t.get? id = some (.function f) ∧ f.lines = front ++ back ∧
    u = t.updateFunction id fun g =>
      { g with lines := front ++ ⟨source, line, address - f.address⟩ :: back }

theorem Inserts.factCount (h : Inserts source line address t u) :
    u.factCount = t.factCount + 1 := by
  obtain ⟨id, f, front, back, there, parts, rfl⟩ := h
  have count := factCount_updateFunction there fun g =>
    { g with lines := front ++ ⟨source, line, address - f.address⟩ :: back }
  rw [parts, List.length_append, List.length_append, List.length_cons] at count
  omega

theorem addLine_eq_or_inserts (t : Table) (source : SourceId) (line address : UInt64) :
    t.addLine source line address = (false, t) ∨
      ∃ u, t.addLine source line address = (true, u) ∧ Inserts source line address t u := by
  rcases t.addLine_cases source line address with same | ⟨id, f, lines, -, there, -, inserted, eq⟩
  · exact .inl same
  · have place := insertLine?_eq_ite ⟨source, line, address - f.address⟩ f.lines
    rw [inserted] at place
    split at place
    · cases place
    · cases place
      exact .inr ⟨_, eq, id, f, _, _, there, List.takeWhile_append_dropWhile.symm, rfl⟩

/-! ## Lines in another order -/

/-- The lines of a function.  No other symbol has any. -/
def linesOf (t : Table) (id : SymbolId) : List LineFact :=
  (t.function? id).elim [] Function.lines

theorem linesOf_of_get? (there : t.get? id = some (.function f)) : t.linesOf id = f.lines := by
  rw [linesOf, function?_of_get? there]
  rfl

theorem linesOf_of_forall_ne (absent : ∀ f, t.get? id ≠ some (.function f)) :
    t.linesOf id = [] := by
  cases there : t.function? id with
  | some f => exact absurd (get?_of_function? there) (absent f)
  | none =>
    rw [linesOf, there]
    rfl

theorem Extends.linesOf_sublist (gains : Extends (fun _ => Gains) t u) (id : SymbolId) :
    (t.linesOf id).Sublist (u.linesOf id) := by
  by_cases there : ∃ f, t.get? id = some (.function f)
  · obtain ⟨f, there⟩ := there
    obtain ⟨y, there', gains⟩ := gains.symbols id _ there
    rw [linesOf_of_get? there]
    cases gains with
    | same => simpa only [linesOf_of_get? there'] using List.Sublist.refl _
    | lines more =>
      rw [linesOf_of_get? there']
      exact more
  · rw [linesOf_of_forall_ne fun f here => there ⟨f, here⟩]
    exact List.nil_sublist _

theorem length_linesOf {x : Symbol} (there : t.get? id = some x) :
    (t.linesOf id).length = (x.code?.map (·.lines.length)).getD 0 := by
  rw [linesOf, function?, there]
  cases x <;> rfl

/-- The facts are counted function by function. -/
theorem factCount_congr (size : u.size = t.size)
    (same : ∀ id, (u.linesOf id).length = (t.linesOf id).length) : u.factCount = t.factCount := by
  have size : u.symbols.toList.length = t.symbols.toList.length := size
  refine congrArg List.sum (List.ext_getElem ?_ fun i inside inside' => ?_)
  · simpa using size
  · rw [List.length_map] at inside inside'
    have there : t.get? ⟨i⟩ = some t.symbols.toList[i] := by simp [get?]
    have there' : u.get? ⟨i⟩ = some u.symbols.toList[i] := by simp [get?]
    rw [List.getElem_map, List.getElem_map, ← length_linesOf there, ← length_linesOf there', same]

theorem size_addLine (t : Table) (source : SourceId) (line address : UInt64) :
    (t.addLine source line address).2.size = t.size := by
  rcases t.addLine_cases source line address with same | ⟨id, f, lines, -, -, -, -, eq⟩
  · rw [same]
  · rw [eq]
    exact Array.size_modify

/-- All that the operations do is to give lines. -/
def OnlyLines (ops : List Operation) : Prop :=
  ∀ op ∈ ops, ∃ source line address, op = .addLine source line address

theorem OnlyLines.quiet {ops : List Operation} (only : OnlyLines ops) (t : Table) :
    Quiet t ops := by
  induction ops generalizing t with
  | nil => trivial
  | cons op rest ih =>
    obtain ⟨source, line, address, rfl⟩ := only _ List.mem_cons_self
    exact ⟨rfl, ih (fun op mem => only op (List.mem_cons_of_mem _ mem)) _⟩

theorem OnlyLines.size_after {ops : List Operation} (only : OnlyLines ops) (t : Table) :
    (t.after ops).size = t.size := by
  refine List.foldlRecOn (motive := fun u : Table => u.size = t.size) ops _ rfl ?_
  intro u same op mem
  obtain ⟨source, line, address, rfl⟩ := only op mem
  exact (u.size_addLine source line address).trans same

theorem OnlyLines.get?_of_after {ops : List Operation} (only : OnlyLines ops)
    (there : (t.after ops).get? id = some (.function g)) :
    ∃ f, t.get? id = some (.function f) := by
  induction ops generalizing t with
  | nil => exact ⟨g, there⟩
  | cons op rest ih =>
    obtain ⟨source, line, address, rfl⟩ := only _ List.mem_cons_self
    obtain ⟨f, there⟩ := ih (fun op mem => only op (List.mem_cons_of_mem _ mem)) there
    rcases (Operation.effect t (.addLine source line address)).function_cases there with
      old | ⟨⟨⟩, -⟩ | ⟨⟨⟩⟩
    exact old

/-- Lines may be given in any order. -/
theorem OnlyLines.perm_linesOf {ops ops' : List Operation} (only : OnlyLines ops)
    (perm : ops.Perm ops') (t : Table) (id : SymbolId) :
    ((t.after ops').linesOf id).Perm ((t.after ops).linesOf id) := by
  have only' : OnlyLines ops' := fun op mem => only op (perm.mem_iff.2 mem)
  by_cases there : ∃ f, t.get? id = some (.function f)
  · obtain ⟨f, there⟩ := there
    obtain ⟨facts, g, after, attached, -, told⟩ := get?_after there ops
    obtain ⟨facts', g', after', attached', -, told'⟩ := get?_after there ops'
    rw [linesOf_of_get? after, linesOf_of_get? after', attached.lines, attached'.lines,
      told (only.quiet t), told' (only'.quiet t)]
    exact (perm_foldl_record (perm.filterMap _) f.lines).symm
  · rw [linesOf_of_forall_ne fun _ after => there (only.get?_of_after after),
      linesOf_of_forall_ne fun _ after => there (only'.get?_of_after after)]

/-! ## The lines of a function -/

/-- The lines of a function are in order, none of them twice and none behind its end.  While
nothing else comes to lie in memory, a function gets the lines that land on it, each the first
time that it is told.  Giving a line says whether there is one fact more. -/
theorem attached_lines :
    (∀ ops : List Operation, (∀ id f, .fill id (.function f) ∉ ops) →
      ∀ id f, (({} : Table).after ops).get? id = some (.function f) → Founded {} ops id) ∧
    (∀ (earlier later : List Operation) (id : SymbolId), Founded {} earlier id →
      ∃ f g, (({} : Table).after earlier).get? id = some (.function f) ∧
        (({} : Table).after (earlier ++ later)).get? id = some (.function g) ∧
        Orderly g.length g.lines ∧
        (Quiet (({} : Table).after earlier) later →
          g.lines = byOffset (f.lines ++
            later.filterMap (recorded? (({} : Table).after earlier) id f)).eraseDups)) ∧
    ∀ (t : Table) (source : SourceId) (line address : UInt64),
      ((t.addLine source line address).1 = true ↔
        (t.addLine source line address).2.factCount = t.factCount + 1) ∧
      ((t.addLine source line address).1 = true →
        Inserts source line address t (t.addLine source line address).2) ∧
      ((t.addLine source line address).1 = false → (t.addLine source line address).2 = t) := by
  refine ⟨fun ops unfilled id f => founded_of_function unfilled,
    fun earlier later id founded => ?_, fun t source line address => ?_⟩
  · obtain ⟨f, there, orderly⟩ := founded.orderly
    obtain ⟨facts, g, there', attached, inside, told⟩ := get?_after there later
    refine ⟨f, g, there, after_append _ _ _ ▸ there', ?_, fun quiet => ?_⟩
    · rw [attached.length, attached.lines]
      exact orderly.foldl_record inside
    · rw [attached.lines, told quiet, ← foldl_record, orderly.byOffset_eraseDups]
  · rcases addLine_eq_or_inserts t source line address with same | ⟨u, eq, inserts⟩
    · rw [same]
      exact ⟨by simp, nofun, fun _ => rfl⟩
    · rw [eq]
      exact ⟨by simp [inserts.factCount], fun _ => inserts, nofun⟩

/-- A function of eight bytes that has a line in its middle gets one at its start, and the line
that it has once more. -/
theorem attached_lines_at_start :
    let earlier := [.newFunction "f" none 16 8 ⟨0⟩, .addLine ⟨0⟩ 5 20]
    let later := [.addLine ⟨0⟩ 3 16, .reserve, .addLine ⟨0⟩ 5 20]
    ∃ g, (({} : Table).after (earlier ++ later)).get? ⟨0⟩ = some (.function g) ∧
      g.lines = [⟨⟨0⟩, 3, 0⟩, ⟨⟨0⟩, 5, 4⟩] := by
  intro earlier later
  have there : (({} : Table).after earlier).get? ⟨0⟩ = some (.function
      { name := "f", compiland := none, address := 16, length := 8, signature := ⟨0⟩,
        lines := [⟨⟨0⟩, 5, 4⟩] }) := rfl
  have founded : Founded {} earlier ⟨0⟩ :=
    attached_lines.1 earlier (by simp [earlier]) ⟨0⟩ _ there
  obtain ⟨f, g, there', became, -, told⟩ := attached_lines.2.1 earlier later ⟨0⟩ founded
  cases there.symm.trans there'
  refine ⟨g, became, (told ?_).trans ?_⟩
  · decide
  · show byOffset ([⟨⟨0⟩, 5, 4⟩, ⟨⟨0⟩, 3, 0⟩, ⟨⟨0⟩, 5, 4⟩] : List LineFact).eraseDups = _
    show byOffset [⟨⟨0⟩, 5, 4⟩, ⟨⟨0⟩, 3, 0⟩] = _
    simp [byOffset, List.mergeSort]

end Table
end Symbol
end Dwarf2
