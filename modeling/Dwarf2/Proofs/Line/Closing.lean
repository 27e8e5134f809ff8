/-
The row that closes a sequence.

It stands at the first address behind the code, and a function covers that address of its own, so
that the row comes to the function that the sequence is about.  But which function a row is for is
told by the symbol that starts nearest before it, and behind the end of one function there may be
the start of the next.  So the row comes to the function that it closes only as long as nothing
starts there: `run_of_closes`.
-/
import Dwarf2.Proofs.Line.Compression
import Dwarf2.Proofs.Line.Prologue
import Dwarf2.Proofs.Symbol.AddressIndex
import Dwarf2.Proofs.Symbol.Attachment

namespace Dwarf2

/-! ## What is nearest to two addresses -/

namespace Symbol
namespace Table

variable {t u : Table} {id other : SymbolId} {f : Function} {source : SourceId}
  {line address low high : UInt64}

/-- No symbol starts behind the one address and up to the other. -/
def Free (t : Table) (low high : UInt64) : Prop :=
  ∀ id start, t.address? id = some start → low < start → ¬start ≤ high

theorem Indexed.nearest?_of_free (h : t.Indexed) (free : t.Free low high) (le : low ≤ high)
    (nearest : t.nearest? low = some id) : t.nearest? high = some id := by
  rw [h.nearest?_eq_some_iff] at nearest ⊢
  obtain ⟨p, last, rfl⟩ := nearest
  refine ⟨p, ⟨⟨last.mem.1, UInt64.le_trans last.mem.2 le⟩, fun q starts => ?_⟩, rfl⟩
  by_cases soon : q.address ≤ low
  · exact last.last q ⟨starts.1, soon⟩
  · exact absurd starts.2 (free q.id q.address starts.1 (UInt64.not_le.1 soon))

theorem Indexed.start_of_not_free (h : t.Indexed) (taken : ¬t.Free low high)
    (nearest : t.nearest? high = some id) :
    ∃ start, t.address? id = some start ∧ low < start ∧ start ≤ high := by
  obtain ⟨p, last, rfl⟩ := h.nearest?_eq_some_iff.1 nearest
  unfold Free at taken
  push Not at taken
  obtain ⟨other, start, there, behind, before⟩ := taken
  refine ⟨p.address, last.mem.1, ?_, last.mem.2⟩
  rcases last.last ⟨start, other⟩ ⟨there, before⟩ with same | earlier | ⟨same, -⟩
  · exact same ▸ behind
  · exact UInt64.lt_trans behind earlier
  · exact same ▸ behind

/-! ## What a line does -/

theorem mem_record (lines : List LineFact) (fact : LineFact) : fact ∈ record lines fact := by
  unfold record
  cases inserted : insertLine? fact lines with
  | some more => exact (mem_insertLine? inserted fact).2 (.inl rfl)
  | none =>
    induction lines with
    | nil => cases inserted
    | cons first rest ih =>
      unfold insertLine? at inserted
      split at inserted
      · cases inserted
      · split at inserted
        · rename_i same
          exact same ▸ List.mem_cons_self
        · exact List.mem_cons_of_mem _ (ih (Option.map_eq_none_iff.1 inserted))

theorem get?_addLine_of_ne (apart : t.nearest? address ≠ some other) (source : SourceId)
    (line : UInt64) : (t.addLine source line address).2.get? other = t.get? other := by
  rcases t.addLine_cases source line address with same | ⟨id, f, lines, nearest, -, -, -, eq⟩
  · rw [same]
  · rw [eq]
    refine get?_update_of_ne t _ fun here => apart ?_
    rw [here, nearest]

theorem addresses_addLine (t : Table) (source : SourceId) (line address : UInt64) :
    (t.addLine source line address).2.addresses = t.addresses := by
  rcases t.addLine_cases source line address with same | ⟨id, f, lines, -, -, -, -, eq⟩
  · rw [same]
  · rw [eq]
    rfl

end Table
end Symbol

namespace Line

variable {h : Header} {base : UInt64} {i : Instruction} {instructions : List Instruction}
  {before : List Row} {r e : Row}

/-! ## Sequences -/

namespace Row

/-- The registers behind some instructions. -/
def registers (h : Header) (base : UInt64) (instructions : List Instruction) : Row :=
  (instructions.foldl (Machine.step h base) (.start h)).registers

/-- The instructions emit some rows, then one more, and the next one ends the sequence of that. -/
inductive Closes (h : Header) (base : UInt64) :
    List Instruction → List Row → Row → Row → Prop
  | mk {front between back : List Instruction} {i : Instruction} (emits : i.emits)
      (on : i ≠ .endSequence) (silent : ∀ j ∈ between, j.emits = false) :
      Closes h base (front ++ i :: (between ++ .endSequence :: back))
        (ofInstructions h base front) (registers h base (front ++ [i]))
        (registers h base (front ++ i :: between))

theorem rows_foldl_step (h : Header) (base : UInt64) (m : Machine)
    (instructions : List Instruction) :
    ∃ later, (instructions.foldl (Machine.step h base) m).rows = later ++ m.rows :=
  ⟨_, congrArg Machine.rows (foldl_step h base m.rows m.registers m.marks instructions)⟩

theorem rows_foldl_silent (h : Header) (base : UInt64) (m : Machine)
    {between : List Instruction} (silent : ∀ j ∈ between, j.emits = false) :
    (between.foldl (Machine.step h base) m).rows = m.rows := by
  induction between generalizing m with
  | nil => rfl
  | cons j rest ih =>
    have quiet := silent j List.mem_cons_self
    rw [List.foldl_cons, ih _ fun k mem => silent k (List.mem_cons_of_mem j mem), Machine.step,
      quiet]
    rfl

theorem Closes.rows (closes : Closes h base instructions before r e) :
    ∃ after, ofInstructions h base instructions = before ++ r :: e :: after := by
  obtain @⟨front, between, back, i, emits, on, silent⟩ := closes
  unfold ofInstructions registers
  simp only [List.foldl_append, List.foldl_cons, List.foldl_nil]
  generalize front.foldl (Machine.step h base) (.start h) = m
  have quiet := rows_foldl_silent h base (m.step h base i) silent
  generalize between.foldl (Machine.step h base) (m.step h base i) = n at quiet
  obtain ⟨later, eq⟩ := rows_foldl_step h base (n.step h base .endSequence) back
  have emitted : (m.step h base i).rows = (m.step h base i).registers :: m.rows := by
    simp [Machine.step, emits, on]
  have last : (n.step h base .endSequence).rows = n.registers :: n.rows := rfl
  exact ⟨later.reverse, by rw [eq, last, quiet, emitted]; simp⟩

end Row

/-! ## Programs -/

variable {s : Section} {t : Symbol.Table} {id : SymbolId} {f : Symbol.Function}
  {sources : Array SourceId} {directories : Array String} {files : List File} {rows : List Row}

theorem apply_concat (directories : Array String) (files : List File) (rows : List Row) (e : Row)
    (t : Symbol.Table) :
    apply directories files (rows ++ [e]) t =
      attach (internFiles directories files t).1 (apply directories files rows t) e := by
  unfold apply
  dsimp only
  rw [List.foldl_append]
  rfl

theorem addresses_apply (directories : Array String) (files : List File) (rows : List Row)
    (t : Symbol.Table) : (apply directories files rows t).2.addresses = t.addresses := by
  have named : (internFiles directories files t).2.addresses = t.addresses := by
    obtain ⟨sources, eq⟩ := exists_interned directories files t
    rw [eq]
  refine List.foldlRecOn (motive := fun r : Nat × Symbol.Table => r.2.addresses = t.addresses) rows
    _ named ?_
  rintro ⟨n, u⟩ same row _
  rcases attach_cases (internFiles directories files t).1 n u row with eq | ⟨source, -, eq⟩
  · exact (congrArg Symbol.Table.addresses eq).trans same
  · have kept := u.addresses_addLine source row.line row.address
    exact (congrArg Symbol.Table.addresses eq).trans (kept.trans same)

/-- A row changes no symbol but the one that is nearest to it. -/
theorem nearest?_of_attach {n : Nat} {u : Symbol.Table}
    (changed : (attach sources (n, u) e).2.get? id ≠ u.get? id) :
    u.nearest? e.address = some id := by
  by_contra apart
  refine changed ?_
  rcases attach_cases sources n u e with same | ⟨source, -, added⟩
  · rw [same]
  · rw [added]
    exact Symbol.Table.get?_addLine_of_ne apart source e.line

theorem mem_lines_of_attach {n : Nat} {u : Symbol.Table} {source : SourceId}
    (found : sourceOf? sources e.file = some source) (nearest : u.nearest? e.address = some id)
    (there : u.get? id = some (.function f)) (covers : f.covers e.address = true) :
    ∃ g, (attach sources (n, u) e).2.get? id = some (.function g) ∧
      ⟨source, e.line, e.address - f.address⟩ ∈ g.lines := by
  obtain ⟨g, became, attached⟩ := Symbol.Table.get?_addLine there source e.line e.address
  rw [Symbol.Table.recorded?, if_pos ⟨nearest, covers⟩] at attached
  rw [attach_of_source found]
  refine ⟨g, became, ?_⟩
  rw [attached.lines]
  exact Symbol.Table.mem_record _ _

/-- The address behind a function belongs to it. -/
theorem covers_end {address : UInt64}
    (ends : address.toNat = f.address.toNat + f.length.toNat) :
    f.covers address = true ∧ address - f.address = f.length := by
  have le : f.address ≤ address := UInt64.le_iff_toNat_le.2 (by omega)
  have offset : address - f.address = f.length := by
    apply UInt64.toNat.inj
    rw [UInt64.toNat_sub_of_le _ _ le]
    omega
  exact ⟨decide_eq_true ⟨le, UInt64.le_of_eq offset⟩, offset⟩

/-- What a function covers lies before its end. -/
theorem le_end {address last : UInt64} (covers : f.covers address)
    (ends : last.toNat = f.address.toNat + f.length.toNat) :
    f.address ≤ address ∧ address ≤ last := by
  obtain ⟨le, within⟩ : f.address ≤ address ∧ address - f.address ≤ f.length :=
    of_decide_eq_true covers
  refine ⟨le, UInt64.le_iff_toNat_le.2 ?_⟩
  rw [UInt64.le_iff_toNat_le, UInt64.toNat_sub_of_le _ _ le] at within
  rw [UInt64.le_iff_toNat_le] at le
  omega

/-- A row at the end of a function closes its sequence, and the row before it lies in the function.
If no symbol starts between the two, the function has the line then, provided that there is the
file, and no other symbol is changed.  Else the function is not changed, and no symbol is but for
one that starts there. -/
theorem run_of_closes {offset stop : Nat} {included : List String} {addressSize : UInt8}
    (prologue : (readPrologue s).run offset = .ok ((h, included, files), stop))
    (closes : Row.Closes h base (Instruction.collect (h.section s) h addressSize h.program).1
      before r e)
    (operations : List Symbol.Table.Operation) :
    let t := ({} : Symbol.Table).after operations
    t.nearest? r.address = some id → t.get? id = some (.function f) → f.covers r.address →
    e.address.toNat = f.address.toNat + f.length.toNat → ∀ compDir : Option String,
    let directories := directoriesOf compDir included
    let sources := (internFiles directories files t).1
    let u := (apply directories files (before ++ [r]) t).2
    let u' := (apply directories files (before ++ [r, e]) t).2
    (∃ after, (run s offset compDir addressSize base t).2 =
      (apply directories files (before ++ r :: e :: after) t).2) ∧
    (t.Free r.address e.address →
      (∀ source, sourceOf? sources e.file = some source → ∃ g,
        u'.get? id = some (.function g) ∧ ⟨source, e.line, f.length⟩ ∈ g.lines) ∧
      ∀ other ≠ id, u'.get? other = u.get? other) ∧
    (¬t.Free r.address e.address →
      u'.get? id = u.get? id ∧ ∀ other, u'.get? other ≠ u.get? other →
        ∃ start, t.address? other = some start ∧ r.address < start ∧ start ≤ e.address) := by
  intro t nearest there covers ends compDir directories sources u u'
  have indexed : t.Indexed := Symbol.Table.Indexed.empty.after operations
  obtain ⟨le, forward⟩ := le_end covers ends
  -- Until the last row the function has been given lines at most, and nothing has moved.
  have asked (address : UInt64) : u.nearest? address = t.nearest? address := by
    rw [Symbol.Table.nearest?, addresses_apply, Symbol.Table.nearest?]
  obtain ⟨_, there', gains⟩ := (gains_apply directories files (before ++ [r]) t).symbols id _ there
  obtain ⟨lines, rfl⟩ := gains.function
  have last : u' = (attach sources (apply directories files (before ++ [r]) t) e).2 := by
    rw [← apply_concat, List.append_assoc]
    rfl
  have changed {other : SymbolId} (differs : u'.get? other ≠ u.get? other) :
      t.nearest? e.address = some other := by
    rw [last] at differs
    rw [← asked]
    exact nearest?_of_attach differs
  refine ⟨?_, fun free => ⟨fun source found => ?_, fun other apart => ?_⟩, fun taken => ?_⟩
  · obtain ⟨after, rows⟩ := closes.rows
    refine ⟨after, ?_⟩
    rw [run_of_prologue prologue, ← rows]
    rfl
  · have onto := indexed.nearest?_of_free free forward nearest
    obtain ⟨covers, offset⟩ := covers_end (f := { f with lines }) ends
    rw [← offset, last]
    exact mem_lines_of_attach found ((asked _).trans onto) there' covers
  · by_contra differs
    have onto := indexed.nearest?_of_free free forward nearest
    exact apart (Option.some.inj ((changed differs).symm.trans onto))
  · have behind {other : SymbolId} (differs : u'.get? other ≠ u.get? other) :=
      indexed.start_of_not_free taken (changed differs)
    refine ⟨?_, fun other differs => behind differs⟩
    by_contra differs
    obtain ⟨start, starts, later, -⟩ := behind differs
    rw [Symbol.Table.address?, there] at starts
    cases starts
    exact UInt64.not_le.2 later le

namespace Adjacent

open Compressed (header bytes)

/-- A function that ends where the sequence does. -/
def closed : Symbol.Function :=
  { name := "f", compiland := none, address := 16, length := 18, signature := ⟨0⟩ }

def alone : List Symbol.Table.Operation :=
  [.newFunction "f" none 16 18 ⟨0⟩]

/-- Another function begins there. -/
def followed : List Symbol.Table.Operation :=
  [.newFunction "f" none 16 18 ⟨0⟩, .newFunction "g" none 34 16 ⟨0⟩]

theorem closes : Row.Closes header 0
    (Instruction.collect (header.section ⟨.lines, .little, bytes⟩) header 4 33).1
    [] ⟨17, 1, 4⟩ ⟨34, 1, 4⟩ := by
  rw [Compressed.instructions_eq]
  exact @Row.Closes.mk header 0 [.setAddress 16] [.constAddPc] [] (.special 32) rfl nofun
    (by decide)

theorem free : (({} : Symbol.Table).after alone).Free 17 34 := by
  intro id start there behind before
  have mem := (Symbol.Table.Indexed.empty.after alone ⟨start, id⟩).2 there
  have placed : (({} : Symbol.Table).after alone).addresses.placed = [⟨16, ⟨0⟩⟩] := rfl
  rw [placed, List.mem_singleton] at mem
  cases mem
  exact absurd behind (by decide)

end Adjacent

/-- The function has the row at its end. -/
theorem closing_row_lands :
    let t := ({} : Symbol.Table).after Adjacent.alone
    t.nearest? 17 = some ⟨0⟩ ∧ t.get? ⟨0⟩ = some (.function Adjacent.closed) ∧ t.Free 17 34 ∧
      ∃ g, (apply #["."] [⟨"a.c", 0⟩] [⟨17, 1, 4⟩, ⟨34, 1, 4⟩] t).2.get? ⟨0⟩ =
        some (.function g) ∧ ⟨⟨0⟩, 4, 18⟩ ∈ g.lines := by
  intro t
  have nearest : t.nearest? 17 = some ⟨0⟩ := rfl
  have there : t.get? ⟨0⟩ = some (.function Adjacent.closed) := rfl
  have found : sourceOf? (internFiles #["."] [⟨"a.c", 0⟩] t).1 1 = some ⟨0⟩ := rfl
  obtain ⟨-, lands, -⟩ := run_of_closes Compressed.prologue Adjacent.closes Adjacent.alone nearest
    there (by decide) (by decide) none
  exact ⟨nearest, there, Adjacent.free, (lands Adjacent.free).1 ⟨0⟩ found⟩

/-- It has not when another function starts there: that one has it. -/
theorem closing_row_lost :
    let t := ({} : Symbol.Table).after Adjacent.followed
    let t' := (run ⟨.lines, .little, Compressed.bytes⟩ 0 none 4 0 t).2
    Row.Closes Compressed.header 0 (Instruction.collect
      (Compressed.header.section ⟨.lines, .little, Compressed.bytes⟩) Compressed.header 4 33).1
      [] ⟨17, 1, 4⟩ ⟨34, 1, 4⟩ ∧
    t.nearest? 17 = some ⟨0⟩ ∧ t.get? ⟨0⟩ = some (.function Adjacent.closed) ∧
    Adjacent.closed.covers 17 ∧
    (34 : UInt64).toNat = Adjacent.closed.address.toNat + Adjacent.closed.length.toNat ∧
    (t'.function? ⟨0⟩).map Symbol.Function.lines = some [⟨⟨0⟩, 4, 1⟩] ∧
    (t'.function? ⟨1⟩).map Symbol.Function.lines = some [⟨⟨0⟩, 4, 0⟩] := by
  intro t t'
  have nearest : t.nearest? 17 = some ⟨0⟩ := rfl
  have there : t.get? ⟨0⟩ = some (.function Adjacent.closed) := rfl
  have attached : t' = (apply #["."] [⟨"a.c", 0⟩] [⟨17, 1, 4⟩, ⟨34, 1, 4⟩] t).2 := by
    change (run _ 0 none 4 0 t).2 = _
    rw [run_of_prologue Compressed.prologue]
    dsimp only
    rw [show Compressed.header.program = 33 from rfl, Compressed.instructions_eq]
    rfl
  have lost : (t'.function? ⟨0⟩).map Symbol.Function.lines = some [⟨⟨0⟩, 4, 1⟩] ∧
      (t'.function? ⟨1⟩).map Symbol.Function.lines = some [⟨⟨0⟩, 4, 0⟩] := by
    rw [attached]
    decide +kernel
  exact ⟨Adjacent.closes, nearest, there, by decide, by decide, lost⟩

end Line
end Dwarf2
