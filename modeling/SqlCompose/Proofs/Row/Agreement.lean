import SqlCompose.Proofs.Query.Texts
import SqlCompose.Proofs.Row.Failures

/-!
# Select lists and rows agree

A compiled query has as many entries in its select list as its rows have to have cells. A row passes
the comparison of widths exactly if it has that many, and from there on only a cell that its field
does not take can fail. The entries that are compared are those that are found in the text.

## Main results

* `Query.materialize_rowWidth_iff`: the rows that fail by their width.
* `Query.compile_places`: the entries that are written are in step with the cells and the items of
  every row that is read back.
-/

namespace SqlCompose

namespace Query

variable {q : Query} {row : Row}

theorem totalWidth_slots (q : Query) :
    Slot.totalWidth q.slots = (Part.written q.parts).length := by
  rw [slots_eq_parts, totalWidth_parts]

/-- A single row fails as it does among others. -/
theorem materialize_singleton_error_iff {e : Error} :
    q.materialize [row] = .error e ↔ q.Fails row e := by
  rw [materialize_eq_error_iff]
  constructor
  · rintro ⟨before, row', after, hrows, -, hfails⟩
    obtain ⟨rfl, hrow⟩ | ⟨-, hafter⟩ := List.singleton_eq_append_iff.mp hrows
    · cases hrow
      exact hfails
    · cases hafter
  · intro h
    exact ⟨[], row, [], rfl, nofun, h⟩

/-- A row fails by its width exactly if it has more or fewer cells than entries are written. -/
theorem materialize_rowWidth_iff {found expected : Nat} :
    q.materialize [row] = .error (.mapping (.rowWidth found expected)) ↔
      row.length ≠ (Part.written q.parts).length ∧ found = row.length ∧
        expected = (Part.written q.parts).length := by
  rw [materialize_singleton_error_iff, ← totalWidth_slots]
  constructor
  · intro h
    cases h with
    | width h => exact ⟨h, rfl, rfl⟩
    | cell hlen hcells hbefore he =>
      -- what a conversion fails by is never a width
      obtain ⟨target, hcause⟩ | ⟨n, type, hcause⟩ := ScalarType.cause_of_convert he <;> cases hcause
  · rintro ⟨h, rfl, rfl⟩
    exact .width h

/-- A row with as many cells as entries are written is read, or it has a cell that its field does
not take. -/
theorem materialize_of_length_eq (h : row.length = (Part.written q.parts).length) :
    (∃ o, q.materialize [row] = .ok [o]) ∨ ∃ f v e, (some f, v) ∈ q.cells row ∧
      f.type.convert v = .error e ∧ q.materialize [row] = .error e := by
  cases hrow : q.readRow row with
  | ok o => exact Or.inl ⟨o, materialize_singleton_iff.mpr hrow⟩
  | error e =>
    have hfails := readRow_eq_error_iff.mp hrow
    have hfailed := materialize_singleton_error_iff.mpr hfails
    obtain hlen | ⟨-, hcells, -, he⟩ := hfails
    · exact absurd (h.trans q.totalWidth_slots.symm) hlen
    · refine Or.inr ⟨_, _, e, ?_, he, hfailed⟩
      rw [hcells]
      exact List.mem_append_right _ List.mem_cons_self

/-- The entries of the select list of a compiled query are as many as a row has to have cells: by
its width a row fails exactly if it has another number of them, and otherwise it is read or a cell
is not taken by its field. The entries, the cells and the items of every row that is read back are
in step along the parts of the select list. Where names stand between marks, the entries are those
that are found in the text. -/
theorem compile_places (q : Query) (ctx : Context) {c : Compiled} (h : q.compile ctx = .ok c) :
    ∃ entries : List (List Token),
      (∃ s, q.statement = .ok s ∧ c = Token.render ctx (s.tokens ctx.dialect) ∧
        Token.selectEntries (s.tokens ctx.dialect) = entries) ∧
      (∀ mark, ctx.quoting.mark? = some mark → c.listIn mark [.SELECT] = some entries) ∧
      (∀ row found expected,
        q.materialize [row] = .error (.mapping (.rowWidth found expected)) ↔
          row.length ≠ entries.length ∧ found = row.length ∧ expected = entries.length) ∧
      (∀ row, row.length = entries.length →
        (∃ o, q.materialize [row] = .ok [o]) ∨ ∃ f v e, (some f, v) ∈ q.cells row ∧
          f.type.convert v = .error e ∧ q.materialize [row] = .error e) ∧
      ∀ rows outputs, q.materialize rows = .ok outputs → outputs.length = rows.length ∧
        ∀ (i : Nat) row o, rows[i]? = some row → outputs[i]? = some o →
          ∃ items, o = Output.ofItems items ∧ Places q.parts entries row items := by
  obtain ⟨s, hs, rfl⟩ := exists_statement h
  obtain ⟨hi, -⟩ := statement_eq_ok_iff.mp hs
  have hentries : s.items.map OutputItem.tokens = Part.written q.parts := by
    rw [items_eq_parts hi, Part.written]
  refine ⟨Part.written q.parts, ⟨s, hs, rfl, ?_⟩, fun mark hmark => ?_,
    fun row found expected => materialize_rowWidth_iff,
    fun row hrow => materialize_of_length_eq hrow, fun rows outputs hread => ?_⟩
  · rw [Statement.selectEntries_tokens, hentries]
  · rw [(legible_of_statement hs).listIn_select hmark, hentries]
  · obtain ⟨hlen, hrows⟩ := readRow_of_materialize hread
    exact ⟨hlen, fun i row o hrow ho => places_readRow (hrows i row o hrow ho)⟩

/-- A table without columns between two others in a tree of joins, behind a computed entry, and two
rows, one of them too narrow. -/
theorem compile_places_nested :
    let field (name : String) : Field := ⟨name, .int .int64, name, rfl⟩
    let a : Model := ⟨"a", "a", [field "x", field "y"], by decide⟩
    let b : Model := ⟨"b", "b", [], by decide⟩
    let c : Model := ⟨"c", "c", [field "z"], by decide⟩
    let on (name left : String) (m : Model) := Join.on name left (.ofModel m) fun _ _ =>
      .ok (.literal (.bool true))
    let tree := ((on "b" "a" b).innerJoin (on "c" "b" c)).rebase "a"
    let q := ((ofTable (.ofModel a)).innerJoin tree).select
      [.aliased (.literal (.text "?")) "n", .columns (.ofModel a), .join tree]
    let compiled : Compiled := ⟨"SELECT ? AS \"n\", \"a\".\"x\", \"a\".\"y\", \"a_b_c\".\"z\"" ++
      " FROM \"a\" INNER JOIN \"b\" AS \"a_b\" ON ? INNER JOIN \"c\" AS \"a_b_c\" ON ?",
      [.text "?", .bool true, .bool true]⟩
    let entries : List (List Token) := [[.bound (.text "?"), .keyword .AS, .name "n"],
      [.name "a", .dot, .name "x"], [.name "a", .dot, .name "y"], [.name "a_b_c", .dot, .name "z"]]
    let row : Row := [.integer 0, .integer 1, .integer 2, .integer 3]
    let output : Output := .tuple [.value (.integer 0), .record ⟨a, [.int 1, .int 2], rfl⟩,
      .record ⟨b, [], rfl⟩, .record ⟨c, [.int 3], rfl⟩]
    q.compile (.ofDialect .sqlite) = .ok compiled ∧
      compiled.listIn '"' [.SELECT] = some entries ∧
      q.materialize [row] = .ok [output] ∧
      (∃ items, output = Output.ofItems items ∧ Places q.parts entries row items) ∧
      q.materialize [[.null]] = .error (.mapping (.rowWidth 1 4)) := by
  intro field a b c on tree q compiled entries row output
  have hcompile : q.compile (.ofDialect .sqlite) = .ok compiled :=
    congrArg Except.ok (show _ = compiled by decide +kernel)
  have hrow : q.materialize [row] = .ok [output] := rfl
  obtain ⟨found, ⟨s, hs, -, hfound⟩, hread, hwidth, -, hplaces⟩ :=
    compile_places q (.ofDialect .sqlite) hcompile
  have hstatement : ∃ s, q.statement = .ok s ∧
      Token.selectEntries (s.tokens .sqlite) = entries := ⟨_, rfl, by decide +kernel⟩
  obtain ⟨s', hs', hentries⟩ := hstatement
  cases hs.symm.trans hs'
  obtain rfl : entries = found := hentries.symm.trans hfound
  obtain ⟨-, hplaces⟩ := hplaces _ _ hrow
  exact ⟨hcompile, hread '"' rfl, hrow, hplaces 0 row output rfl rfl,
    (hwidth [.null] 1 4).mpr ⟨by decide, rfl, rfl⟩⟩

end Query

end SqlCompose
