import SqlCompose.Backend
import SqlCompose.Proofs.Query.Tail
import SqlCompose.Proofs.Query.Window

/-!
# The first output of a query

The first output of a query is asked for with a statement of its own, which differs from the
statement of the query in the limit alone. A database that keeps the rows that a tail asks for then
gives the first of the rows that it gives for the query. The limit of the query has no part in it: a
query that is limited to no row has a first output, too, the one that it has under any other limit.

## Main definitions

* `Backend.Windows`: a backend that evaluates a statement to rows, and keeps those that the bounds
  behind it ask for.
* `Backend.ofRows`: such a backend, for a statement and its rows.

## Main results

* `Query.load_result_eq_ok_iff`: what a query gives on such a backend.
* `Query.first_of_load`: the first output of a query is the first of its outputs.
-/

namespace SqlCompose

/-! ### Windows of one row -/

namespace Dialect

/-- One row can be asked for where any number of rows can. -/
theorem HasBounds.one {d : Dialect} {limit offset : Option UInt64} (h : d.HasBounds limit offset) :
    d.HasBounds (some 1) offset := by
  refine h.imp_right fun ⟨_, hoffset⟩ => ⟨?_, hoffset⟩
  rintro n ⟨⟩
  decide

/-- Only the limit to no row is written as one. -/
theorem kept_writtenBounds_ne (d : Dialect) {limit : Option UInt64} (h : limit ≠ some 0)
    (offset : Option UInt64) : (d.writtenBounds limit offset).window.kept ≠ some 0 := by
  obtain hkept | ⟨-, hkept⟩ := d.kept_writtenBounds limit offset
  · rw [hkept]
    cases limit with
    | none => exact nofun
    | some n =>
      intro hzero
      exact h (congrArg some (UInt64.toNat_inj.mp (Option.some.inj hzero)))
  · rw [hkept]
    decide

/-- The window of one row has the first row that the same window has under any limit, but for the
limit to no row. -/
theorem rows_writtenBounds_one {α : Type} (d : Dialect) {limit : Option UInt64}
    (h : limit ≠ some 0) (offset : Option UInt64) (rows : List α) :
    (d.writtenBounds (some 1) offset).window.rows rows =
      ((d.writtenBounds limit offset).window.rows rows).take 1 := by
  have hskipped : (d.writtenBounds (some 1) offset).window.skipped =
      (d.writtenBounds limit offset).window.skipped := by
    rw [skipped_writtenBounds, skipped_writtenBounds]
    rfl
  have hone : (d.writtenBounds (some 1) offset).window.kept = some 1 := rfl
  have hne := d.kept_writtenBounds_ne h offset
  rw [Window.rows, Window.rows, hskipped, hone]
  cases hkept : (d.writtenBounds limit offset).window.kept with
  | none => rfl
  | some n =>
    have hpos : 1 ≤ n := Nat.one_le_iff_ne_zero.mpr fun hzero => hne (hzero ▸ hkept)
    exact (List.take_take.trans (by rw [Nat.min_eq_left hpos])).symm

end Dialect

/-! ### Backends that keep windows -/

/-- The backend evaluates a statement to rows, or fails with it. With bounds behind the statement it
keeps the rows of their window, and it refuses bounds that its dialect does not accept. -/
structure Backend.Windows (b : Backend) (body : Compiled) (rows : Except Error (List Row)) :
    Prop where
  kept {limit offset : Option UInt64} {w : Window}
    (h : b.context.dialect.readWindow? (b.context.dialect.windowText limit offset) = some w) :
    b.answer (body.withTail (b.context.dialect.windowText limit offset)) = rows.map w.rows
  refused {limit offset : Option UInt64}
    (h : b.context.dialect.readWindow? (b.context.dialect.windowText limit offset) = none) :
    ∃ e, b.answer (body.withTail (b.context.dialect.windowText limit offset)) = .error e

/-- The tail that a statement has behind another, if it is the other with a tail. -/
def Compiled.tailBehind? (body c : Compiled) : Option (Option String) :=
  if c.bindings = body.bindings ∧ body.sql.toList <+: c.sql.toList then
    match c.sql.toList.drop body.sql.toList.length with
    | [] => some none
    | _ :: tail => some (some (String.ofList tail))
  else none

theorem Compiled.tailBehind?_withTail (body : Compiled) (tail : Option String) :
    body.tailBehind? (body.withTail tail) = some tail := by
  cases tail with
  | none => simp [tailBehind?, withTail]
  | some tail => simp [tailBehind?, withTail]

namespace Backend

/-- The backend that evaluates one statement, to rows, and refuses every other. -/
def ofRows (ctx : Context) (body : Compiled) (rows : List Row) : Backend where
  context := ctx
  answer c :=
    match (body.tailBehind? c).bind ctx.dialect.readWindow? with
    | some w => .ok (w.rows rows)
    | none => .error (.execution "refused")
  delay _ _ := 0

theorem windows_ofRows (ctx : Context) (body : Compiled) (rows : List Row) :
    (ofRows ctx body rows).Windows body (.ok rows) := by
  have hanswer (tail : Option String) : (ofRows ctx body rows).answer (body.withTail tail) =
      match (ofRows ctx body rows).context.dialect.readWindow? tail with
      | some w => .ok (w.rows rows)
      | none => .error (.execution "refused") := by
    simp only [ofRows, Compiled.tailBehind?_withTail, Option.bind_some]
  constructor
  · intro limit offset w h
    rw [hanswer, h]
    rfl
  · intro limit offset h
    rw [hanswer, h]
    exact ⟨_, rfl⟩

end Backend

/-! ### The first output -/

namespace Query

theorem materialize_take {q : Query} {rows : List Row} {outputs : List Output}
    (h : q.materialize rows = .ok outputs) (n : Nat) :
    q.materialize (rows.take n) = .ok (outputs.take n) :=
  mapM_eq_ok_iff_forall₂.mpr (List.forall₂_take n (mapM_eq_ok_iff_forall₂.mp h))

section Windows

variable {b : Backend} {q : Query} {body : Compiled} {rows : Except Error (List Row)}

theorem load_of_unbounded (h : q.unbounded.compile b.context = .ok body) :
    q.load b = ⟨[body.withTail (b.context.dialect.windowText q.limit q.offset)],
      (b.answer (body.withTail (b.context.dialect.windowText q.limit q.offset))).bind
        q.materialize⟩ := by
  rw [load, fetch, compile_eq_withTail, h]
  rfl

theorem load_of_unbounded_error {e : Error} (h : q.unbounded.compile b.context = .error e) :
    q.load b = ⟨[], .error e⟩ := by
  rw [load, fetch, compile_eq_withTail, h]
  rfl

/-- A query has outputs if the dialect has its bounds, its statement has rows, and those that the
bounds keep can be read. -/
theorem load_result_eq_ok_iff (h : q.unbounded.compile b.context = .ok body)
    (hb : b.Windows body rows) {outputs : List Output} :
    (q.load b).result = .ok outputs ↔ b.context.dialect.HasBounds q.limit q.offset ∧
      ∃ all, rows = .ok all ∧
        q.materialize ((b.context.dialect.writtenBounds q.limit q.offset).window.rows all) =
          .ok outputs := by
  have hread := b.context.dialect.readWindow?_windowText q.limit q.offset
  rw [load_of_unbounded h]
  by_cases hbounds : b.context.dialect.HasBounds q.limit q.offset
  · rw [if_pos (Dialect.accepts_writtenBounds.mpr hbounds)] at hread
    rw [hb.kept hread]
    cases rows with
    | error e => exact iff_of_false nofun fun ⟨_, _, hall, _⟩ => nomatch hall
    | ok all =>
      exact ⟨fun hread => ⟨hbounds, all, rfl, hread⟩, fun ⟨_, _, rfl, hread⟩ => hread⟩
  · obtain ⟨e, he⟩ := hb.refused (Dialect.readWindow?_of_not_hasBounds hbounds)
    rw [he]
    exact iff_of_false nofun fun hok => hbounds hok.1

/-- Under any limit but the one to no row, a query that has outputs has the first of them as its
first output. -/
theorem first_of_load_withLimit (h : q.unbounded.compile b.context = .ok body)
    (hb : b.Windows body rows) {limit : Option UInt64} (hlimit : limit ≠ some 0)
    {outputs : List Output} (houtputs : (({ q with limit } : Query).load b).result = .ok outputs) :
    (q.first b).result = .ok outputs.head? := by
  obtain ⟨hbounds, all, hall, hread⟩ :=
    (load_result_eq_ok_iff (q := { q with limit }) h hb).mp houtputs
  have hone : ((q.withLimit 1).load b).result = .ok (outputs.take 1) := by
    refine (load_result_eq_ok_iff (q := q.withLimit 1) h hb).mpr ⟨hbounds.one, all, hall, ?_⟩
    have htake := materialize_take hread 1
    rwa [← Dialect.rows_writtenBounds_one _ hlimit] at htake
  rw [first, Reply.andThen, hone]
  cases outputs <;> rfl

/-- A query that is limited to no row has no output. -/
theorem eq_nil_of_load (h : q.unbounded.compile b.context = .ok body) (hb : b.Windows body rows)
    (hlimit : q.limit = some 0) {outputs : List Output}
    (houtputs : (q.load b).result = .ok outputs) : outputs = [] := by
  obtain ⟨-, all, -, hread⟩ := (load_result_eq_ok_iff h hb).mp houtputs
  have hnone : (b.context.dialect.writtenBounds q.limit q.offset).window.rows all = [] := by
    rw [hlimit, Window.rows]
    exact List.take_zero
  rw [hnone] at hread
  exact (Except.ok.inj hread).symm

end Windows

/-- On a backend that evaluates the statement of a query and keeps the rows of its bounds, the first
output of the query is the first of its outputs, and there is none exactly if there is no output.
Either of them is asked for with one statement, and the two statements differ in the limit alone.
The one exception is a query that is limited to no row. It has no output, but its first output is
the one that it has under any other limit. -/
theorem first_of_load (b : Backend) (q : Query) (rows : Except Error (List Row))
    (hb : ∀ body, q.unbounded.compile b.context = .ok body → b.Windows body rows) :
    ((∃ e, q.load b = ⟨[], .error e⟩ ∧ q.first b = ⟨[], .error e⟩) ∨
      ∃ body, q.unbounded.compile b.context = .ok body ∧
        (q.load b).sent = [body.withTail (b.context.dialect.windowText q.limit q.offset)] ∧
        (q.first b).sent = [body.withTail (b.context.dialect.windowText (some 1) q.offset)]) ∧
    (q.limit ≠ some 0 → ∀ outputs, (q.load b).result = .ok outputs →
      (q.first b).result = .ok outputs.head? ∧
        ((q.first b).result = .ok none ↔ outputs = [])) ∧
    (q.limit = some 0 →
      (∀ outputs, (q.load b).result = .ok outputs → outputs = []) ∧
      ∀ limit outputs, limit ≠ some 0 →
        (({ q with limit } : Query).load b).result = .ok outputs →
          (q.first b).result = .ok outputs.head?) := by
  cases h : q.unbounded.compile b.context with
  | error e =>
    have hfirst : q.first b = ⟨[], .error e⟩ := by
      rw [first, load_of_unbounded_error (q := q.withLimit 1) h]
      rfl
    have hfails {limit : Option UInt64} {outputs : List Output} :
        (({ q with limit } : Query).load b).result ≠ .ok outputs := by
      rw [load_of_unbounded_error (q := { q with limit }) h]
      exact nofun
    exact ⟨.inl ⟨e, load_of_unbounded_error h, hfirst⟩, fun _ _ hok => absurd hok hfails,
      fun _ => ⟨fun _ hok => absurd hok hfails, fun _ _ _ hok => absurd hok hfails⟩⟩
  | ok body =>
    have hwindows := hb body h
    refine ⟨.inr ⟨body, rfl, ?_, ?_⟩, fun hlimit outputs houtputs => ?_, fun hlimit =>
      ⟨fun _ => eq_nil_of_load h hwindows hlimit,
        fun _ _ hne => first_of_load_withLimit h hwindows hne⟩⟩
    · rw [load_of_unbounded h]
    · rw [first, Reply.andThen, load_of_unbounded (q := q.withLimit 1) h]
      rfl
    · have hfirst := first_of_load_withLimit h hwindows hlimit houtputs
      refine ⟨hfirst, ?_⟩
      rw [hfirst, Except.ok.injEq, List.head?_eq_none_iff]

/-- Three rows, of which a query skips the first and has the other two as outputs. -/
theorem first_of_load_offset :
    let m : Model := ⟨"M", "m", [⟨"n", .int .int64, "n", rfl⟩], by simp⟩
    let q := ((ofTable (.ofModel m)).select [.expr (.column ⟨"m", "n", "n"⟩)]).withOffset 1
    let body : Compiled := ⟨"SELECT \"m\".\"n\" FROM \"m\"", []⟩
    let b := Backend.ofRows (.ofDialect .sqlite) body [[.integer 1], [.integer 2], [.integer 3]]
    q.unbounded.compile b.context = .ok body ∧ q.limit ≠ some 0 ∧
      (q.load b).sent = [body.withTail (some "LIMIT -1 OFFSET 1")] ∧
      (q.load b).result = .ok [.value (.integer 2), .value (.integer 3)] ∧
      (q.first b).sent = [body.withTail (some "LIMIT 1 OFFSET 1")] ∧
      (q.first b).result = .ok (some (.value (.integer 2))) := by
  intro m q body b
  have hcompile : q.unbounded.compile b.context = .ok body := congrArg Except.ok (by decide)
  have hwindows : b.Windows body (.ok [[.integer 1], [.integer 2], [.integer 3]]) :=
    Backend.windows_ofRows _ _ _
  have hbounds : Dialect.sqlite.HasBounds none (some 1) :=
    .inr ⟨nofun, fun _ => by rintro ⟨⟩; decide⟩
  have hload : (q.load b).result = .ok [.value (.integer 2), .value (.integer 3)] :=
    (load_result_eq_ok_iff hcompile hwindows).mpr ⟨hbounds, _, rfl, rfl⟩
  obtain ⟨hsent, hfirst, -⟩ := first_of_load b q _ fun _ h => by
    cases hcompile.symm.trans h
    exact hwindows
  obtain ⟨e, he, -⟩ | ⟨_, h, hsent, hsent'⟩ := hsent
  · rw [he] at hload
    cases hload
  · cases hcompile.symm.trans h
    exact ⟨hcompile, nofun, hsent, hload, hsent', (hfirst nofun _ hload).1⟩

/-- One row, and a query that is limited to none. It has no output, and a first output. -/
theorem not_first_of_load_zero :
    let m : Model := ⟨"M", "m", [⟨"n", .int .int64, "n", rfl⟩], by simp⟩
    let q := ((ofTable (.ofModel m)).select [.expr (.column ⟨"m", "n", "n"⟩)]).withLimit 0
    let body : Compiled := ⟨"SELECT \"m\".\"n\" FROM \"m\"", []⟩
    let b := Backend.ofRows (.ofDialect .sqlite) body [[.integer 1]]
    (∀ body, q.unbounded.compile b.context = .ok body → b.Windows body (.ok [[.integer 1]])) ∧
      (q.load b).result = .ok [] ∧ (q.first b).result = .ok (some (.value (.integer 1))) := by
  intro m q body b
  have hcompile : q.unbounded.compile b.context = .ok body := congrArg Except.ok (by decide)
  have hwindows : b.Windows body (.ok [[.integer 1]]) := Backend.windows_ofRows _ _ _
  have hbounds (n : UInt64) (hn : n.toNat < 2 ^ 63) : Dialect.sqlite.HasBounds (some n) none :=
    .inr ⟨fun _ => by rintro ⟨⟩; exact hn, nofun⟩
  have hload : (q.load b).result = .ok [] :=
    (load_result_eq_ok_iff hcompile hwindows).mpr ⟨hbounds 0 (by decide), _, rfl, rfl⟩
  have hone : ((q.withLimit 1).load b).result = .ok [.value (.integer 1)] :=
    (load_result_eq_ok_iff (q := q.withLimit 1) hcompile hwindows).mpr
      ⟨hbounds 1 (by decide), _, rfl, rfl⟩
  refine ⟨fun _ h => ?_, hload, ?_⟩
  · cases hcompile.symm.trans h
    exact hwindows
  · rw [first, Reply.andThen, hone]
    rfl

end Query

end SqlCompose
