import Mathlib.Algebra.Group.Nat.Defs
import SqlCompose.Proofs.Query.Sentences
import SqlCompose.Proofs.Value.Integers

/-!
# The rows that bounds keep

A tail is read by the rules of its dialect: it holds a limit, an offset or both, in this order, and
every dialect has its own range of numbers, and its own way to do without a limit. The tail that is
written for a limit and an offset keeps the rows that these ask for, as long as the dialect has both
numbers. The range of bounds is the one of 64 bits without a sign, and two of the dialects have no
number past the greatest with a sign; they refuse such a tail.

## Main definitions

* `Window`, `Window.requested`: a run of rows, and the one that a limit and an offset ask for.
* `Bounds.ofText?`: the numbers in a tail.
* `Dialect.accepts`, `Dialect.readWindow?`: the bounds that a dialect accepts, and the window that
  it reads in a tail.
* `Dialect.KeepsRequested`: the written tail keeps what is asked for, whatever the rows.

## Main results

* `Dialect.readWindow?_windowText`: what a dialect reads in the tail that is written for it.
* `Dialect.keepsRequested_iff`: when the written tail keeps what is asked for.
-/

namespace SqlCompose

/-! ### Windows -/

/-- A run of rows: of those behind the first `skipped`, the first `kept`, or all of them. -/
structure Window where
  skipped : Nat
  kept : Option Nat
  deriving DecidableEq, Repr

namespace Window

/-- The rows of the window. -/
def rows {α : Type} (w : Window) (rows : List α) : List α :=
  match w.kept with
  | none => rows.drop w.skipped
  | some n => (rows.drop w.skipped).take n

/-- The window that a limit and an offset ask for. -/
def requested (limit offset : Option UInt64) : Window :=
  ⟨(offset.map UInt64.toNat).getD 0, limit.map UInt64.toNat⟩

end Window

/-! ### Reading a tail -/

/-- The numbers that a tail holds, behind `LIMIT` and behind `OFFSET`. -/
structure Bounds where
  limit : Option Int
  offset : Option Int
  deriving DecidableEq, Repr

namespace Bounds

/-- Reads the number behind a reserved word off the front, if the word stands there. -/
def readClause (word : Keyword) : List Lexeme → Option (Option Int × List Lexeme)
  | .token (.keyword k) :: ls =>
    if k = word then
      match ls with
      | .token (.number n) :: ls => some (some n, ls)
      | .token (.sign .minus) :: .token (.number n) :: ls => some (some (-n), ls)
      | _ => none
    else some (none, .token (.keyword k) :: ls)
  | ls => some (none, ls)

/-- Reads a limit and an offset, each of which may be absent, and nothing else. -/
def ofLexemes? (ls : List Lexeme) : Option Bounds := do
  let (limit, ls) ← readClause .LIMIT ls
  let (offset, ls) ← readClause .OFFSET ls
  if ls.isEmpty then some ⟨limit, offset⟩ else none

/-- Reads the text of a tail. -/
def ofText? (mark : Char) (tail : String) : Option Bounds := do
  let ls ← Lexeme.lex mark tail.toList
  ofLexemes? ls

/-- The window of bounds that are accepted. A negative limit is none at all. -/
def window (b : Bounds) : Window :=
  ⟨(b.offset.getD 0).toNat, b.limit.bind fun n => if n < 0 then none else some n.toNat⟩

end Bounds

namespace Dialect

/-- The type of the numbers that a dialect has. -/
def numbers : Dialect → IntType
  | sqlite | postgresql => .int64
  | mysql => .uint64

/-- Whether a dialect takes a number as a bound. Negative bounds are known to one dialect only. -/
def takes (d : Dialect) (n : Int) : Bool := d.numbers.holds n && (d = sqlite || 0 ≤ n)

/-- Whether a dialect accepts bounds. Only one knows an offset without a limit. -/
def accepts (d : Dialect) (b : Bounds) : Bool :=
  b.limit.all d.takes && b.offset.all d.takes &&
    (d = postgresql || b.limit.isSome || b.offset.isNone)

/-- The window that a dialect reads in a tail, if it accepts the tail. All rows are kept where there
is no tail. -/
def readWindow? (d : Dialect) : Option String → Option Window
  | none => some ⟨0, none⟩
  | some tail => do
    let mark ← d.defaultQuoting.mark?
    let b ← Bounds.ofText? mark tail
    if d.accepts b then some b.window else none

/-- The tail that is written for a limit and an offset is accepted and keeps the rows that they ask
for. -/
def KeepsRequested (d : Dialect) (limit offset : Option UInt64) : Prop :=
  ∀ (α : Type) (rows : List α), rows.length < 2 ^ 64 →
    (d.readWindow? (d.windowText limit offset)).map (·.rows rows) =
      some ((Window.requested limit offset).rows rows)

/-! ### What is read in a written tail -/

/-- The numbers that a dialect writes for a limit and an offset. -/
def writtenBounds (d : Dialect) (limit offset : Option UInt64) : Bounds :=
  ⟨d.writtenLimit limit offset, offset.map fun k => (k.toNat : Int)⟩

theorem readWindow?_textOf {d : Dialect} {ts : List Token} {b : Bounds}
    (h : Bounds.ofLexemes? (Token.lexemesFrom d 1 ts) = some b) :
    d.readWindow? (some (Token.textOf (.ofDialect d) ts)) =
      if d.accepts b then some b.window else none := by
  obtain ⟨mark, hmark⟩ : ∃ mark, d.defaultQuoting.mark? = some mark := by
    cases d <;> exact ⟨_, rfl⟩
  have hlex : Lexeme.lex mark (Token.textOf (.ofDialect d) ts).toList =
      some (Token.lexemesFrom d 1 ts) := Lexeme.lex_textOf hmark ts
  have hbounds : Bounds.ofText? mark (Token.textOf (.ofDialect d) ts) = some b := by
    rw [Bounds.ofText?, hlex]
    exact h
  rw [readWindow?, hmark, Option.bind_eq_bind, Option.bind_some, hbounds]
  rfl

/-- The numbers in the written tail are those that the dialect writes. -/
theorem readWindow?_windowText (d : Dialect) (limit offset : Option UInt64) :
    d.readWindow? (d.windowText limit offset) =
      if d.accepts (d.writtenBounds limit offset) then
        some (d.writtenBounds limit offset).window else none := by
  cases limit with
  | some n => cases offset <;> exact readWindow?_textOf rfl
  | none =>
    cases offset with
    | some k => cases d <;> exact readWindow?_textOf rfl
    | none => cases d <;> rfl

/-- The dialect has the numbers of a limit and an offset. -/
def HasBounds (d : Dialect) (limit offset : Option UInt64) : Prop :=
  d = mysql ∨ (∀ n ∈ limit, n.toNat < 2 ^ 63) ∧ ∀ k ∈ offset, k.toNat < 2 ^ 63

/-- A bound is a number with a sign if it is less than half of the range. -/
theorem represents_int64_toNat (n : UInt64) :
    IntType.int64.Represents n.toNat ↔ n.toNat < 2 ^ 63 := by
  refine (IntType.exists_toInt_iff (by decide)).trans ⟨fun h => ?_, fun h => ⟨?_, ?_⟩⟩
  · exact_mod_cast h.2
  · exact Int.le_trans (by decide) (Int.natCast_nonneg n.toNat)
  · exact_mod_cast h

theorem takes_toNat (d : Dialect) (n : UInt64) :
    d.takes n.toNat = true ↔ d = mysql ∨ n.toNat < 2 ^ 63 := by
  have hnonneg : (0 : Int) ≤ n.toNat := Int.natCast_nonneg _
  rw [takes, decide_eq_true hnonneg, Bool.or_true, Bool.and_true, IntType.holds_iff]
  cases d with
  | mysql => exact iff_of_true ⟨n.toBitVec, rfl⟩ (.inl rfl)
  | sqlite | postgresql => exact (represents_int64_toNat n).trans (or_iff_right nofun).symm

theorem all_takes_writtenLimit (d : Dialect) (limit offset : Option UInt64) :
    (d.writtenLimit limit offset).all d.takes = true ↔
      d = mysql ∨ ∀ n ∈ limit, n.toNat < 2 ^ 63 := by
  cases limit with
  | some n => simpa [writtenLimit] using d.takes_toNat n
  | none =>
    refine iff_of_true ?_ (.inr fun n hn => absurd hn (Option.not_mem_none n))
    cases offset with
    | none => rfl
    | some k => cases d <;> rfl

theorem all_takes_offset (d : Dialect) (offset : Option UInt64) :
    (offset.map fun k => (k.toNat : Int)).all d.takes = true ↔
      d = mysql ∨ ∀ k ∈ offset, k.toNat < 2 ^ 63 := by
  cases offset with
  | some k => simpa using d.takes_toNat k
  | none => exact iff_of_true rfl (.inr fun k hk => absurd hk (Option.not_mem_none k))

/-- An offset is not written alone for a dialect that does not know it so. -/
theorem isSome_writtenLimit (d : Dialect) (limit : Option UInt64) (k : UInt64) :
    d = postgresql ∨ (d.writtenLimit limit (some k)).isSome := by
  cases limit with
  | some n => exact .inr rfl
  | none => cases d <;> first | exact .inl rfl | exact .inr rfl

/-- What is written is accepted exactly if the dialect has the numbers. -/
theorem accepts_writtenBounds {d : Dialect} {limit offset : Option UInt64} :
    d.accepts (d.writtenBounds limit offset) = true ↔ d.HasBounds limit offset := by
  have hlone : (d = postgresql || (d.writtenLimit limit offset).isSome ||
      (offset.map fun k => (k.toNat : Int)).isNone) = true := by
    cases offset with
    | none => simp
    | some k => simpa using d.isSome_writtenLimit limit k
  rw [accepts, writtenBounds, hlone, Bool.and_true, Bool.and_eq_true, all_takes_writtenLimit,
    all_takes_offset, HasBounds, or_and_left]

theorem skipped_writtenBounds (d : Dialect) (limit offset : Option UInt64) :
    (d.writtenBounds limit offset).window.skipped = (Window.requested limit offset).skipped := by
  cases offset <;> rfl

/-- The limit that is written is the one that is asked for, or stands for none. -/
theorem kept_writtenBounds (d : Dialect) (limit offset : Option UInt64) :
    (d.writtenBounds limit offset).window.kept = (Window.requested limit offset).kept ∨
      (Window.requested limit offset).kept = none ∧
        (d.writtenBounds limit offset).window.kept = some 18446744073709551615 := by
  cases limit with
  | some n =>
    left
    change (if (n.toNat : Int) < 0 then none else some n.toNat) = some n.toNat
    exact if_neg (Int.not_lt.mpr (Int.natCast_nonneg n.toNat))
  | none =>
    cases offset with
    | none => exact .inl rfl
    | some k => cases d <;> first | exact .inl rfl | exact .inr ⟨rfl, rfl⟩

/-- The window of what is written holds the rows that are asked for. A limit that stands for none is
not reached. -/
theorem rows_writtenBounds {α : Type} (d : Dialect) (limit offset : Option UInt64) {rows : List α}
    (h : rows.length < 2 ^ 64) :
    (d.writtenBounds limit offset).window.rows rows =
      (Window.requested limit offset).rows rows := by
  rw [Window.rows, Window.rows, skipped_writtenBounds]
  obtain hkept | ⟨hnone, hgreatest⟩ := d.kept_writtenBounds limit offset
  · rw [hkept]
  · rw [hnone, hgreatest]
    refine List.take_of_length_le ?_
    rw [List.length_drop]
    exact Nat.le_trans (Nat.sub_le _ _) (Nat.le_of_lt_succ h)

theorem keepsRequested_of_hasBounds {d : Dialect} {limit offset : Option UInt64}
    (h : d.HasBounds limit offset) : d.KeepsRequested limit offset := by
  intro α rows hrows
  rw [readWindow?_windowText, if_pos (accepts_writtenBounds.mpr h), Option.map_some,
    d.rows_writtenBounds limit offset hrows]

theorem readWindow?_of_not_hasBounds {d : Dialect} {limit offset : Option UInt64}
    (h : ¬d.HasBounds limit offset) : d.readWindow? (d.windowText limit offset) = none := by
  rw [readWindow?_windowText, if_neg (mt accepts_writtenBounds.mp h)]

/-- A tail that is refused keeps nothing of what is asked for, not even of no rows. -/
theorem not_keepsRequested {d : Dialect} {limit offset : Option UInt64}
    (h : d.readWindow? (d.windowText limit offset) = none) : ¬d.KeepsRequested limit offset := by
  intro hkeeps
  have hempty := hkeeps Unit [] (by decide)
  rw [h] at hempty
  cases hempty

/-- The tail that is written for a limit and an offset keeps the rows that they ask for exactly if
the dialect has both numbers, and is refused otherwise. -/
theorem keepsRequested_iff (d : Dialect) (limit offset : Option UInt64) :
    (d.KeepsRequested limit offset ↔
      d = mysql ∨ (∀ n ∈ limit, n.toNat < 2 ^ 63) ∧ ∀ k ∈ offset, k.toNat < 2 ^ 63) ∧
    (¬d.KeepsRequested limit offset ↔ d.readWindow? (d.windowText limit offset) = none) := by
  by_cases h : d.HasBounds limit offset
  · have hkeeps := keepsRequested_of_hasBounds h
    exact ⟨iff_of_true hkeeps h,
      iff_of_false (not_not_intro hkeeps) fun hnone => not_keepsRequested hnone hkeeps⟩
  · have hnone := readWindow?_of_not_hasBounds h
    exact ⟨iff_of_false (not_keepsRequested hnone) h, iff_of_true (not_keepsRequested hnone) hnone⟩

/-- No limit but the greatest number there is, which asks for all rows: the dialect has no such
number and refuses the tail, whatever the rows. -/
theorem not_keepsRequested_greatest :
    sqlite.windowText (some 18446744073709551615) none = some "LIMIT 18446744073709551615" ∧
      (∀ rows : List Nat, rows.length < 2 ^ 64 →
        (Window.requested (some 18446744073709551615) none).rows rows = rows) ∧
      sqlite.readWindow? (some "LIMIT 18446744073709551615") = none ∧
      ¬sqlite.KeepsRequested (some 18446744073709551615) none := by
  have htext : sqlite.windowText (some 18446744073709551615) none =
      some "LIMIT 18446744073709551615" := by decide
  have hnone : sqlite.readWindow? (some "LIMIT 18446744073709551615") = none := by
    rw [← htext]
    refine readWindow?_of_not_hasBounds ?_
    rintro (hmysql | ⟨hlimit, -⟩)
    · cases hmysql
    · exact absurd (hlimit _ rfl) (by decide)
  exact ⟨htext, fun rows h => List.take_of_length_le (Nat.le_of_lt_succ h), hnone,
    not_keepsRequested (htext ▸ hnone)⟩

end Dialect

end SqlCompose
