import Mathlib.Data.List.Lex
import SqlCompose.Proofs.Query.Clauses
import SqlCompose.Proofs.Value.Rereading
import SqlCompose.Row.Extract

/-!
# Outputs and the shapes they are taken as

A shape takes exactly the outputs that match it: a value that the type converts, a record of the
very model, any output at all, or a tuple of as many items as there are parts, of which each matches
the part at its place. Every place at which an output does not match is found by a path from the
top, the numbers of the parts that lead to it, and an output that is not taken fails at the place
that comes first when the parts are walked depth first from left to right. This is the first path in
the lexicographic order, where a tuple comes before its items.

## Main definitions

* `Shape.Matches`: an output matches a shape, and what it is taken as.
* `Shape.Mismatch`, `Shape.FirstMismatch`: a place at which an output does not match a shape, and
  the first one.
* `Extracted.toOutput`, `Shape.Stores`: what was taken written as an output again, and the values of
  a shape that lose nothing by it.

## Main results

* `Shape.extract_eq_ok_iff`: extraction succeeds exactly if the output matches.
* `Shape.extract_eq_error_iff`: extraction fails as the first mismatch.
* `Shape.extract_outcome`: both, and what is written as an output is taken back.
-/

namespace SqlCompose

namespace Shape

/-! ### Matches -/

mutual

/-- The output matches the shape and is taken as what is given. -/
inductive Matches : Shape → Output → Extracted → Prop
  | scalar {t : ScalarType} {v : Value} {s : Scalar} (h : t.convert v = .ok s) :
      Matches (.scalar t) (.value v) (.scalar s)
  | record {m : Model} {r : Record} (h : r.model = m) : Matches (.record m) (.record r) (.record r)
  | output (o : Output) : Matches .output o (.output o)
  | tuple {parts : List Shape} {items : List Output} {xs : List Extracted}
      (h : MatchEach parts items xs) : Matches (.tuple parts) (.tuple items) (.tuple xs)

/-- There are as many outputs as shapes, and each of them matches the shape at its place. -/
inductive MatchEach : List Shape → List Output → List Extracted → Prop
  | nil : MatchEach [] [] []
  | cons {part : Shape} {o : Output} {x : Extracted} {parts : List Shape} {items : List Output}
      {xs : List Extracted} (h : Matches part o x) (hs : MatchEach parts items xs) :
      MatchEach (part :: parts) (o :: items) (x :: xs)

end

theorem MatchEach.length_eq {parts : List Shape} {items : List Output} {xs : List Extracted}
    (h : MatchEach parts items xs) : items.length = parts.length := by
  induction items generalizing parts xs with
  | nil =>
    cases h
    rfl
  | cons o items ih =>
    cases h with
    | cons _ hs => exact congrArg Nat.succ (ih hs)

theorem MatchEach.exists_matches {parts : List Shape} {items : List Output} {xs : List Extracted}
    (h : MatchEach parts items xs) {i : Nat} {part : Shape} {o : Output}
    (hpart : parts[i]? = some part) (ho : items[i]? = some o) : ∃ x, part.Matches o x := by
  induction i generalizing parts items xs with
  | zero =>
    cases h with
    | nil => cases hpart
    | cons h _ =>
      cases hpart
      cases ho
      exact ⟨_, h⟩
  | succ i ih =>
    cases h with
    | nil => cases hpart
    | cons _ hs => exact ih hs hpart ho

/-! ### Outputs of the kind that is asked for, and of others -/

theorem extract_value (t : ScalarType) (v : Value) :
    (scalar t).extract (.value v) = (t.convert v).map .scalar := by
  rw [extract]
  cases h : t.convert v <;> simp [Output.expectValue, bind, Except.bind, h] <;> rfl

theorem extract_of_ne_value {t : ScalarType} {o : Output} (h : ∀ v, o ≠ .value v) :
    (scalar t).extract o = .error (.mapping (.wrongOutput .value o.summary)) := by
  rw [extract]
  cases o with
  | value v => exact absurd rfl (h v)
  | record r | tuple items => rfl

theorem extract_record (m : Model) (r : Record) : (record m).extract (.record r) =
    if r.model = m then .ok (.record r)
    else .error (.mapping (.wrongRecord m.table r.model.table)) := by
  rw [extract, Output.expectModel, Output.expectRecord]
  by_cases h : r.model = m
  · rw [if_pos h]
    exact bind_eq_ok_iff.mpr ⟨r, if_pos h, rfl⟩
  · rw [if_neg h]
    have hexpect : r.expect m = .error (.mapping (.wrongRecord m.table r.model.table)) := if_neg h
    change (r.expect m >>= fun r' => pure (Extracted.record r')) = _
    rw [hexpect]
    rfl

theorem extract_of_ne_record {m : Model} {o : Output} (h : ∀ r, o ≠ .record r) :
    (record m).extract o = .error (.mapping (.wrongOutput .record o.summary)) := by
  rw [extract]
  cases o with
  | record r => exact absurd rfl (h r)
  | value v | tuple items => rfl

theorem extract_tuple (parts : List Shape) (items : List Output) :
    (tuple parts).extract (.tuple items) =
      if items.length = parts.length then (extractEach parts items).map .tuple
      else .error (.mapping (.tupleSize parts.length items.length)) := by
  rw [extract]
  rfl

theorem extract_of_ne_tuple {parts : List Shape} {o : Output} (h : ∀ items, o ≠ .tuple items) :
    (tuple parts).extract o = .error (.mapping (.wrongOutput .tuple o.summary)) := by
  rw [extract]
  cases o with
  | tuple items => exact absurd rfl (h items)
  | record r | value v => rfl

mutual

/-- Extraction succeeds exactly if the output matches the shape. -/
theorem extract_eq_ok_iff : (shape : Shape) → (o : Output) → (x : Extracted) →
    (shape.extract o = .ok x ↔ shape.Matches o x)
  | .scalar t, o, x => by
    cases o with
    | value v =>
      rw [extract_value]
      constructor
      · intro h
        obtain ⟨s, hs, rfl⟩ := map_eq_ok_iff.mp h
        exact .scalar hs
      · rintro ⟨h⟩
        exact map_eq_ok_iff.mpr ⟨_, h, rfl⟩
    | record r | tuple items =>
      rw [extract_of_ne_value]
      · exact iff_of_false nofun nofun
      · exact nofun
  | .record m, o, x => by
    cases o with
    | record r =>
      rw [extract_record]
      by_cases hmodel : r.model = m
      · rw [if_pos hmodel]
        constructor
        · rintro ⟨⟩
          exact .record hmodel
        · rintro ⟨⟩
          rfl
      · rw [if_neg hmodel]
        refine iff_of_false nofun ?_
        rintro (_ | h)
        exact hmodel h
    | value v | tuple items =>
      rw [extract_of_ne_record]
      · exact iff_of_false nofun nofun
      · exact nofun
  | .output, o, x => by
    rw [extract]
    constructor
    · rintro ⟨⟩
      exact .output o
    · rintro ⟨⟩
      rfl
  | .tuple parts, o, x => by
    cases o with
    | tuple items =>
      rw [extract_tuple]
      by_cases hlength : items.length = parts.length
      · rw [if_pos hlength]
        constructor
        · intro h
          obtain ⟨xs, hxs, rfl⟩ := map_eq_ok_iff.mp h
          exact .tuple ((extractEach_eq_ok_iff parts items xs hlength).mp hxs)
        · rintro (_ | _ | _ | h)
          exact map_eq_ok_iff.mpr
            ⟨_, (extractEach_eq_ok_iff parts items _ hlength).mpr h, rfl⟩
      · rw [if_neg hlength]
        refine iff_of_false nofun ?_
        rintro (_ | _ | _ | h)
        exact hlength h.length_eq
    | record r | value v =>
      rw [extract_of_ne_tuple]
      · exact iff_of_false nofun nofun
      · exact nofun

/-- As many outputs as there are shapes are taken exactly if each matches the shape at its place. -/
theorem extractEach_eq_ok_iff : (parts : List Shape) → (items : List Output) →
    (xs : List Extracted) → items.length = parts.length →
      (extractEach parts items = .ok xs ↔ MatchEach parts items xs)
  | [], items, xs, hlength => by
    obtain rfl := List.eq_nil_of_length_eq_zero hlength
    rw [extractEach]
    constructor
    · rintro ⟨⟩
      exact .nil
    · rintro ⟨⟩
      rfl
  | _ :: _, [], _, hlength => by cases hlength
  | part :: parts, o :: items, xs, hlength => by
    have hrest := extractEach_eq_ok_iff parts items
    rw [extractEach]
    constructor
    · intro h
      obtain ⟨x, hx, h⟩ := bind_eq_ok_iff.mp h
      obtain ⟨ys, hys, h⟩ := bind_eq_ok_iff.mp h
      cases h
      exact .cons ((extract_eq_ok_iff part o x).mp hx) ((hrest ys (Nat.succ.inj hlength)).mp hys)
    · rintro (_ | ⟨h, hs⟩)
      refine bind_eq_ok_iff.mpr ⟨_, (extract_eq_ok_iff part o _).mpr h, ?_⟩
      exact bind_eq_ok_iff.mpr ⟨_, (hrest _ (Nat.succ.inj hlength)).mpr hs, rfl⟩

end

/-! ### Mismatches -/

/-- At the place that the path leads to, the output does not match the shape, and the error says in
what way: it is of another kind, its value is not converted, its record is of another model, or its
tuple has another length. -/
inductive Mismatch : Shape → Output → List Nat → Error → Prop
  | notValue {t : ScalarType} {o : Output} (h : ∀ v, o ≠ .value v) :
      Mismatch (.scalar t) o [] (.mapping (.wrongOutput .value o.summary))
  | notConverted {t : ScalarType} {v : Value} {e : Error} (h : t.convert v = .error e) :
      Mismatch (.scalar t) (.value v) [] e
  | notRecord {m : Model} {o : Output} (h : ∀ r, o ≠ .record r) :
      Mismatch (.record m) o [] (.mapping (.wrongOutput .record o.summary))
  | otherModel {m : Model} {r : Record} (h : r.model ≠ m) :
      Mismatch (.record m) (.record r) [] (.mapping (.wrongRecord m.table r.model.table))
  | notTuple {parts : List Shape} {o : Output} (h : ∀ items, o ≠ .tuple items) :
      Mismatch (.tuple parts) o [] (.mapping (.wrongOutput .tuple o.summary))
  | otherLength {parts : List Shape} {items : List Output} (h : items.length ≠ parts.length) :
      Mismatch (.tuple parts) (.tuple items) [] (.mapping (.tupleSize parts.length items.length))
  | inside {parts : List Shape} {items : List Output} {i : Nat} {part : Shape} {o : Output}
      {path : List Nat} {e : Error} (hpart : parts[i]? = some part) (ho : items[i]? = some o)
      (h : Mismatch part o path e) : Mismatch (.tuple parts) (.tuple items) (i :: path) e

/-- The mismatch at the path comes before all others, depth first from left to right. -/
structure FirstMismatch (shape : Shape) (o : Output) (path : List Nat) (e : Error) : Prop where
  mismatch : shape.Mismatch o path e
  before : ∀ path' e', shape.Mismatch o path' e' → path' ≠ path → List.Lex (· < ·) path path'

/-- At every place there is one mismatch at most. -/
theorem Mismatch.error_eq {shape : Shape} {o : Output} {path : List Nat} {e e' : Error}
    (h : shape.Mismatch o path e) (h' : shape.Mismatch o path e') : e = e' := by
  induction h with
  | notValue h =>
    cases h' with
    | notValue h' => rfl
    | notConverted h' => exact absurd rfl (h _)
  | notConverted h =>
    cases h' with
    | notValue h' => exact absurd rfl (h' _)
    | notConverted h' => exact Except.error.inj (h.symm.trans h')
  | notRecord h =>
    cases h' with
    | notRecord h' => rfl
    | otherModel h' => exact absurd rfl (h _)
  | otherModel h =>
    cases h' with
    | notRecord h' => exact absurd rfl (h' _)
    | otherModel h' => rfl
  | notTuple h =>
    cases h' with
    | notTuple h' => rfl
    | otherLength h' => exact absurd rfl (h _)
  | otherLength h =>
    cases h' with
    | notTuple h' => exact absurd rfl (h' _)
    | otherLength h' => rfl
  | inside hpart ho h ih =>
    cases h' with
    | inside hpart' ho' h' =>
      cases hpart.symm.trans hpart'
      cases ho.symm.trans ho'
      exact ih h'

/-- An output that matches the shape has no mismatch. -/
theorem Mismatch.not_matches {shape : Shape} {o : Output} {path : List Nat} {e : Error}
    (h : shape.Mismatch o path e) (x : Extracted) : ¬shape.Matches o x := by
  induction h generalizing x with
  | notValue h | notRecord h | notTuple h =>
    rintro ⟨⟩
    exact absurd rfl (h _)
  | notConverted h =>
    rintro ⟨h'⟩
    cases h.symm.trans h'
  | otherModel h =>
    rintro (_ | hmodel)
    exact h hmodel
  | otherLength h =>
    rintro (_ | _ | _ | hs)
    exact h hs.length_eq
  | inside hpart ho _ ih =>
    rintro (_ | _ | _ | hs)
    obtain ⟨y, hy⟩ := hs.exists_matches hpart ho
    exact ih y hy

/-- No mismatch is that the items of a tuple run out. -/
theorem Mismatch.ne_tupleEnded {shape : Shape} {o : Output} {path : List Nat} {e : Error}
    (h : shape.Mismatch o path e) : e ≠ .mapping .tupleEnded := by
  induction h with
  | notConverted h =>
    obtain ⟨target, rfl⟩ | ⟨n, type, rfl⟩ := ScalarType.cause_of_convert h <;> exact nofun
  | inside _ _ _ ih => exact ih
  | _ => exact nofun

theorem FirstMismatch.error_eq {shape : Shape} {o : Output} {path path' : List Nat} {e e' : Error}
    (h : shape.FirstMismatch o path e) (h' : shape.FirstMismatch o path' e') : e = e' := by
  obtain rfl : path = path' := by
    by_contra hne
    exact asymm_of (List.Lex (· < ·)) (h.before path' e' h'.mismatch (Ne.symm hne))
      (h'.before path e h.mismatch hne)
  exact h.mismatch.error_eq h'.mismatch

/-- A mismatch at the top comes before all others. -/
theorem Mismatch.first {shape : Shape} {o : Output} {e : Error} (h : shape.Mismatch o [] e) :
    shape.FirstMismatch o [] e where
  mismatch := h
  before path' _ _ hne := by
    cases path' with
    | nil => exact absurd rfl hne
    | cons i path' => exact .nil

/-! ### The first mismatch -/

section Tuple

variable {part : Shape} {parts : List Shape} {o : Output} {items : List Output}

/-- In a tuple of the length that is asked for, a mismatch is one of the first item or one of the
items behind it. -/
theorem Mismatch.head_or_tail (hlength : items.length = parts.length) {path : List Nat} {e : Error}
    (h : (tuple (part :: parts)).Mismatch (.tuple (o :: items)) path e) :
    (∃ path', path = 0 :: path' ∧ part.Mismatch o path' e) ∨
      ∃ i path', path = (i + 1) :: path' ∧
        (tuple parts).Mismatch (.tuple items) (i :: path') e := by
  cases h with
  | notTuple h => exact absurd rfl (h _)
  | otherLength h => exact absurd (congrArg Nat.succ hlength) h
  | @inside _ _ i _ _ path _ hpart ho h =>
    cases i with
    | zero =>
      cases hpart
      cases ho
      exact .inl ⟨path, rfl, h⟩
    | succ i => exact .inr ⟨i, path, rfl, .inside hpart ho h⟩

/-- The first mismatch of the first item is the first of the tuple. -/
theorem FirstMismatch.head (hlength : items.length = parts.length) {path : List Nat} {e : Error}
    (h : part.FirstMismatch o path e) :
    (tuple (part :: parts)).FirstMismatch (.tuple (o :: items)) (0 :: path) e where
  mismatch := .inside rfl rfl h.mismatch
  before path' e' h' hne := by
    obtain ⟨rest, rfl, hrest⟩ | ⟨i, rest, rfl, -⟩ := h'.head_or_tail hlength
    · exact .cons (h.before rest e' hrest fun heq => hne (congrArg (0 :: ·) heq))
    · exact .rel i.succ_pos

/-- Behind an item that matches, the first mismatch of the other items is the first of the tuple. -/
theorem FirstMismatch.tail (hlength : items.length = parts.length) {x : Extracted}
    (hx : part.Matches o x) {i : Nat} {path : List Nat} {e : Error}
    (h : (tuple parts).FirstMismatch (.tuple items) (i :: path) e) :
    (tuple (part :: parts)).FirstMismatch (.tuple (o :: items)) ((i + 1) :: path) e where
  mismatch := by
    cases h.mismatch with
    | inside hpart ho h => exact .inside hpart ho h
  before path' e' h' hne := by
    obtain ⟨rest, rfl, hrest⟩ | ⟨j, rest, rfl, hrest⟩ := h'.head_or_tail hlength
    · exact absurd hx (hrest.not_matches x)
    · have hne' : j :: rest ≠ i :: path := by
        rintro ⟨⟩
        exact hne rfl
      cases h.before (j :: rest) e' hrest hne' with
      | rel hlt => exact .rel (Nat.succ_lt_succ hlt)
      | cons hrest => exact .cons hrest

end Tuple

mutual

/-- An output that is not taken fails as its first mismatch. -/
theorem exists_first_of_extract : (shape : Shape) → (o : Output) → (e : Error) →
    shape.extract o = .error e → ∃ path, shape.FirstMismatch o path e
  | .scalar t, o, e, h => by
    by_cases hkind : ∀ v, o ≠ .value v
    · rw [extract_of_ne_value hkind] at h
      cases h
      exact ⟨[], (Mismatch.notValue hkind).first⟩
    · obtain ⟨v, rfl⟩ := not_forall_not.mp hkind
      rw [extract_value] at h
      cases hv : t.convert v with
      | ok s =>
        rw [hv] at h
        cases h
      | error e' =>
        rw [hv] at h
        cases h
        exact ⟨[], (Mismatch.notConverted hv).first⟩
  | .record m, o, e, h => by
    by_cases hkind : ∀ r, o ≠ .record r
    · rw [extract_of_ne_record hkind] at h
      cases h
      exact ⟨[], (Mismatch.notRecord hkind).first⟩
    · obtain ⟨r, rfl⟩ := not_forall_not.mp hkind
      rw [extract_record] at h
      split at h
      · cases h
      · next hmodel =>
        cases h
        exact ⟨[], (Mismatch.otherModel hmodel).first⟩
  | .output, o, e, h => by
    rw [extract] at h
    cases h
  | .tuple parts, o, e, h => by
    by_cases hkind : ∀ items, o ≠ .tuple items
    · rw [extract_of_ne_tuple hkind] at h
      cases h
      exact ⟨[], (Mismatch.notTuple hkind).first⟩
    · obtain ⟨items, rfl⟩ := not_forall_not.mp hkind
      rw [extract_tuple] at h
      split at h
      · next hlength =>
        cases hitems : extractEach parts items with
        | ok xs =>
          rw [hitems] at h
          cases h
        | error e' =>
          rw [hitems] at h
          cases h
          obtain ⟨i, path, hfirst⟩ := exists_first_of_extractEach parts items e hlength hitems
          exact ⟨i :: path, hfirst⟩
      · next hlength =>
        cases h
        exact ⟨[], (Mismatch.otherLength hlength).first⟩

/-- Outputs that are not taken, one for each shape, fail as their first mismatch. -/
theorem exists_first_of_extractEach : (parts : List Shape) → (items : List Output) → (e : Error) →
    items.length = parts.length → extractEach parts items = .error e →
      ∃ i path, (tuple parts).FirstMismatch (.tuple items) (i :: path) e
  | [], items, e, _, h => by
    rw [extractEach] at h
    cases h
  | _ :: _, [], _, hlength, _ => by cases hlength
  | part :: parts, o :: items, e, hlength, h => by
    rw [extractEach] at h
    cases ho : part.extract o with
    | error e' =>
      rw [ho] at h
      cases h
      obtain ⟨path, hfirst⟩ := exists_first_of_extract part o e ho
      exact ⟨0, path, hfirst.head (Nat.succ.inj hlength)⟩
    | ok x =>
      -- the item is taken, so that it has no mismatch and the first one lies behind it
      rw [ho] at h
      cases hitems : extractEach parts items with
      | ok xs =>
        rw [hitems] at h
        cases h
      | error e' =>
        rw [hitems] at h
        cases h
        obtain ⟨i, path, hfirst⟩ :=
          exists_first_of_extractEach parts items e (Nat.succ.inj hlength) hitems
        exact ⟨i + 1, path,
          hfirst.tail (Nat.succ.inj hlength) ((extract_eq_ok_iff part o x).mp ho)⟩

end

/-- Extraction fails exactly as the first mismatch of the output. -/
theorem extract_eq_error_iff {shape : Shape} {o : Output} {e : Error} :
    shape.extract o = .error e ↔ ∃ path, shape.FirstMismatch o path e := by
  constructor
  · exact exists_first_of_extract shape o e
  · rintro ⟨path, h⟩
    cases hx : shape.extract o with
    | ok x => exact absurd ((extract_eq_ok_iff shape o x).mp hx) (h.mismatch.not_matches x)
    | error e' =>
      -- there is one first mismatch only
      obtain ⟨path', h'⟩ := exists_first_of_extract shape o e' hx
      rw [h'.error_eq h]

end Shape

/-! ### Values written as outputs -/

namespace Extracted

mutual

/-- What was taken, written as an output: a scalar as a value, a record as it is, a tuple item by
item. -/
def toOutput : Extracted → Output
  | scalar s => .value s.toValue
  | record r => .record r
  | output o => o
  | tuple parts => .tuple (toOutputs parts)

/-- What was taken, each written as an output. -/
def toOutputs : List Extracted → List Output
  | [] => []
  | x :: xs => x.toOutput :: toOutputs xs

end

end Extracted

namespace Shape

mutual

/-- A value of the shape whose scalars are written without loss: none is of an unsigned type of 64
bits or of singles, and no option is one of any value or of options. -/
inductive Stores : Shape → Extracted → Prop
  | scalar {t : ScalarType} {s : Scalar} (hstorable : t.isStorable = true)
      (hplain : t.isPlain = true) (hbase : t.base ≠ .single) (h : t.admits s = true) :
      Stores (.scalar t) (.scalar s)
  | record {m : Model} {r : Record} (h : r.model = m) : Stores (.record m) (.record r)
  | output (o : Output) : Stores .output (.output o)
  | tuple {parts : List Shape} {xs : List Extracted} (h : StoreEach parts xs) :
      Stores (.tuple parts) (.tuple xs)

/-- There are as many values as shapes, and each of them is one of the shape at its place. -/
inductive StoreEach : List Shape → List Extracted → Prop
  | nil : StoreEach [] []
  | cons {part : Shape} {x : Extracted} {parts : List Shape} {xs : List Extracted}
      (h : Stores part x) (hs : StoreEach parts xs) : StoreEach (part :: parts) (x :: xs)

end

mutual

/-- What a value of a shape is written as matches the shape and is taken as the value. -/
theorem Stores.matches_toOutput : {shape : Shape} → {x : Extracted} → shape.Stores x →
    shape.Matches x.toOutput x
  | _, _, .scalar hstorable hplain hbase h => .scalar (ScalarType.convert_toValue hstorable hplain h
      (ScalarType.survives_of_admits hbase h))
  | _, _, .record h => .record h
  | _, _, .output o => .output o
  | _, _, .tuple h => .tuple h.matchEach_toOutputs

theorem StoreEach.matchEach_toOutputs : {parts : List Shape} → {xs : List Extracted} →
    StoreEach parts xs → MatchEach parts (Extracted.toOutputs xs) xs
  | _, _, .nil => .nil
  | _, _, .cons h hs => .cons h.matches_toOutput hs.matchEach_toOutputs

end

/-- A shape takes an output exactly if the output matches it, as what it matches as. Otherwise it
fails as the first mismatch, depth first from left to right, where the length of a tuple is looked
at before its items; that the items of a tuple run out is never the failure. A value of the shape
that is written as an output is taken back. -/
theorem extract_outcome (shape : Shape) (o : Output) :
    (∀ x, shape.extract o = .ok x ↔ shape.Matches o x) ∧
    (∀ e, shape.extract o = .error e ↔ ∃ path, shape.Mismatch o path e ∧
      ∀ path' e', shape.Mismatch o path' e' → path' ≠ path → List.Lex (· < ·) path path') ∧
    shape.extract o ≠ .error (.mapping .tupleEnded) ∧
    ∀ x, shape.Stores x → shape.extract x.toOutput = .ok x := by
  refine ⟨extract_eq_ok_iff shape o, fun e => ?_, fun h => ?_, fun x hx => ?_⟩
  · rw [extract_eq_error_iff]
    exact exists_congr fun path => ⟨fun h => ⟨h.mismatch, h.before⟩, fun h => ⟨h.1, h.2⟩⟩
  · obtain ⟨path, hfirst⟩ := extract_eq_error_iff.mp h
    exact hfirst.mismatch.ne_tupleEnded rfl
  · exact (extract_eq_ok_iff shape _ x).mpr hx.matches_toOutput

/-- The inner tuple is too short, its only item is no record, and null is no truth value: the length
comes first. A value of the shape, absent text included, is taken back. -/
theorem extract_outcome_nested :
    let m : Model := ⟨"M", "m", [⟨"a", .int .uint8, "a", rfl⟩], by decide⟩
    let shape : Shape :=
      .tuple [.scalar (.option .text), .tuple [.record m, .output], .scalar .bool]
    let o : Output := .tuple [.value .null, .tuple [.value (.bool true)], .value .null]
    let x : Extracted :=
      .tuple [.scalar .none, .tuple [.record ⟨m, [.int 7], rfl⟩, .output o], .scalar (.bool true)]
    let short : Error := .mapping (.tupleSize 2 1)
    shape.Mismatch o [1, 0] (.mapping (.wrongOutput .record (.value .bool))) ∧
      shape.Mismatch o [2] (.mapping (.cannotConvert .null .bool)) ∧
      shape.extract o = .error short ∧
      (∃ path, shape.Mismatch o path short ∧
        ∀ path' e', shape.Mismatch o path' e' → path' ≠ path → List.Lex (· < ·) path path') ∧
      shape.extract o ≠ .error (.mapping .tupleEnded) ∧
      shape.Stores x ∧ shape.extract x.toOutput = .ok x := by
  intro m shape o x short
  obtain ⟨-, hfails, hended, hstored⟩ := extract_outcome shape o
  have hinner : shape.Mismatch o [1, 0] (.mapping (.wrongOutput .record (.value .bool))) :=
    .inside rfl rfl (.inside rfl rfl (.notRecord nofun))
  have hlast : shape.Mismatch o [2] (.mapping (.cannotConvert .null .bool)) :=
    .inside rfl rfl (.notConverted rfl)
  have herror : shape.extract o = .error short := rfl
  have hx : shape.Stores x := .tuple (.cons (.scalar rfl rfl nofun rfl)
    (.cons (.tuple (.cons (.record rfl) (.cons (.output o) .nil)))
      (.cons (.scalar rfl rfl nofun rfl) .nil)))
  exact ⟨hinner, hlast, herror, (hfails short).mp herror, hended, hx, hstored x hx⟩

end Shape

end SqlCompose
