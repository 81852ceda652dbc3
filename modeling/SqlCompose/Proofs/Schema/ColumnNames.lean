import Mathlib.Data.List.Basic
import SqlCompose.Query.TableRef

/-!
# Columns named from fields

By the snake-case rule a capital becomes an underscore and its small letter. The rule is undone by
reading an underscore in front of a small letter as the capital of that letter. Whatever the names
are, two of them come to the same column exactly if they are read alike, as `userName` and
`user_name` are. A name without an underscore is read as itself, so that such names come to the same
column only if they are equal. Letters other than those from `A` to `Z` have no part in this.

## Main definitions

* `Naming.camelCase`: the reading of a name.
* `Model.NamedBy`: a model whose columns are named from its fields by a rule.

## Main results

* `Naming.snakeCase_eq_snakeCase_iff`: the names that come to the same column.
* `Naming.snakeCase_eq_self_iff`: the names that the rule leaves as they are.
* `TableRef.nodup_columns_iff`: when the columns of a table are distinct.
* `TableRef.columns_apart`: names without an underscore come to distinct columns.
-/

namespace SqlCompose

namespace Naming

/-! ### Letters and their case -/

theorem exists_ofNat_of_isUpper {c : Char} (h : c.isUpper = true) :
    ∃ n < 26, c = .ofNat (65 + n) := by
  obtain ⟨hge, hle⟩ : 65 ≤ c.val ∧ c.val ≤ 90 := of_decide_eq_true h
  have hlow : 65 ≤ c.toNat := UInt32.le_iff_toNat_le.mp hge
  have hhigh : c.toNat ≤ 90 := UInt32.le_iff_toNat_le.mp hle
  refine ⟨c.toNat - 65, by omega, ?_⟩
  rw [Nat.add_sub_cancel' hlow, Char.ofNat_toNat]

theorem exists_ofNat_of_isLower {c : Char} (h : c.isLower = true) :
    ∃ n < 26, c = .ofNat (97 + n) := by
  obtain ⟨hge, hle⟩ := Bool.and_eq_true_iff.mp h
  have hlow : 97 ≤ c.toNat := UInt32.le_iff_toNat_le.mp (of_decide_eq_true hge)
  have hhigh : c.toNat ≤ 122 := UInt32.le_iff_toNat_le.mp (of_decide_eq_true hle)
  refine ⟨c.toNat - 97, by omega, ?_⟩
  rw [Nat.add_sub_cancel' hlow, Char.ofNat_toNat]

/-- The small letter of a capital is one, and the capital is the one of that letter. -/
theorem toLower_of_isUpper {c : Char} (h : c.isUpper = true) :
    c.toLower.isLower = true ∧ c.toLower.toUpper = c := by
  obtain ⟨n, hn, rfl⟩ := exists_ofNat_of_isUpper h
  clear h
  revert n
  decide

/-- The capital of a small letter is one, and the small letter is the one of that capital. -/
theorem toUpper_of_isLower {c : Char} (h : c.isLower = true) :
    c.toUpper.isUpper = true ∧ c.toUpper.toLower = c := by
  obtain ⟨n, hn, rfl⟩ := exists_ofNat_of_isLower h
  clear h
  revert n
  decide

theorem not_isUpper_of_isLower {c : Char} (h : c.isLower = true) : ¬c.isUpper = true := by
  obtain ⟨n, hn, rfl⟩ := exists_ofNat_of_isLower h
  clear h
  revert n
  decide

/-! ### One character -/

theorem snakeChar_of_isUpper {c : Char} (h : c.isUpper = true) : snakeChar c = ['_', c.toLower] :=
  if_pos h

theorem snakeChar_of_not_isUpper {c : Char} (h : ¬c.isUpper = true) : snakeChar c = [c] :=
  if_neg h

theorem snakeChar_underscore : snakeChar '_' = ['_'] := by decide

theorem isUpper_of_mem_snakeChar {c d : Char} (h : d ∈ snakeChar c) : d.isUpper = false := by
  by_cases hc : c.isUpper = true
  · rw [snakeChar_of_isUpper hc, List.mem_pair] at h
    rcases h with rfl | rfl
    · decide
    · exact Bool.eq_false_iff.mpr (not_isUpper_of_isLower (toLower_of_isUpper hc).1)
  · rw [snakeChar_of_not_isUpper hc, List.mem_singleton] at h
    rw [h, Bool.eq_false_iff]
    exact hc

/-- What a character comes to begins with a small letter only if the character is one. -/
theorem isLower_of_head?_snakeChar {c d : Char} {cs : List Char}
    (h : d ∈ (snakeChar c ++ cs).head?) (hd : d.isLower = true) : c.isLower = true := by
  by_cases hc : c.isUpper = true
  · rw [snakeChar_of_isUpper hc] at h
    cases h
    cases hd
  · rw [snakeChar_of_not_isUpper hc] at h
    cases h
    exact hd

/-! ### Reading a name -/

/-- Reads an underscore in front of a small letter as the capital of the letter. -/
def camelChars : List Char → List Char
  | '_' :: c :: cs => if c.isLower then c.toUpper :: camelChars cs else '_' :: camelChars (c :: cs)
  | c :: cs => c :: camelChars cs
  | [] => []

/-- The name in which underscores are read as the capitals that they stand for. -/
def camelCase (name : String) : String := String.ofList (camelChars name.toList)

theorem camelChars_lower {c : Char} (h : c.isLower = true) (cs : List Char) :
    camelChars ('_' :: c :: cs) = c.toUpper :: camelChars cs := by
  rw [camelChars, if_pos h]

theorem camelChars_underscore {cs : List Char} (h : ∀ c ∈ cs.head?, ¬c.isLower = true) :
    camelChars ('_' :: cs) = '_' :: camelChars cs := by
  cases cs with
  | nil => rfl
  | cons c cs => rw [camelChars, if_neg (h c rfl)]

theorem camelChars_of_ne {c : Char} (h : c ≠ '_') (cs : List Char) :
    camelChars (c :: cs) = c :: camelChars cs := by
  rw [camelChars]
  rintro d ds rfl
  exact absurd rfl h

/-- What a character but the underscore comes to is read as the character. -/
theorem camelChars_snakeChar {c : Char} (h : c ≠ '_') (cs : List Char) :
    camelChars (snakeChar c ++ cs) = c :: camelChars cs := by
  by_cases hc : c.isUpper = true
  · obtain ⟨hlower, hcapital⟩ := toLower_of_isUpper hc
    rw [snakeChar_of_isUpper hc, List.cons_append, List.singleton_append,
      camelChars_lower hlower, hcapital]
  · rw [snakeChar_of_not_isUpper hc, List.singleton_append, camelChars_of_ne h]

/-- The column that a name comes to is read as the name is. -/
theorem camelChars_flatMap (cs : List Char) :
    camelChars (cs.flatMap snakeChar) = camelChars cs := by
  fun_induction camelChars cs with
  | case1 c cs hc ih =>
    have hsmall : snakeChar c = [c] := snakeChar_of_not_isUpper (not_isUpper_of_isLower hc)
    rw [List.flatMap_cons, List.flatMap_cons, snakeChar_underscore, hsmall, List.singleton_append,
      List.singleton_append, camelChars_lower hc, ih]
  | case2 c cs hc ih =>
    have hhead : ∀ d ∈ ((c :: cs).flatMap snakeChar).head?, ¬d.isLower = true :=
      fun d hd hlower => hc (isLower_of_head?_snakeChar hd hlower)
    rw [List.flatMap_cons, snakeChar_underscore, List.singleton_append,
      camelChars_underscore hhead, ih]
  | case3 c cs hcs ih =>
    rw [List.flatMap_cons]
    by_cases hc : c = '_'
    · subst hc
      cases cs with
      | nil => rfl
      | cons d ds => exact absurd rfl (hcs d ds rfl)
    · rw [camelChars_snakeChar hc, ih]
  | case4 => rfl

/-- What a name is read as comes to the same column as the name. -/
theorem flatMap_camelChars (cs : List Char) :
    (camelChars cs).flatMap snakeChar = cs.flatMap snakeChar := by
  fun_induction camelChars cs with
  | case1 c cs hc ih =>
    obtain ⟨hupper, hsmall⟩ := toUpper_of_isLower hc
    rw [List.flatMap_cons, List.flatMap_cons, List.flatMap_cons, ih, snakeChar_of_isUpper hupper,
      hsmall, snakeChar_underscore, snakeChar_of_not_isUpper (not_isUpper_of_isLower hc)]
    rfl
  | case2 c cs hc ih => rw [List.flatMap_cons, List.flatMap_cons, ih]
  | case3 c cs hcs ih => rw [List.flatMap_cons, List.flatMap_cons, ih]
  | case4 => rfl

theorem camelChars_of_not_mem {cs : List Char} (h : '_' ∉ cs) : camelChars cs = cs := by
  induction cs with
  | nil => rfl
  | cons c cs ih =>
    rw [List.mem_cons, not_or] at h
    rw [camelChars_of_ne (Ne.symm h.1), ih h.2]

/-! ### Names and their columns -/

/-- Two names come to the same column exactly if they are read alike. -/
theorem snakeCase_eq_snakeCase_iff {a b : String} :
    snakeCase a = snakeCase b ↔ camelCase a = camelCase b := by
  rw [snakeCase, snakeCase, camelCase, camelCase, String.ofList_inj, String.ofList_inj]
  constructor
  · intro h
    rw [← camelChars_flatMap a.toList, h, camelChars_flatMap]
  · intro h
    rw [← flatMap_camelChars a.toList, h, flatMap_camelChars]

example : snakeCase "userName" = snakeCase "user_name" := by decide

theorem camelCase_of_not_mem {name : String} (h : '_' ∉ name.toList) : camelCase name = name := by
  rw [camelCase, camelChars_of_not_mem h, String.ofList_toList]

theorem eq_of_snakeCase_eq {a b : String} (ha : '_' ∉ a.toList) (hb : '_' ∉ b.toList)
    (h : snakeCase a = snakeCase b) : a = b := by
  rw [snakeCase_eq_snakeCase_iff, camelCase_of_not_mem ha, camelCase_of_not_mem hb] at h
  exact h

theorem isUpper_of_mem_snakeCase {name : String} {c : Char} (h : c ∈ (snakeCase name).toList) :
    c.isUpper = false := by
  rw [snakeCase, String.toList_ofList, List.mem_flatMap] at h
  obtain ⟨d, -, hc⟩ := h
  exact isUpper_of_mem_snakeChar hc

/-- The rule leaves exactly the names without a capital as they are. -/
theorem snakeCase_eq_self_iff {name : String} :
    snakeCase name = name ↔ ∀ c ∈ name.toList, c.isUpper = false := by
  constructor
  · intro h c hc
    rw [← h] at hc
    exact isUpper_of_mem_snakeCase hc
  · intro h
    have hchars : name.toList.flatMap snakeChar = name.toList.flatMap fun c => [c] :=
      List.flatMap_congr fun c hc => snakeChar_of_not_isUpper (Bool.eq_false_iff.mp (h c hc))
    rw [snakeCase, hchars, List.flatMap_singleton', String.ofList_toList]

theorem snakeCase_snakeCase (name : String) : snakeCase (snakeCase name) = snakeCase name :=
  snakeCase_eq_self_iff.mpr fun _ hc => isUpper_of_mem_snakeCase hc

theorem snakeCase_append (a b : String) : snakeCase (a ++ b) = snakeCase a ++ snakeCase b := by
  rw [snakeCase, String.toList_append, List.flatMap_append, String.ofList_append]
  rfl

end Naming

/-! ### Columns of a table -/

/-- The columns of the model are named from its fields by the rule. -/
def Model.NamedBy (rule : String → String) (m : Model) : Prop :=
  ∀ f ∈ m.fields, f.column = rule f.name

namespace TableRef

variable {t : TableRef}

theorem map_column_columns {rule : String → String} (h : t.model.NamedBy rule) :
    t.columns.map Column.column = t.model.fieldNames.map rule := by
  rw [map_columnIn, Model.fieldNames, List.map_map, List.map_map]
  exact List.map_congr_left fun f hf => h f hf

/-- Columns that are named by the snake-case rule are distinct exactly if their fields are read as
distinct names. -/
theorem nodup_columns_iff (h : t.model.NamedBy Naming.snakeCase) :
    (t.columns.map Column.column).Nodup ↔ (t.model.fieldNames.map Naming.camelCase).Nodup := by
  rw [map_column_columns h, List.nodup_iff_pairwise_ne, List.nodup_iff_pairwise_ne,
    List.pairwise_map, List.pairwise_map]
  simp only [ne_eq, Naming.snakeCase_eq_snakeCase_iff]

theorem nodup_columns (h : t.model.NamedBy Naming.snakeCase)
    (hplain : ∀ name ∈ t.model.fieldNames, '_' ∉ name.toList) :
    (t.columns.map Column.column).Nodup := by
  have hread : t.model.fieldNames.map Naming.camelCase = t.model.fieldNames.map id :=
    List.map_congr_left fun name hname => Naming.camelCase_of_not_mem (hplain name hname)
  rw [nodup_columns_iff h, hread, List.map_id]
  exact t.model.nodup_names

/-- Names without an underscore come to the same column only if they are equal. A column that a name
comes to has no capital from `A` to `Z` and is left as it is by the rule, and two names put together
come to their columns put together. The columns of a table are therefore distinct under every alias
if its model is named by the rule and the fields have no underscore. -/
theorem columns_apart :
    (∀ a b : String, '_' ∉ a.toList → '_' ∉ b.toList →
      Naming.snakeCase a = Naming.snakeCase b → a = b) ∧
    (∀ name : String, ∀ c ∈ (Naming.snakeCase name).toList, c.isUpper = false) ∧
    (∀ name, Naming.snakeCase (Naming.snakeCase name) = Naming.snakeCase name) ∧
    (∀ a b, Naming.snakeCase (a ++ b) = Naming.snakeCase a ++ Naming.snakeCase b) ∧
    ∀ t : TableRef, t.model.NamedBy Naming.snakeCase →
      (∀ name ∈ t.model.fieldNames, '_' ∉ name.toList) → (t.columns.map Column.column).Nodup :=
  ⟨fun _ _ => Naming.eq_of_snakeCase_eq, fun _ _ => Naming.isUpper_of_mem_snakeCase,
    Naming.snakeCase_snakeCase, Naming.snakeCase_append, fun _ => nodup_columns⟩

/-- Runs of capitals at either end of a name, a capital beyond `Z`, and two names that differ in
their first letter's case only. -/
theorem columns_apart_capitals :
    let m : Model := ⟨"M", "m", [.named Naming.snakeCase "HTTPPort" (.int .int64),
      .named Naming.snakeCase "hTTPPort" .text, .named Naming.snakeCase "ÄndID" .text,
      .named Naming.snakeCase "" .text], by decide⟩
    let t : TableRef := (ofModel m).aliased "a"
    t.model.NamedBy Naming.snakeCase ∧ (∀ name ∈ t.model.fieldNames, '_' ∉ name.toList) ∧
      t.columns.map Column.column = ["_h_t_t_p_port", "h_t_t_p_port", "Änd_i_d", ""] ∧
      (t.columns.map Column.column).Nodup ∧
      Naming.snakeCase "HTTPPort" ≠ Naming.snakeCase "hTTPPort" ∧
      'Ä' ∈ (Naming.snakeCase "ÄndID").toList ∧ 'Ä'.isUpper = false := by
  intro m t
  obtain ⟨hinj, hsmall, -, -, hnodup⟩ := columns_apart
  have hnamed : t.model.NamedBy Naming.snakeCase := by
    simp [Model.NamedBy, t, m, ofModel, of, aliased, Field.named]
  have hplain : ∀ name ∈ t.model.fieldNames, '_' ∉ name.toList := by decide
  have hmem : 'Ä' ∈ (Naming.snakeCase "ÄndID").toList := by decide
  exact ⟨hnamed, hplain, by decide, hnodup t hnamed hplain,
    fun h => absurd (hinj _ _ (by decide) (by decide) h) (by decide), hmem, hsmall _ _ hmem⟩

end TableRef

end SqlCompose
