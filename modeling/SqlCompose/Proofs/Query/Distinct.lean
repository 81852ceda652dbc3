import Mathlib.Data.List.Nodup
import SqlCompose.Proofs.Query.Assembly
import SqlCompose.Proofs.Query.Texts

/-!
# When the tables of a statement are told apart

A table in a statement is known by an identifier, that of a joined table being the path to it with
underscores between the relations' names. The names may have underscores too, so that two paths may
read the same. Where names are distinct among the joins of one parent, this is the only way in
which two tables of a statement get one identifier.

## Main definitions

* `Statement.tableIdentifiers`: the identifiers of the tables that a statement reads.
* `Compiled.tableIdentifiers`: those that are found in a text.
* `Join.Siblings`: the joins of one parent, at any depth.
* `Join.DistinctNames`, `Join.Unextended`: conditions on the names of siblings.

## Main results

* `Join.Reached.path_eq`: paths are told apart where no name is extended by a sibling's.
* `Query.compile_tableIdentifiers`: when the identifiers in a statement are distinct.
-/

namespace SqlCompose

/-- The identifier that a clause brings in a table under. -/
def SourceClause.identifier (s : SourceClause) : String := s.aliasName.getD s.table

/-- The identifiers of the tables of a statement, first the one that it selects from. -/
def Statement.tableIdentifiers (s : Statement) : List String :=
  s.source.identifier :: s.joins.map fun j => j.source.identifier

/-- The identifiers of the tables that are found in a text in which `mark` quotes names. -/
def Compiled.tableIdentifiers (mark : Char) (c : Compiled) : Option (List String) :=
  (c.sources mark).map (List.map SourceClause.identifier)

/-- The identifiers that are found in the text of a statement are those of its tables. -/
theorem Statement.Legible.tableIdentifiers_render {s : Statement} (h : s.Legible) {ctx : Context}
    {mark : Char} (hmark : ctx.quoting.mark? = some mark) :
    (s.render ctx).tableIdentifiers mark = some s.tableIdentifiers := by
  rw [Compiled.tableIdentifiers, h.sources_render hmark, Option.map_some, List.map_cons,
    List.map_map]
  rfl

namespace Join

/-! ### Conditions on names -/

/-- The joins that have one parent: the trees themselves, and those directly below any join. -/
inductive Siblings : List Join → List Join → Prop
  | top (js : List Join) : Siblings js js
  | under {js ls : List Join} {j : Join} (hj : j ∈ js) (hl : Siblings j.children ls) :
      Siblings js ls

/-- No two joins of one parent have the same name. -/
def DistinctNames (js : List Join) : Prop := ∀ ls, Siblings js ls → (ls.map name).Nodup

/-- No join has the name of another one of the same parent with an underscore and any text after
it. -/
def Unextended (js : List Join) : Prop :=
  ∀ ls, Siblings js ls → ∀ j ∈ ls, ∀ k ∈ ls, ∀ text, j.name ≠ k.name ++ "_" ++ text

/-- What holds of all siblings holds of those at the top and of all below each join. -/
theorem forall_siblings_iff {p : List Join → Prop} {js : List Join} :
    (∀ ls, Siblings js ls → p ls) ↔ p js ∧ ∀ j ∈ js, ∀ ls, Siblings j.children ls → p ls := by
  constructor
  · intro h
    exact ⟨h js (.top js), fun j hj ls hl => h ls (.under hj hl)⟩
  · rintro ⟨htop, hunder⟩ ls (_ | ⟨hj, hl⟩)
    · exact htop
    · exact hunder _ hj ls hl

theorem distinctNames_iff {js : List Join} :
    DistinctNames js ↔ (js.map name).Nodup ∧ ∀ j ∈ js, DistinctNames j.children :=
  forall_siblings_iff

theorem unextended_iff {js : List Join} :
    Unextended js ↔ (∀ j ∈ js, ∀ k ∈ js, ∀ text, j.name ≠ k.name ++ "_" ++ text) ∧
      ∀ j ∈ js, Unextended j.children :=
  forall_siblings_iff

theorem distinctNames_nil : DistinctNames [] := distinctNames_iff.mpr ⟨List.nodup_nil, by simp⟩

theorem unextended_nil : Unextended [] := unextended_iff.mpr ⟨by simp, by simp⟩

theorem DistinctNames.children {js : List Join} (h : DistinctNames js) {j : Join} (hj : j ∈ js) :
    DistinctNames j.children :=
  (distinctNames_iff.mp h).2 j hj

theorem DistinctNames.tail {js : List Join} {j : Join} (h : DistinctNames (j :: js)) :
    DistinctNames js := by
  obtain ⟨htop, hunder⟩ := distinctNames_iff.mp h
  exact distinctNames_iff.mpr ⟨htop.of_cons, fun k hk => hunder k (List.mem_cons_of_mem _ hk)⟩

theorem DistinctNames.eq_of_name {js : List Join} (h : DistinctNames js) {j k : Join} (hj : j ∈ js)
    (hk : k ∈ js) (hname : j.name = k.name) : j = k :=
  List.inj_on_of_nodup_map (h js (.top js)) hj hk hname

theorem Unextended.children {js : List Join} (h : Unextended js) {j : Join} (hj : j ∈ js) :
    Unextended j.children :=
  (unextended_iff.mp h).2 j hj

theorem Unextended.ne {js : List Join} (h : Unextended js) {j k : Join} (hj : j ∈ js) (hk : k ∈ js)
    (text : String) : j.name ≠ k.name ++ "_" ++ text :=
  (unextended_iff.mp h).1 j hj k hk text

/-! ### Paths in a walk -/

mutual

/-- The joins of a tree with their paths, depth first from the top. -/
def addressed : Join → List (List String × Join)
  | j@⟨name, _, _, _, children⟩ =>
    ([name], j) :: (addressedAll children).map fun (path, k) => (name :: path, k)

/-- The joins of the trees with their paths. -/
def addressedAll : List Join → List (List String × Join)
  | [] => []
  | j :: js => j.addressed ++ addressedAll js

end

/-- The paths to the joins of trees. -/
def paths (js : List Join) : List (List String) := (addressedAll js).map Prod.fst

mutual

theorem snd_addressed (parent : TableRef) : (j : Join) →
    j.addressed.map Prod.snd = (j.walk parent).map Prod.snd
  | ⟨_, _, right, _, children⟩ => by
    rw [addressed, walk, List.map_cons, List.map_cons, List.map_map,
      ← snd_addressedAll right children]
    rfl

theorem snd_addressedAll (parent : TableRef) : (js : List Join) →
    (addressedAll js).map Prod.snd = (walkAll parent js).map Prod.snd
  | [] => rfl
  | j :: js => by
    rw [addressedAll, walkAll, List.map_append, List.map_append, snd_addressed parent j,
      snd_addressedAll parent js]

end

theorem addressed_eq (j : Join) : j.addressed =
    ([j.name], j) :: (addressedAll j.children).map fun (path, k) => (j.name :: path, k) := by
  cases j
  rfl

theorem mem_addressedAll {js : List Join} {step : List String × Join} :
    step ∈ addressedAll js ↔ ∃ j ∈ js, step ∈ j.addressed := by
  induction js with
  | nil => simp [addressedAll]
  | cons j js ih => simp [addressedAll, ih]

mutual

theorem reached_of_mem_addressed {path : List String} {k : Join} {js : List Join} :
    (j : Join) → j ∈ js → (path, k) ∈ j.addressed → Reached js path k
  | j@⟨name, left, right, condition, children⟩, hj, h => by
    rw [addressed, List.mem_cons] at h
    obtain h | h := h
    · cases h
      exact .top hj
    · obtain ⟨⟨rest, k'⟩, hrest, heq⟩ := List.mem_map.mp h
      cases heq
      exact .under hj (reached_of_mem_addressedAll children (fun _ hc => hc) hrest)

theorem reached_of_mem_addressedAll {path : List String} {k : Join} {js : List Join} :
    (ls : List Join) → (∀ j ∈ ls, j ∈ js) → (path, k) ∈ addressedAll ls → Reached js path k
  | [], _, h => by cases h
  | j :: ls, hls, h => by
    rw [addressedAll, List.mem_append] at h
    obtain h | h := h
    · exact reached_of_mem_addressed j (hls j List.mem_cons_self) h
    · exact reached_of_mem_addressedAll ls (fun k hk => hls k (List.mem_cons_of_mem _ hk)) h

end

/-- The joins that are walked are those that are reached. -/
theorem mem_addressedAll_iff {js : List Join} {path : List String} {k : Join} :
    (path, k) ∈ addressedAll js ↔ Reached js path k := by
  constructor
  · exact reached_of_mem_addressedAll js fun _ hj => hj
  · intro h
    induction h with
    | @top js j hj =>
      refine mem_addressedAll.mpr ⟨j, hj, ?_⟩
      rw [addressed_eq]
      exact List.mem_cons_self
    | @under js path j k hj _ ih =>
      refine mem_addressedAll.mpr ⟨j, hj, ?_⟩
      rw [addressed_eq]
      exact List.mem_cons_of_mem _ (List.mem_map.mpr ⟨_, ih, rfl⟩)

theorem mem_paths_iff {js : List Join} {path : List String} :
    path ∈ paths js ↔ ∃ k, Reached js path k := by
  simp only [paths, List.mem_map, Prod.exists, mem_addressedAll_iff, exists_and_right,
    exists_eq_right]

theorem Reached.exists_eq_cons {js : List Join} {path : List String} {k : Join}
    (h : Reached js path k) : ∃ j ∈ js, ∃ rest, path = j.name :: rest := by
  cases h with
  | top hj => exact ⟨k, hj, [], rfl⟩
  | under hj _ => exact ⟨_, hj, _, rfl⟩

theorem Reached.ne_nil {js : List Join} {path : List String} {k : Join} (h : Reached js path k) :
    path ≠ [] := by
  obtain ⟨_, _, _, rfl⟩ := h.exists_eq_cons
  exact List.cons_ne_nil _ _

theorem paths_cons (j : Join) (js : List Join) :
    paths (j :: js) = [j.name] :: (paths j.children).map (j.name :: ·) ++ paths js := by
  rw [paths, addressedAll, addressed_eq, paths, paths, List.map_append, List.map_cons,
    List.map_map, List.map_map]
  rfl

mutual

theorem nodup_paths_children : (j : Join) → DistinctNames j.children → (paths j.children).Nodup
  | ⟨_, _, _, _, children⟩, h => nodup_paths children h

/-- With distinct names, no path leads to two joins: the paths through one join start with its name,
and those through the others do not. -/
theorem nodup_paths : (js : List Join) → DistinctNames js → (paths js).Nodup
  | [], _ => List.nodup_nil
  | j :: js, h => by
    have hother : ∀ k ∈ js, j.name ≠ k.name := by
      intro k hk heq
      have htop : (j.name :: js.map name).Nodup := (distinctNames_iff.mp h).1
      exact (List.nodup_cons.mp htop).1 (heq ▸ List.mem_map_of_mem hk)
    have hself : [j.name] ∉ (paths j.children).map (j.name :: ·) := by
      intro hmem
      obtain ⟨path, hpath, heq⟩ := List.mem_map.mp hmem
      obtain ⟨k, hk⟩ := mem_paths_iff.mp hpath
      exact hk.ne_nil (List.cons.inj heq).2
    have hbelow := (nodup_paths_children j (h.children List.mem_cons_self)).map
      (List.cons_injective (a := j.name))
    rw [paths_cons, List.nodup_append']
    refine ⟨List.nodup_cons.mpr ⟨hself, hbelow⟩, nodup_paths js h.tail, ?_⟩
    intro path hpath hpath'
    obtain ⟨k, hk⟩ := mem_paths_iff.mp hpath'
    obtain ⟨i, hi, rest, rfl⟩ := hk.exists_eq_cons
    obtain heq | hmem := List.mem_cons.mp hpath
    · exact hother i hi (List.cons.inj heq).1.symm
    · obtain ⟨_, -, heq⟩ := List.mem_map.mp hmem
      exact hother i hi (List.cons.inj heq).1

end

/-! ### Paths that read the same -/

theorem pathFrom_eq {root : String} {path : List String} (h : path ≠ []) :
    pathFrom root path = pathName root ("_".intercalate path) :=
  String.intercalate_cons_of_ne_nil h

theorem pathFrom_inj {root : String} {path path' : List String} (h : path ≠ []) (h' : path' ≠ []) :
    pathFrom root path = pathFrom root path' ↔ "_".intercalate path = "_".intercalate path' := by
  rw [pathFrom_eq h, pathFrom_eq h', pathName, pathName, String.append_right_inj]

theorem pathName_ne (root name : String) : pathName root name ≠ root := by
  intro h
  have hlength := congrArg String.length h
  rw [pathName, String.length_append, String.length_append] at hlength
  have hmark : "_".length = 1 := rfl
  omega

/-- Two names with an underscore and any text after them read the same only if they are the same,
or if one of them goes on as the other one's underscore and some text. -/
theorem eq_or_extends {a b g g' : String} (h : a ++ "_" ++ g = b ++ "_" ++ g') :
    (a = b ∧ g = g') ∨ (∃ text, a = b ++ "_" ++ text) ∨ ∃ text, b = a ++ "_" ++ text := by
  have hmark : "_".toList = ['_'] := rfl
  have hlist := congrArg String.toList h
  simp only [String.toList_append, hmark, List.append_assoc, List.singleton_append] at hlist
  have hextends {x y : String} {l : List Char} {c : Char} {u v : List Char}
      (hl : x.toList = y.toList ++ c :: l) (hc : '_' :: u = (c :: l) ++ v) :
      ∃ text, x = y ++ "_" ++ text := by
    refine ⟨String.ofList l, String.toList_inj.mp ?_⟩
    rw [hl, ← (List.cons.inj hc).1]
    simp [hmark]
  obtain ⟨l, hb, hg⟩ | ⟨l, ha, hg⟩ := List.append_eq_append_iff.mp hlist
  · cases l with
    | nil =>
      rw [List.append_nil, String.toList_inj] at hb
      exact Or.inl ⟨hb.symm, String.toList_inj.mp (List.cons.inj hg).2⟩
    | cons c l => exact Or.inr (Or.inr (hextends hb hg))
  · cases l with
    | nil =>
      rw [List.append_nil, String.toList_inj] at ha
      exact Or.inl ⟨ha, (String.toList_inj.mp (List.cons.inj hg).2).symm⟩
    | cons c l => exact Or.inr (Or.inl (hextends ha hg))

/-- Where names are distinct among siblings and no sibling extends one, paths that read the same are
the same. -/
theorem Reached.path_eq {js : List Join} (hnames : DistinctNames js) (hfree : Unextended js)
    {path path' : List String} {k k' : Join} (h : Reached js path k) (h' : Reached js path' k')
    (heq : "_".intercalate path = "_".intercalate path') : path = path' := by
  have hjoined {name : String} {rest : List String} {k : Join} {ls : List Join}
      (hk : Reached ls rest k) : "_".intercalate (name :: rest) =
        name ++ "_" ++ "_".intercalate rest := pathFrom_eq hk.ne_nil
  induction h generalizing path' k' with
  | @top js j hj =>
    cases h' with
    | top hi =>
      rw [String.intercalate_singleton, String.intercalate_singleton] at heq
      rw [heq]
    | @under _ _ i _ hi hk' =>
      rw [String.intercalate_singleton, hjoined hk'] at heq
      exact absurd heq (hfree.ne hj hi _)
  | @under js rest j k hj hk ih =>
    cases h' with
    | top hi =>
      rw [String.intercalate_singleton, hjoined hk] at heq
      exact absurd heq.symm (hfree.ne hi hj _)
    | @under _ _ i _ hi hk' =>
      rw [hjoined hk, hjoined hk'] at heq
      obtain ⟨hname, hrest⟩ | ⟨text, hj'⟩ | ⟨text, hi'⟩ := eq_or_extends heq
      · obtain rfl := hnames.eq_of_name hj hi hname
        rw [ih (hnames.children hj) (hfree.children hj) hk' hrest]
      · exact absurd hj' (hfree.ne hj hi text)
      · exact absurd hi' (hfree.ne hi hj text)

end Join

namespace Query

/-- The tables that are joined have the identifiers of the joins that are walked. -/
theorem Resolves.identifiers_joins {q : Query} {s : Statement} (h : q.Resolves s) :
    s.joins.map (fun j => j.source.identifier) =
      ((Join.walkAll q.source q.joins).map Prod.snd).map fun j => j.right.identifier := by
  rw [List.map_map, ← List.forall₂_eq_eq_eq, List.forall₂_map_left_iff,
    List.forall₂_map_right_iff]
  refine h.joins.flip.imp fun clause step hclause => ?_
  obtain ⟨e, -, rfl⟩ := hclause
  rfl

/-- The tables of a statement are known by the paths to their joins, depth first. -/
theorem tableIdentifiers_build {t : TableRef} {calls : List Call} {s : Statement}
    (h : ((ofTable t).build calls).statement = .ok s) :
    s.tableIdentifiers = t.identifier ::
      (Join.paths ((ofTable t).build calls).joins).map (Join.pathFrom t.identifier) := by
  have hr := resolves_of_statement h
  have hsource : s.source.identifier = t.identifier := by
    rw [hr.source, source_build]
    rfl
  have hjoins : ((ofTable t).build calls).joins =
      (attached calls).map (Join.rebase t.identifier) := joins_build (ofTable t) calls
  generalize (ofTable t).build calls = q at hr hjoins
  rw [Statement.tableIdentifiers, hsource, hr.identifiers_joins, ← Join.snd_addressedAll,
    Join.paths, List.map_map, List.map_map]
  refine congrArg (t.identifier :: ·) (List.map_congr_left fun step hstep => ?_)
  have hreached := Join.mem_addressedAll_iff.mp hstep
  rw [hjoins] at hreached
  rw [Function.comp_apply, hreached.right_eq]
  rfl

/-- Where no two joins of one parent have the same name, the tables of a statement have distinct
identifiers exactly if no two paths to joins read the same, and so they have if none of the names
is extended by a sibling's. Where names stand between marks, these are the identifiers that are
found in the text. -/
theorem compile_tableIdentifiers {t : TableRef} {calls : List Call} {ctx : Context} {c : Compiled}
    (hnames : Join.DistinctNames ((ofTable t).build calls).joins)
    (h : ((ofTable t).build calls).compile ctx = .ok c) :
    let q := (ofTable t).build calls
    ∃ s, q.statement = .ok s ∧ c = s.render ctx ∧
      (∀ mark, ctx.quoting.mark? = some mark →
        c.tableIdentifiers mark = some s.tableIdentifiers) ∧
      (s.tableIdentifiers.Nodup ↔ ∀ path j path' j', Join.Reached q.joins path j →
        Join.Reached q.joins path' j' → "_".intercalate path = "_".intercalate path' →
        path = path') ∧
      (Join.Unextended q.joins → s.tableIdentifiers.Nodup) := by
  intro q
  obtain ⟨s, hs, hc⟩ := exists_statement h
  have hroot : t.identifier ∉ (Join.paths q.joins).map (Join.pathFrom t.identifier) := by
    intro hmem
    obtain ⟨path, hpath, heq⟩ := List.mem_map.mp hmem
    obtain ⟨j, hj⟩ := Join.mem_paths_iff.mp hpath
    rw [Join.pathFrom_eq hj.ne_nil] at heq
    exact Join.pathName_ne _ _ heq
  have hiff : s.tableIdentifiers.Nodup ↔ ∀ path j path' j', Join.Reached q.joins path j →
      Join.Reached q.joins path' j' → "_".intercalate path = "_".intercalate path' →
      path = path' := by
    rw [tableIdentifiers_build hs, List.nodup_cons, and_iff_right hroot,
      List.nodup_map_iff_inj_on (Join.nodup_paths q.joins hnames)]
    constructor
    · intro hinj path j path' j' hj hj' heq
      exact hinj path (Join.mem_paths_iff.mpr ⟨j, hj⟩) path' (Join.mem_paths_iff.mpr ⟨j', hj'⟩)
        ((Join.pathFrom_inj hj.ne_nil hj'.ne_nil).mpr heq)
    · intro hpaths path hpath path' hpath' heq
      obtain ⟨j, hj⟩ := Join.mem_paths_iff.mp hpath
      obtain ⟨j', hj'⟩ := Join.mem_paths_iff.mp hpath'
      exact hpaths path j path' j' hj hj' ((Join.pathFrom_inj hj.ne_nil hj'.ne_nil).mp heq)
  refine ⟨s, hs, hc, fun mark hmark => ?_, hiff,
    fun hfree => hiff.mpr fun path j path' j' hj hj' heq => ?_⟩
  · rw [hc, (legible_of_statement hs).tableIdentifiers_render hmark]
  · exact hj.path_eq hnames hfree hj' heq

/-- Two joins with one name that hang from different tables, beside a name with an underscore. -/
theorem compile_tableIdentifiers_comments :
    let key (name : String) : Field := ⟨name, .int .int64, name, rfl⟩
    let user : Model := ⟨"User", "users", [key "id"], by simp⟩
    let post : Model := ⟨"Post", "posts", [key "id", key "author_id"], by decide⟩
    let comment : Model := ⟨"Comment", "comments", [key "post_id", key "commenter_id"], by decide⟩
    let users : Table := ⟨user, [⟨"blog_posts", user, post, "author_id", "id", rfl, rfl⟩,
      ⟨"comments", user, comment, "commenter_id", "id", rfl, rfl⟩], by simp⟩
    let posts : Table := ⟨post, [⟨"comments", post, comment, "post_id", "id", rfl, rfl⟩], by simp⟩
    ∃ j k i, users.rel "blog_posts" = .ok j ∧ posts.rel "comments" = .ok k ∧
      users.rel "comments" = .ok i ∧
      let q := (ofTable users.ref).build [.innerJoin (j.innerJoin k), .innerJoin i]
      Join.DistinctNames q.joins ∧ ∃ s, q.statement = .ok s ∧
        q.compile (.ofDialect .sqlite) = .ok (s.render (.ofDialect .sqlite)) ∧
        (s.render (.ofDialect .sqlite)).tableIdentifiers '"' =
          some ["users", "users_blog_posts", "users_blog_posts_comments", "users_comments"] ∧
        Join.Unextended q.joins ∧ s.tableIdentifiers.Nodup := by
  intro key user post comment users posts
  refine ⟨_, _, _, rfl, rfl, rfl, ?_⟩
  intro q
  have hnames : Join.DistinctNames q.joins := by
    refine Join.distinctNames_iff.mpr ⟨by decide, List.forall_mem_cons.mpr ⟨?_,
      List.forall_mem_singleton.mpr Join.distinctNames_nil⟩⟩
    exact Join.distinctNames_iff.mpr ⟨by decide,
      List.forall_mem_singleton.mpr Join.distinctNames_nil⟩
  have htop : ∀ a ∈ ["blog_posts", "comments"], ∀ b ∈ ["blog_posts", "comments"], ∀ text,
      a ≠ b ++ "_" ++ text := by
    simp only [List.forall_mem_cons]
    simp [← String.toList_inj]
  have hbelow : ∀ a ∈ ["comments"], ∀ b ∈ ["comments"], ∀ text, a ≠ b ++ "_" ++ text := by
    simp only [List.forall_mem_cons]
    simp [← String.toList_inj]
  have hfree : Join.Unextended q.joins := by
    refine Join.unextended_iff.mpr
      ⟨fun j hj k hk => htop _ (List.mem_map_of_mem hj) _ (List.mem_map_of_mem hk),
        List.forall_mem_cons.mpr ⟨?_, List.forall_mem_singleton.mpr Join.unextended_nil⟩⟩
    exact Join.unextended_iff.mpr
      ⟨fun j hj k hk => hbelow _ (List.mem_map_of_mem hj) _ (List.mem_map_of_mem hk),
        List.forall_mem_singleton.mpr Join.unextended_nil⟩
  have hcompile : ∃ c, q.compile (.ofDialect .sqlite) = .ok c := ⟨_, rfl⟩
  obtain ⟨c, hc⟩ := hcompile
  obtain ⟨s, hs, rfl, hread, -, hnodup⟩ := compile_tableIdentifiers hnames hc
  have hidentifiers : s.tableIdentifiers =
      ["users", "users_blog_posts", "users_blog_posts_comments", "users_comments"] := by
    cases hs
    decide
  exact ⟨hnames, s, hs, hc, hidentifiers ▸ hread '"' rfl, hfree, hnodup hfree⟩

/-- A relation whose name reads as a path beside it: the comments of a user and those on the posts
of the user are both brought in as `users_posts_comments`. -/
theorem tableIdentifiers_not_nodup :
    let key (name : String) : Field := ⟨name, .int .int64, name, rfl⟩
    let user : Model := ⟨"User", "users", [key "id"], by simp⟩
    let post : Model := ⟨"Post", "posts", [key "id", key "author_id"], by decide⟩
    let comment : Model := ⟨"Comment", "comments", [key "post_id", key "commenter_id"], by decide⟩
    let users : Table := ⟨user, [⟨"posts", user, post, "author_id", "id", rfl, rfl⟩,
      ⟨"posts_comments", user, comment, "commenter_id", "id", rfl, rfl⟩], by simp⟩
    let posts : Table := ⟨post, [⟨"comments", post, comment, "post_id", "id", rfl, rfl⟩], by simp⟩
    ∃ j k i, users.rel "posts" = .ok j ∧ posts.rel "comments" = .ok k ∧
      users.rel "posts_comments" = .ok i ∧
      let q := (ofTable users.ref).build [.innerJoin (j.innerJoin k), .innerJoin i]
      Join.DistinctNames q.joins ∧ ∃ s, q.statement = .ok s ∧
        q.compile (.ofDialect .sqlite) = .ok (s.render (.ofDialect .sqlite)) ∧
        (s.render (.ofDialect .sqlite)).tableIdentifiers '"' =
          some ["users", "users_posts", "users_posts_comments", "users_posts_comments"] ∧
        ¬ s.tableIdentifiers.Nodup := by
  intro key user post comment users posts
  refine ⟨_, _, _, rfl, rfl, rfl, ?_⟩
  intro q
  have hnames : Join.DistinctNames q.joins := by
    refine Join.distinctNames_iff.mpr ⟨by decide, List.forall_mem_cons.mpr ⟨?_,
      List.forall_mem_singleton.mpr Join.distinctNames_nil⟩⟩
    exact Join.distinctNames_iff.mpr ⟨by decide,
      List.forall_mem_singleton.mpr Join.distinctNames_nil⟩
  have hstatement : ∃ s, q.statement = .ok s ∧ s.tableIdentifiers =
      ["users", "users_posts", "users_posts_comments", "users_posts_comments"] :=
    ⟨_, rfl, by decide⟩
  obtain ⟨s, hs, hidentifiers⟩ := hstatement
  have hread := (legible_of_statement hs).tableIdentifiers_render
    (show (Context.ofDialect .sqlite).quoting.mark? = some '"' from rfl)
  refine ⟨hnames, s, hs, by rw [compile, hs]; rfl, hidentifiers ▸ hread, ?_⟩
  rw [hidentifiers]
  decide

end Query

end SqlCompose
