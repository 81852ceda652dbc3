import SqlCompose.Proofs.Loader.Gathering

/-!
# Batches in any order

The relations of a batch finish in an order that nobody chooses, and are waited for by something
that is not part of the loader. Of this only that is used which is relied on: a batch then comes to
the maps of all its relations, each made of its own rows and all in the order of the relations, or
it fails with the error of a relation that fails. Two ways of waiting, or answers that come at other
times, make no difference to the maps.

## Main definitions

* `Relation.outcome`, `Loader.outcomes`: what relations come to by themselves.

## Main results

* `Fetch.result_start`: the fetch of a relation comes to what the relation does by itself.
* `Loader.load_completes`: what a loaded batch comes to, in whatever order its relations finish.
-/

namespace SqlCompose

/-- What a relation comes to for some parents, when its statement is answered: the rows of its
query, read back and grouped. -/
def Relation.outcome (r : Relation) (ctx : Context)
    (answer : Compiled → Except Error (List Row)) (m : Model) (parents : List Record) :
    Except Error RelationMap := do
  match ← r.batchQuery m parents with
  | none => return .empty r
  | some q => RelationMap.ofOutputs r (← q.materialize (← answer (← q.compile ctx)))

/-- The fetch of a relation comes to what the relation does by itself. -/
theorem Fetch.result_start {b : Backend} {place : Nat} {r : Relation} {m : Model}
    {parents : List Record} {query : Option Query} (h : r.batchQuery m parents = .ok query) :
    (start b place r query).result = r.outcome b.context (b.answerAt place) m parents := by
  rw [Relation.outcome, h]
  cases query with
  | none => rfl
  | some q =>
    simp only [start, bind, Except.bind]
    cases q.compile b.context with
    | error e => rfl
    | ok c =>
      dsimp only
      cases b.answerAt place c <;> rfl

namespace Loader

/-- What each relation of a batch comes to by itself, answered at its place. -/
def outcomes (l : Loader) (b : Backend) (m : Model) (parents : List Record) :
    List (Except Error RelationMap) :=
  l.relations.zipIdx.map fun (r, place) => r.outcome b.context (b.answerAt place) m parents

variable {l : Loader} {b : Backend} {m : Model} {parents : List Record}

theorem result_fetches {queries : List (Option Query)} (h : l.queries m parents = .ok queries) :
    (l.fetches b queries).map Fetch.result = l.outcomes b m parents := by
  replace h := mapM_eq_ok_iff_forall₂.mp h
  rw [fetches, outcomes]
  generalize 0 = place
  generalize l.relations = relations at h
  induction h generalizing place with
  | nil => rfl
  | cons hq _ ih => exact congrArg₂ List.cons (Fetch.result_start hq) (ih (place + 1))

theorem error_mem_outcomes {e : Error} (h : l.queries m parents = .error e) :
    .error e ∈ l.outcomes b m parents := by
  obtain ⟨r, hr, he⟩ := exists_of_mapM_eq_error h
  obtain ⟨place, hplace⟩ := List.mem_iff_getElem?.mp hr
  have houtcome : r.outcome b.context (b.answerAt place) m parents = .error e := by
    rw [Relation.outcome, he]
    rfl
  exact List.mem_map.mpr ⟨(r, place), List.mem_zipIdx_iff_getElem?.mpr hplace, houtcome⟩

theorem result_load_eq_ok_iff {gather : Gather} (hgather : gather.Lawful)
    {maps : List RelationMap} : (l.load b m parents gather).result = .ok maps ↔
      l.outcomes b m parents = maps.map .ok := by
  rw [load]
  cases hqueries : l.queries m parents with
  | error e =>
    constructor
    · intro h
      cases h
    · intro h
      have hmem := error_mem_outcomes (b := b) hqueries
      rw [h] at hmem
      simp at hmem
  | ok queries =>
    rw [← result_fetches hqueries]
    exact hgather.result_eq_ok_iff

/-- A batch that fails does so with what one of its relations fails with. -/
theorem error_mem_of_result_load {gather : Gather} (hgather : gather.Lawful) {e : Error}
    (h : (l.load b m parents gather).result = .error e) : .error e ∈ l.outcomes b m parents := by
  rw [load] at h
  cases hqueries : l.queries m parents with
  | error e' =>
    rw [hqueries] at h
    cases h
    exact error_mem_outcomes hqueries
  | ok queries =>
    rw [hqueries] at h
    obtain ⟨f, hf, hresult⟩ := hgather.exists_of_result_eq_error h
    rw [← result_fetches hqueries, ← hresult]
    exact List.mem_map_of_mem hf

/-- A batch comes to maps exactly if each relation of it does by itself, at its place and answered
with its own rows, and the maps are theirs in the order of the relations. It fails exactly if one of
them does, and with the error of one that fails. This is so for every lawful way of waiting: waiting
in another way, or for answers that come at other times, comes to the same maps. -/
theorem load_completes (l : Loader) (b : Backend) (m : Model) (parents : List Record)
    {gather : Gather} (hgather : gather.Lawful) :
    (∀ maps, (l.load b m parents gather).result = .ok maps ↔
      l.outcomes b m parents = maps.map .ok) ∧
    ((∃ e, (l.load b m parents gather).result = .error e) ↔
      ∃ e, .error e ∈ l.outcomes b m parents) ∧
    (∀ e, (l.load b m parents gather).result = .error e → .error e ∈ l.outcomes b m parents) ∧
    ∀ other : Gather, other.Lawful → ∀ delay maps,
      (l.load { b with delay } m parents other).result = .ok maps ↔
        (l.load b m parents gather).result = .ok maps := by
  refine ⟨fun maps => result_load_eq_ok_iff hgather, ⟨?_, ?_⟩,
    fun e => error_mem_of_result_load hgather, fun other hother delay maps => ?_⟩
  · rintro ⟨e, he⟩
    exact ⟨e, error_mem_of_result_load hgather he⟩
  · rintro ⟨e, he⟩
    cases hresult : (l.load b m parents gather).result with
    | error e' => exact ⟨e', rfl⟩
    | ok maps =>
      rw [(result_load_eq_ok_iff hgather).mp hresult] at he
      simp at he
  · rw [result_load_eq_ok_iff hother, result_load_eq_ok_iff hgather]
    rfl

/-- One relation twice, with a row for the first and none for the second, and then with a failure
of the second. The first finishes before the second or after it, or both are waited for by
rounds. -/
theorem load_completes_repeated :
    let user : Model := ⟨"User", "users", [⟨"id", .int .int64, "id", rfl⟩], by simp⟩
    let same : Relation := ⟨"same", user, user, "id", "id", rfl, rfl⟩
    let l : Loader := ⟨[same, same]⟩
    let one : Record := ⟨user, [.int 1], rfl⟩
    let b (second : Except Error (List Row)) : Backend := ⟨.ofDialect .sqlite, fun _ => .ok [],
      fun _ _ => 0, fun place _ => if place = 0 then .ok [[.integer 1]] else second⟩
    let maps : List RelationMap := [⟨same, [(.integer 1, [one])]⟩, .empty same]
    let broken := b (.error (.execution "gone"))
    let forward : Gather := .completing fun fs => List.range fs.length
    let backward : Gather := .completing fun fs => (List.range fs.length).reverse
    ∀ gather ∈ [forward, backward, .inRounds], gather.Lawful ∧
      (∀ delay, (l.load { b (.ok []) with delay } user [one] gather).result = .ok maps) ∧
      (l.load broken user [one] gather).result = .error (.execution "gone") := by
  intro user same l one b maps broken forward backward gather hgather
  have hlawful : ∀ gather ∈ [forward, backward, .inRounds], gather.Lawful := by
    simp only [List.forall_mem_cons]
    exact ⟨Gather.lawful_completing fun fs => .refl _,
      Gather.lawful_completing fun fs => List.reverse_perm _, Gather.lawful_inRounds, by simp⟩
  have houtcomes : l.outcomes broken user [one] =
      [.ok ⟨same, [(.integer 1, [one])]⟩, .error (.execution "gone")] := rfl
  have hall : .error (.execution "gone") ∈ l.outcomes broken user [one] := by
    simp [houtcomes]
  obtain ⟨hmaps, -, -, hother⟩ := load_completes l (b (.ok [])) user [one] Gather.lawful_inRounds
  obtain ⟨-, hfails, herror, -⟩ := load_completes l broken user [one] (hlawful gather hgather)
  refine ⟨hlawful gather hgather, fun delay => ?_, ?_⟩
  · exact (hother gather (hlawful gather hgather) delay maps).mpr ((hmaps maps).mpr rfl)
  · obtain ⟨e, he⟩ := hfails.mpr ⟨_, hall⟩
    have hmem := herror e he
    rw [houtcomes] at hmem
    obtain rfl : e = .execution "gone" := by simpa using hmem
    exact he

end Loader

end SqlCompose
