import SqlCompose.Loader.Batch
import SqlCompose.Proofs.Query.Clauses

/-!
# Waiting for fetches together

What a batch of fetches comes to follows from what is relied on of the waiting alone: maps exactly
if every fetch comes to one, and otherwise the error of a fetch that fails. A batch that comes to
maps has started every fetch, since it has seen the result of each.

The fetches may finish in any order. One that comes to a map fills its place among the maps, and one
that fails ends the batch with its error; what is filled after some have finished depends on which
ones they are, and not on their order. So every order is a lawful way of waiting, and waiting by
rounds is another.

## Main definitions

* `Fetch.finish`, `Fetch.complete`: one fetch finishes, and all of them do in some order.
* `Fetch.filled`: the maps that are there once some fetches have finished.
* `Gather.completing`: waiting for fetches that finish in a given order.

## Main results

* `Gather.Lawful.result_eq_ok_iff`, `Gather.Lawful.exists_of_result_eq_error`,
  `Gather.Lawful.sent_eq`: what a batch comes to, and what it has sent then.
* `Fetch.finish_filled`, `Fetch.foldlM_finish`: one fetch that finishes, and any run of them.
* `Gather.lawful_completing`, `Gather.lawful_inRounds`: lawful ways of waiting.
-/

namespace SqlCompose

namespace Fetch

variable {fs : List Fetch}

theorem error?_eq_some_iff {f : Fetch} {e : Error} : f.error? = some e ↔ f.result = .error e := by
  rw [error?]
  cases f.result with
  | error e' => simp
  | ok map => simp

theorem failureAt_eq_some_iff {place : Nat} {e : Error} :
    failureAt fs place = some e ↔ ∃ f, fs[place]? = some f ∧ f.result = .error e := by
  simp only [failureAt, Option.bind_eq_some_iff, error?_eq_some_iff]

/-- Where no place has a failure, every fetch comes to a map. -/
theorem exists_maps (h : ∀ place < fs.length, failureAt fs place = none) :
    ∃ maps : List RelationMap, fs.map result = maps.map .ok := by
  cases hmaps : fs.mapM result with
  | ok maps => exact ⟨maps, mapM_eq_ok_iff_map.mp hmaps⟩
  | error e =>
    obtain ⟨f, hf, he⟩ := exists_of_mapM_eq_error hmaps
    obtain ⟨place, hplace⟩ := List.mem_iff_getElem?.mp hf
    have hnone := h place (List.getElem?_eq_some_iff.mp hplace).1
    rw [failureAt_eq_some_iff.mpr ⟨f, hplace, he⟩] at hnone
    cases hnone

theorem failureAt_eq_none {maps : List RelationMap} (h : fs.map result = maps.map .ok)
    (place : Nat) : failureAt fs place = none := by
  refine Option.eq_none_iff_forall_ne_some.mpr fun e he => ?_
  obtain ⟨f, hf, he⟩ := failureAt_eq_some_iff.mp he
  have hresult : f.result ∈ maps.map .ok := h ▸ List.mem_map_of_mem (List.mem_of_getElem? hf)
  rw [he] at hresult
  obtain ⟨map, -, hmap⟩ := List.mem_map.mp hresult
  cases hmap

end Fetch

/-! ### What is relied on -/

namespace Gather

variable {g : Gather} {fs : List Fetch}

/-- A batch comes to maps exactly if each of its fetches does. -/
theorem Lawful.result_eq_ok_iff (h : g.Lawful) {maps : List RelationMap} :
    (g.run fs).result = .ok maps ↔ fs.map Fetch.result = maps.map .ok := by
  obtain ⟨started, seen, hcourse⟩ := h fs
  refine ⟨fun hmaps => ?_, hcourse.input_order maps⟩
  cases hfailure : seen.findSome? (Fetch.failureAt fs) with
  | some e =>
    rw [hcourse.first_error e hfailure] at hmaps
    cases hmaps
  | none =>
    have hall := hcourse.seen_all hfailure
    obtain ⟨maps', hmaps'⟩ := Fetch.exists_maps fun place hplace =>
      List.findSome?_eq_none_iff.mp hfailure place (hall place hplace)
    cases (hcourse.input_order maps' hmaps').symm.trans hmaps
    exact hmaps'

/-- A batch that fails does so with the error of one of its fetches. -/
theorem Lawful.exists_of_result_eq_error (h : g.Lawful) {e : Error}
    (he : (g.run fs).result = .error e) : ∃ f ∈ fs, f.result = .error e := by
  obtain ⟨started, seen, hcourse⟩ := h fs
  cases hfailure : seen.findSome? (Fetch.failureAt fs) with
  | some e' =>
    cases (hcourse.first_error e' hfailure).symm.trans he
    obtain ⟨place, -, hplace⟩ := List.exists_of_findSome?_eq_some hfailure
    obtain ⟨f, hf, hresult⟩ := Fetch.failureAt_eq_some_iff.mp hplace
    exact ⟨f, List.mem_of_getElem? hf, hresult⟩
  | none =>
    have hall := hcourse.seen_all hfailure
    obtain ⟨maps, hmaps⟩ := Fetch.exists_maps fun place hplace =>
      List.findSome?_eq_none_iff.mp hfailure place (hall place hplace)
    cases (hcourse.input_order maps hmaps).symm.trans he

/-- A batch that comes to maps has sent the statements of all its fetches, in their order. -/
theorem Lawful.sent_eq (h : g.Lawful) {maps : List RelationMap}
    (hmaps : (g.run fs).result = .ok maps) :
    (g.run fs).sent = fs.filterMap Fetch.statement := by
  have hnone := Fetch.failureAt_eq_none (h.result_eq_ok_iff.mp hmaps)
  obtain ⟨started, seen, hcourse⟩ := h fs
  have hall := hcourse.seen_all (List.findSome?_eq_none_iff.mpr fun place _ => hnone place)
  have hlength : fs.length ≤ started := by
    -- the last fetch was seen, so that as many were started as there are
    by_cases hempty : fs.length = 0
    · omega
    · have hlast := hcourse.seen_started _ (hall (fs.length - 1) (by omega))
      omega
  rw [hcourse.first_poll, List.take_of_length_le hlength]

end Gather

/-! ### Any order -/

namespace Fetch

/-- The map that the fetch comes to. -/
def map? (f : Fetch) : Option RelationMap := f.result.toOption

/-- The fetch at a place finishes: its map fills the place, or its error ends the batch. -/
def finish (fs : List Fetch) (maps : List (Option RelationMap)) (place : Nat) :
    Except Error (List (Option RelationMap)) :=
  match fs[place]? with
  | some f => f.result.map fun map => maps.set place (some map)
  | none => .ok maps

/-- The fetches finish in the order of the places. -/
def complete (fs : List Fetch) (order : List Nat) : Except Error (List (Option RelationMap)) :=
  order.foldlM (finish fs) (fs.map fun _ => none)

/-- The maps of the fetches at the places, each in its own place. -/
def filled (fs : List Fetch) (places : List Nat) : List (Option RelationMap) :=
  fs.mapIdx fun place f => if place ∈ places then f.map? else none

variable {fs : List Fetch}

/-- A fetch that finishes adds its map to those that are there, or ends the batch. -/
theorem finish_filled {place : Nat} (h : place < fs.length) (places : List Nat) :
    finish fs (filled fs places) place =
      match failureAt fs place with
      | some e => .error e
      | none => .ok (filled fs (place :: places)) := by
  rw [finish, failureAt, List.getElem?_eq_getElem h, Option.bind_some, error?]
  cases hresult : fs[place].result with
  | error e => simp [hresult, Except.map]
  | ok map =>
    have hset : (filled fs places).set place (some map) = filled fs (place :: places) := by
      refine List.ext_getElem? fun i => ?_
      rw [List.getElem?_set, filled, filled, List.getElem?_mapIdx, List.getElem?_mapIdx,
        List.length_mapIdx]
      by_cases hi : place = i
      · subst hi
        simp [h, map?, hresult, Except.toOption]
      · simp [hi, Ne.symm hi]
    simp [hresult, Except.map, hset]

/-- After some fetches, their maps are there, and no other, unless one of them has failed: then the
batch has ended with the first failure. -/
theorem foldlM_finish {order : List Nat} (h : ∀ place ∈ order, place < fs.length)
    (places : List Nat) :
    order.foldlM (finish fs) (filled fs places) =
      match order.findSome? (failureAt fs) with
      | some e => .error e
      | none => .ok (filled fs (order.reverse ++ places)) := by
  induction order generalizing places with
  | nil => rfl
  | cons place order ih =>
    obtain ⟨hplace, horder⟩ := List.forall_mem_cons.mp h
    rw [List.foldlM_cons, finish_filled hplace, List.findSome?_cons]
    cases failureAt fs place with
    | some e => rfl
    | none =>
      rw [List.reverse_cons, List.append_assoc]
      exact ih horder (place :: places)

/-- Once all fetches have finished, the maps are theirs. -/
theorem filled_eq_map {places : List Nat} (h : ∀ place < fs.length, place ∈ places)
    {maps : List RelationMap} (hmaps : fs.map result = maps.map .ok) :
    filled fs places = maps.map some := by
  have hfilled : filled fs places = (fs.map result).map Except.toOption := by
    refine List.ext_getElem? fun i => ?_
    rw [filled, List.getElem?_mapIdx, List.getElem?_map, List.getElem?_map]
    by_cases hi : i < fs.length
    · simp only [h i hi, if_true, Option.map_map]
      rfl
    · simp [List.getElem?_eq_none (Nat.le_of_not_lt hi)]
  rw [hfilled, hmaps, List.map_map]
  rfl

/-- All fetches in some order: their maps, or the failure that is met first. -/
theorem complete_eq {order : List Nat} (h : order.Perm (List.range fs.length)) :
    complete fs order =
      match order.findSome? (failureAt fs) with
      | some e => .error e
      | none => .ok (filled fs order.reverse) := by
  have hnone : (fs.map fun _ => none) = filled fs [] := by
    refine List.ext_getElem? fun i => ?_
    simp only [filled, List.getElem?_map, List.getElem?_mapIdx, List.not_mem_nil, if_false]
  rw [complete, hnone, foldlM_finish fun place hplace => List.mem_range.mp (h.mem_iff.mp hplace),
    List.append_nil]

end Fetch

namespace Gather

/-- Waiting for fetches that finish in an order that depends on what they come to, or on anything
else about them. All are started before the first has finished. -/
def completing (order : List Fetch → List Nat) : Gather where
  run fs := {
    sent := fs.filterMap Fetch.statement
    result := (Fetch.complete fs (order fs)).map (List.filterMap id) }

/-- Fetches may finish in every order. -/
theorem lawful_completing {order : List Fetch → List Nat}
    (h : ∀ fs, (order fs).Perm (List.range fs.length)) : (completing order).Lawful := by
  intro fs
  have hmem (place : Nat) : place ∈ order fs ↔ place < fs.length := by
    rw [(h fs).mem_iff, List.mem_range]
  refine ⟨fs.length, order fs, ?_, fun place => (hmem place).mp, fun _ place => (hmem place).mpr,
    fun e he => ?_, fun maps hmaps => ?_⟩
  · rw [List.take_length]
    rfl
  · have hcomplete : Fetch.complete fs (order fs) = .error e := by
      rw [Fetch.complete_eq (h fs), he]
    exact congrArg (Except.map (List.filterMap id)) hcomplete
  · have hnone : (order fs).findSome? (Fetch.failureAt fs) = none :=
      List.findSome?_eq_none_iff.mpr fun place _ => Fetch.failureAt_eq_none hmaps place
    have hfilled : Fetch.filled fs (order fs).reverse = maps.map some :=
      Fetch.filled_eq_map (fun place hplace => List.mem_reverse.mpr ((hmem place).mpr hplace)) hmaps
    have hcomplete : Fetch.complete fs (order fs) = .ok (maps.map some) := by
      rw [Fetch.complete_eq (h fs), hnone, hfilled]
    have hmaps' : (maps.map some).filterMap id = maps := by
      rw [List.filterMap_map]
      exact List.filterMap_some
    exact (congrArg (Except.map (List.filterMap id)) hcomplete).trans (congrArg Except.ok hmaps')

end Gather

/-! ### Rounds -/

namespace Fetch

variable {fs : List Fetch}

theorem upTo_prefix (p : Fetch → Bool) (fs : List Fetch) : upTo p fs <+: fs := by
  induction fs with
  | nil => exact List.prefix_refl _
  | cons f fs ih =>
    rw [upTo, List.prefix_cons_inj]
    split
    · exact List.nil_prefix
    · exact ih

/-- The fetches are cut off only behind one that satisfies the condition. -/
theorem upTo_eq_self {p : Fetch → Bool} {fs : List Fetch} (h : ∀ f ∈ upTo p fs, p f = false) :
    upTo p fs = fs := by
  induction fs with
  | nil => rfl
  | cons f fs ih =>
    rw [upTo] at h ⊢
    rw [h f List.mem_cons_self] at h ⊢
    rw [if_neg Bool.false_ne_true] at h ⊢
    rw [ih fun f' hf' => h f' (List.mem_cons_of_mem f hf')]

theorem started_prefix (fs : List Fetch) : started fs <+: fs := by
  rw [started]
  split
  · exact upTo_prefix _ fs
  · split
    · exact upTo_prefix _ fs
    · exact List.prefix_refl fs

/-- A batch that is cut off has started a fetch that fails. -/
theorem started_eq_self (h : ∀ f ∈ started fs, f.fails = false) : started fs = fs := by
  rw [started] at h ⊢
  split at h
  · next hsize =>
    rw [if_pos hsize]
    exact upTo_eq_self fun f hf => by rw [h f hf, Bool.and_false]
  · next hsize =>
    rw [if_neg hsize]
    split at h
    · next hany =>
      rw [if_pos hany]
      exact upTo_eq_self h
    · next hany => rw [if_neg hany]

theorem mem_seen {step : Fetch × Nat} : step ∈ seen fs ↔ step ∈ (started fs).zipIdx := by
  rw [seen]
  split
  · exact List.mem_mergeSort
  · exact Iff.rfl

theorem mem_seen_iff {step : Fetch × Nat} :
    step ∈ seen fs ↔ (started fs)[step.2]? = some step.1 := by
  rw [mem_seen, List.mem_zipIdx_iff_getElem?]

theorem getElem?_of_mem_seen {step : Fetch × Nat} (h : step ∈ seen fs) :
    fs[step.2]? = some step.1 := by
  obtain ⟨rest, hrest⟩ := started_prefix fs
  have hstarted := mem_seen_iff.mp h
  rw [← hrest, List.getElem?_append_left (List.getElem?_eq_some_iff.mp hstarted).1, hstarted]

end Fetch

/-- Waiting by rounds is lawful: by place, it sees what it has started. -/
theorem Gather.lawful_inRounds : inRounds.Lawful := by
  intro fs
  have hfailures : ((Fetch.seen fs).map Prod.snd).findSome? (Fetch.failureAt fs) =
      (Fetch.seen fs).findSome? fun step => step.1.error? := by
    rw [List.findSome?_map, ← List.head?_filterMap, ← List.head?_filterMap]
    refine congrArg List.head? (List.filterMap_congr fun step hstep => ?_)
    rw [Function.comp_apply, Fetch.failureAt, Fetch.getElem?_of_mem_seen hstep, Option.bind_some]
  refine ⟨(Fetch.started fs).length, (Fetch.seen fs).map Prod.snd, ?_, ?_, ?_, fun e he => ?_,
    fun maps hmaps => ?_⟩
  case refine_1 =>
    rw [← (List.prefix_iff_eq_take.mp (Fetch.started_prefix fs))]
    rfl
  case refine_2 =>
    intro place hplace
    obtain ⟨step, hstep, rfl⟩ := List.mem_map.mp hplace
    exact (List.getElem?_eq_some_iff.mp (Fetch.mem_seen_iff.mp hstep)).1
  case refine_3 =>
    intro hnone place hplace
    rw [hfailures, List.findSome?_eq_none_iff] at hnone
    have hstarted : Fetch.started fs = fs := Fetch.started_eq_self fun f hf => by
      obtain ⟨i, hi⟩ := List.mem_iff_getElem?.mp hf
      rw [Fetch.fails, hnone (f, i) (Fetch.mem_seen_iff.mpr hi)]
      rfl
    refine List.mem_map.mpr ⟨(fs[place], place), Fetch.mem_seen_iff.mpr ?_, rfl⟩
    rw [hstarted]
    exact List.getElem?_eq_getElem hplace
  case refine_4 =>
    rw [hfailures] at he
    simp only [inRounds, he]
  case refine_5 =>
    have hnone : ((Fetch.seen fs).findSome? fun step => step.1.error?) = none := by
      rw [← hfailures, List.findSome?_eq_none_iff]
      exact fun place _ => Fetch.failureAt_eq_none hmaps place
    simp only [inRounds, hnone]
    exact mapM_eq_ok_iff_map.mpr hmaps

end SqlCompose
