import Mathlib

namespace PackagedTask.Library

variable {σ β ι : Type}

/-! A loop that reads one record after another off a state, and stops where `step` finds none. -/

/-- The state each record was read in, and what was read. -/
def visits (step : σ → Option (β × σ)) : Nat → σ → List (σ × β)
  | 0, _ => []
  | count + 1, state => match step state with
      | none => []
      | some (seen, next) => (state, seen) :: visits step count next

def walk (step : σ → Option (β × σ)) : Nat → σ → Option σ
  | 0, state => some state
  | count + 1, state => match step state with
      | none => none
      | some (_, next) => walk step count next

section Step
variable {step : σ → Option (β × σ)} {count : Nat} {state next : σ} {seen : β}

theorem visits_of_none (stops : step state = none) : visits step (count + 1) state = [] := by
  rw [visits, stops]

theorem visits_of_some (reads : step state = some (seen, next)) :
    visits step (count + 1) state = (state, seen) :: visits step count next := by
  rw [visits, reads]

theorem walk_of_none (stops : step state = none) : walk step (count + 1) state = none := by
  rw [walk, stops]

theorem walk_of_some (reads : step state = some (seen, next)) :
    walk step (count + 1) state = walk step count next := by
  rw [walk, reads]

end Step

theorem visits_length_of_walk {step : σ → Option (β × σ)} {count : Nat} {state last : σ}
    (walked : walk step count state = some last) : (visits step count state).length = count := by
  induction count generalizing state with
  | zero => rfl
  | succ count ih =>
      rw [walk] at walked
      rw [visits]
      split at walked
      · cases walked
      · exact congrArg Nat.succ (ih walked)

def offsets : Nat → List Nat → List Nat
  | _, [] => []
  | start, width :: widths => start :: offsets (start + width) widths

/-- How a walk meets a list of records: it reads the readable ones and gets past the straight ones
as far as their widths say. -/
structure Follows (step : σ → Option (β × σ)) (place : σ → Nat) (Open : σ → Prop)
    (Ready : σ → List ι → Prop) (width : ι → Nat) (seen : ι → β) (Readable Straight : ι → Prop) :
    Prop where
  opens : ∀ {state items}, Ready state items → Open state
  stops : ∀ {state item items}, Ready state (item :: items) → ¬ Readable item → step state = none
  reads : ∀ {state item items}, Ready state (item :: items) → Readable item →
    ∃ next, step state = some (seen item, next) ∧ Open next ∧
      (Straight item → Ready next items ∧ place next = place state + width item) ∧
      (¬ Straight item → place next ≠ place state + width item)

/-- The records up to the first that is not straight. -/
def reached (Straight : ι → Prop) [DecidablePred Straight] : List ι → List ι
  | [] => []
  | item :: items => item :: if Straight item then reached Straight items else []

def unreached (Straight : ι → Prop) [DecidablePred Straight] : List ι → List ι
  | [] => []
  | item :: items => if Straight item then unreached Straight items else items

section Reached
variable {Straight : ι → Prop} [DecidablePred Straight] {items : List ι}

theorem reached_append_unreached (Straight : ι → Prop) [DecidablePred Straight] (items : List ι) :
    reached Straight items ++ unreached Straight items = items := by
  induction items with
  | nil => rfl
  | cons item items ih =>
      rw [reached, unreached]
      split
      · rw [List.cons_append, ih]
      · rfl

theorem reached_eq_iff :
    reached Straight items = items ↔ ∀ item ∈ items.dropLast, Straight item := by
  induction items with
  | nil => simp [reached]
  | cons item items ih =>
      rw [reached]
      cases items with
      | nil => simp [reached]
      | cons second items =>
          rw [List.dropLast_cons_cons, List.forall_mem_cons, ← ih]
          by_cases straight : Straight item
          · simp [straight]
          · simp [straight]

theorem unreached_none_iff {Kind : ι → Prop} :
    (∀ item ∈ unreached Straight items, ¬ Kind item) ↔
      items.Pairwise fun item later => ¬ Straight item → ¬ Kind later := by
  induction items with
  | nil => simp [unreached]
  | cons item items ih =>
      rw [unreached, List.pairwise_cons]
      by_cases straight : Straight item
      · simp [straight, ih]
      · rw [if_neg straight]
        constructor
        · intro none
          refine ⟨fun later inside _ => none later inside, List.pairwise_of_forall_mem_list ?_⟩
          intro _ _ later inside _
          exact none later inside
        · intro pairwise later inside
          exact pairwise.1 later inside straight

end Reached

namespace Follows
variable {step : σ → Option (β × σ)} {place : σ → Nat} {Open : σ → Prop}
  {Ready : σ → List ι → Prop} {width : ι → Nat} {seen : ι → β} {Readable Straight : ι → Prop}
  {state : σ} {items : List ι}

theorem places_eq_iff (follows : Follows step place Open Ready width seen Readable Straight)
    (ready : Ready state items) :
    (visits step items.length state).map (fun visit => place visit.1) =
        offsets (place state) (items.map width) ↔
      (∀ item ∈ items, Readable item) ∧ ∀ item ∈ items.dropLast, Straight item := by
  induction items generalizing state with
  | nil => simp [visits, offsets]
  | cons item items ih =>
      rw [List.length_cons, visits, List.map_cons, offsets, List.forall_mem_cons]
      by_cases readable : Readable item
      · obtain ⟨next, read, -, onward, astray⟩ := follows.reads ready readable
        simp only [read, List.map_cons, List.cons.injEq, true_and, readable]
        cases items with
        | nil => simp [visits, offsets]
        | cons second items =>
            rw [List.dropLast_cons_cons, List.forall_mem_cons (p := Straight)]
            by_cases straight : Straight item
            · obtain ⟨ready', place'⟩ := onward straight
              rw [← place', ih ready']
              simp [straight]
            · have moved := astray straight
              simp only [straight, false_and, and_false, iff_false]
              -- the second record would have to be read where the first one ends
              intro same
              rw [List.length_cons, visits, List.map_cons, offsets] at same
              split at same
              · cases same
              · exact moved (List.head_eq_of_cons_eq same)
      · simp [follows.stops ready readable, readable]

/-- The loop sees the records up to the first that it cannot read, or the first that throws it off
where nothing looks like a record. -/
theorem seen_takeWhile [DecidablePred Straight] [DecidablePred Readable]
    (follows : Follows step place Open Ready width seen Readable Straight) (Honest : ι → Prop)
    (ends : ∀ {state item second items next}, Ready state (item :: second :: items) →
      step state = some (seen item, next) → ¬ Straight item → Honest item → step next = none)
    (ready : Ready state items) (honest : ∀ item ∈ items.dropLast, ¬ Straight item → Honest item) :
    (visits step items.length state).map Prod.snd =
      (reached Straight (items.takeWhile fun item => Readable item)).map seen := by
  induction items generalizing state with
  | nil => rfl
  | cons item items ih =>
      by_cases readable : Readable item
      · obtain ⟨next, read, -, onward, -⟩ := follows.reads ready readable
        rw [List.length_cons, visits, read, List.takeWhile_cons, if_pos (decide_eq_true readable),
          reached, List.map_cons, List.map_cons]
        congr 1
        by_cases straight : Straight item
        · rw [if_pos straight]
          refine ih (onward straight).1 fun other inside => honest other ?_
          exact List.mem_of_mem_tail (List.tail_dropLast ▸ inside)
        · rw [if_neg straight]
          cases items with
          | nil => rfl
          | cons second items =>
              have stopped := ends ready read straight (honest item List.mem_cons_self straight)
              rw [List.length_cons, visits, stopped]
              rfl
      · rw [List.length_cons, visits, follows.stops ready readable,
          List.takeWhile_cons_of_neg (by simpa using readable)]
        rfl

theorem seen_eq [DecidablePred Straight] [DecidablePred Readable]
    (follows : Follows step place Open Ready width seen Readable Straight) (Honest : ι → Prop)
    (ends : ∀ {state item second items next}, Ready state (item :: second :: items) →
      step state = some (seen item, next) → ¬ Straight item → Honest item → step next = none)
    (ready : Ready state items) (readable : ∀ item ∈ items, Readable item)
    (honest : ∀ item ∈ items.dropLast, ¬ Straight item → Honest item) :
    (visits step items.length state).map Prod.snd = (reached Straight items).map seen := by
  rw [follows.seen_takeWhile Honest ends ready honest,
    List.takeWhile_eq_self_iff.mpr fun item inside => decide_eq_true (readable item inside)]

theorem walk_of_straight (follows : Follows step place Open Ready width seen Readable Straight)
    (ready : Ready state items) (readable : ∀ item ∈ items, Readable item)
    (straight : ∀ item ∈ items.dropLast, Straight item) :
    ∃ last, walk step items.length state = some last ∧ Open last := by
  induction items generalizing state with
  | nil => exact ⟨state, rfl, follows.opens ready⟩
  | cons item items ih =>
      rw [List.forall_mem_cons] at readable
      obtain ⟨next, read, opened, onward, -⟩ := follows.reads ready readable.1
      rw [List.length_cons, walk, read]
      cases items with
      | nil => exact ⟨next, rfl, opened⟩
      | cons second items =>
          rw [List.dropLast_cons_cons, List.forall_mem_cons] at straight
          exact ih (onward straight.1).1 readable.2 straight.2

end Follows
end PackagedTask.Library
