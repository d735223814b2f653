import Mathlib

namespace PackagedTask.Library.Iteration

variable {σ τ ρ ρ' : Type}

/-- A while loop: each pass of `body` goes on from a new state or leaves with a result. -/
def runFor (body : σ → σ ⊕ ρ) : Nat → σ → Option ρ
  | 0, _ => none
  | fuel + 1, s => match body s with
      | .inl next => runFor body fuel next
      | .inr result => some result

def Halts (body : σ → σ ⊕ ρ) (s : σ) : Prop := ∃ fuel result, runFor body fuel s = some result

def Steps (body : σ → σ ⊕ ρ) : Nat → σ → σ → Prop
  | 0, s, t => s = t
  | count + 1, s, t => ∃ next, body s = .inl next ∧ Steps body count next t

theorem Steps.snoc {body : σ → σ ⊕ ρ} {count : Nat} {s t u : σ} (walk : Steps body count s t)
    (last : body t = .inl u) : Steps body (count + 1) s u := by
  induction count generalizing s with
  | zero =>
      obtain rfl : s = t := walk
      exact ⟨u, last, rfl⟩
  | succ count ih =>
      obtain ⟨next, first, rest⟩ := walk
      exact ⟨next, first, ih rest⟩

theorem Steps.trans {body : σ → σ ⊕ ρ} {n m : Nat} {s t u : σ} (first : Steps body n s t)
    (second : Steps body m t u) : Steps body (n + m) s u := by
  induction n generalizing s with
  | zero =>
      obtain rfl : s = t := first
      simpa using second
  | succ n ih =>
      obtain ⟨next, step, rest⟩ := first
      rw [Nat.succ_add]
      exact ⟨next, step, ih rest⟩

theorem Steps.split {body : σ → σ ⊕ ρ} {n m : Nat} {s t u : σ} (first : Steps body n s t)
    (whole : Steps body (n + m) s u) : Steps body m t u := by
  induction n generalizing s with
  | zero =>
      obtain rfl : s = t := first
      simpa using whole
  | succ n ih =>
      rw [Nat.succ_add] at whole
      obtain ⟨next, step, rest⟩ := first
      obtain ⟨next', step', rest'⟩ := whole
      obtain rfl := Sum.inl.inj (step.symm.trans step')
      exact ih rest rest'

theorem Steps.invariant {body : σ → σ ⊕ ρ} {inv : σ → Prop}
    (step : ∀ s t, inv s → body s = .inl t → inv t) {n : Nat} {s t : σ}
    (walk : Steps body n s t) (initial : inv s) : inv t := by
  induction n generalizing s with
  | zero => exact (show s = t from walk) ▸ initial
  | succ n ih =>
      obtain ⟨next, first, rest⟩ := walk
      exact ih rest (step s next initial first)

theorem runFor_of_steps {body : σ → σ ⊕ ρ} {n : Nat} {s t : σ} {result : ρ}
    (walk : Steps body n s t) (last : body t = .inr result) :
    runFor body (n + 1) s = some result := by
  induction n generalizing s with
  | zero =>
      obtain rfl : s = t := walk
      simp [runFor, last]
  | succ n ih =>
      obtain ⟨next, first, rest⟩ := walk
      rw [runFor, first]
      exact ih rest

theorem steps_of_runFor {body : σ → σ ⊕ ρ} {fuel : Nat} {s : σ} {result : ρ}
    (ran : runFor body fuel s = some result) :
    ∃ n t, Steps body n s t ∧ body t = .inr result := by
  induction fuel generalizing s with
  | zero => simp [runFor] at ran
  | succ fuel ih =>
      cases pass : body s with
      | inl next =>
          rw [runFor, pass] at ran
          obtain ⟨n, t, walk, last⟩ := ih ran
          exact ⟨n + 1, t, ⟨next, pass, walk⟩, last⟩
      | inr left =>
          rw [runFor, pass, Option.some.injEq] at ran
          exact ⟨0, s, rfl, ran ▸ pass⟩

theorem runFor_mono {body : σ → σ ⊕ ρ} {fuel more : Nat} {s : σ} {result : ρ}
    (ran : runFor body fuel s = some result) (enough : fuel ≤ more) :
    runFor body more s = some result := by
  induction fuel generalizing s more with
  | zero => cases ran
  | succ fuel ih =>
      obtain ⟨more, rfl⟩ : ∃ before, more = before + 1 := ⟨more - 1, by omega⟩
      rw [runFor] at ran ⊢
      split
      · rename_i next pass
        rw [pass] at ran
        exact ih ran (by omega)
      · rename_i left pass
        rw [pass] at ran
        exact ran

theorem halts_iff {body : σ → σ ⊕ ρ} {s : σ} :
    Halts body s ↔ ∃ n t result, Steps body n s t ∧ body t = .inr result := by
  constructor
  · rintro ⟨fuel, result, ran⟩
    obtain ⟨n, t, walk, last⟩ := steps_of_runFor ran
    exact ⟨n, t, result, walk, last⟩
  · rintro ⟨n, t, result, walk, last⟩
    exact ⟨n + 1, result, runFor_of_steps walk last⟩

theorem steps_le_of_last {body : σ → σ ⊕ ρ} {n m : Nat} {s t u : σ} {result : ρ}
    (walk : Steps body n s t) (last : body t = .inr result) (other : Steps body m s u) :
    m ≤ n := by
  by_contra longer
  obtain ⟨extra, rfl⟩ : ∃ extra, m = n + (extra + 1) := ⟨m - n - 1, by omega⟩
  obtain ⟨next, step, -⟩ := walk.split other
  simp [last] at step

def Cycles (body : σ → σ ⊕ ρ) (s : σ) : Prop :=
  ∃ n m t, Steps body n s t ∧ 0 < m ∧ Steps body m t t

theorem not_halts_of_cycles {body : σ → σ ⊕ ρ} {s : σ} (cycles : Cycles body s) :
    ¬ Halts body s := by
  rintro halts
  obtain ⟨n, m, t, toCycle, positive, around⟩ := cycles
  obtain ⟨k, last, result, walk, final⟩ := halts_iff.mp halts
  have rounds : ∀ r, Steps body (n + r * m) s t := by
    intro r
    induction r with
    | zero => simpa using toCycle
    | succ r ih =>
        rw [Nat.succ_mul, ← Nat.add_assoc]
        exact ih.trans around
  have bound := steps_le_of_last walk final (rounds (k + 1))
  have grows : k + 1 ≤ (k + 1) * m := Nat.le_mul_of_pos_right _ positive
  omega

theorem steps_or_halts (body : σ → σ ⊕ ρ) (s : σ) (n : Nat) :
    (∃ t, Steps body n s t) ∨ Halts body s := by
  induction n with
  | zero => exact .inl ⟨s, rfl⟩
  | succ n ih =>
      rcases ih with ⟨t, walk⟩ | halts
      · cases pass : body t with
        | inl next => exact .inl ⟨next, walk.snoc pass⟩
        | inr result => exact .inr (halts_iff.mpr ⟨n, t, result, walk, pass⟩)
      · exact .inr halts

theorem Steps.prefix_of_le {body : σ → σ ⊕ ρ} {n m : Nat} {s u : σ}
    (walk : Steps body m s u) (le : n ≤ m) : ∃ t, Steps body n s t := by
  induction n generalizing s m with
  | zero => exact ⟨s, rfl⟩
  | succ n ih =>
      obtain ⟨m, rfl⟩ : ∃ k, m = k + 1 := ⟨m - 1, by omega⟩
      obtain ⟨next, first, rest⟩ := walk
      obtain ⟨t, found⟩ := ih rest (by omega)
      exact ⟨t, next, first, found⟩

/-- Over finitely many states a deterministic loop ends unless it comes back to one. -/
theorem halts_iff_not_cycles {body : σ → σ ⊕ ρ} {s : σ} {states : Set σ} (finite : states.Finite)
    (stays : ∀ n t, Steps body n s t → t ∈ states) : Halts body s ↔ ¬ Cycles body s := by
  refine ⟨fun halts cycles => not_halts_of_cycles cycles halts, fun acyclic => ?_⟩
  by_contra running
  have position : ∀ n, ∃ t, Steps body n s t := fun n =>
    (steps_or_halts body s n).resolve_right running
  choose visited walks using position
  obtain ⟨i, j, lt, same⟩ :=
    finite.exists_lt_map_eq_of_forall_mem fun n => stays n (visited n) (walks n)
  refine acyclic ⟨i, j - i, visited i, walks i, by omega, ?_⟩
  have whole : Steps body (i + (j - i)) s (visited i) := by
    rw [same, Nat.add_sub_cancel' lt.le]
    exact walks j
  exact (walks i).split whole

/-- A loop that ends visits no state twice, so it makes fewer passes than there are keys that tell
its states apart. -/
theorem steps_lt_card {κ : Type} {body : σ → σ ⊕ ρ} {s t : σ} {n : Nat} {result : ρ}
    [DecidableEq κ] (key : σ → κ) (keys : Finset κ)
    (stays : ∀ n t, Steps body n s t → key t ∈ keys)
    (tells : ∀ n m t u, Steps body n s t → Steps body m s u → key t = key u → t = u)
    (walk : Steps body n s t) (last : body t = .inr result) : n < keys.card := by
  have position : ∀ i : Fin (n + 1), ∃ u, Steps body i s u := fun i =>
    walk.prefix_of_le (by omega)
  choose visited walks using position
  have halts := halts_iff.mpr ⟨n, t, result, walk, last⟩
  have cycle : ∀ i j : Fin (n + 1), i < j → visited i ≠ visited j := by
    intro i j lt same
    refine not_halts_of_cycles ⟨i, j - i, visited i, walks i, by omega, ?_⟩ halts
    have whole : Steps body (i + (j - i)) s (visited i) := by
      rw [same, Nat.add_sub_cancel' (by omega)]
      exact walks j
    exact (walks i).split whole
  have injective : Function.Injective fun i => key (visited i) := by
    intro i j same
    have equal := tells i j _ _ (walks i) (walks j) same
    rcases lt_trichotomy i j with lt | here | gt
    · exact absurd equal (cycle i j lt)
    · exact here
    · exact absurd equal.symm (cycle j i gt)
  have bound := Finset.card_le_card_of_injOn (s := Finset.univ) (t := keys)
    (fun i => key (visited i)) (fun i _ => stays i _ (walks i)) injective.injOn
  simpa using bound

theorem halts_project {body : σ → σ ⊕ ρ} {body' : τ → τ ⊕ ρ'} (project : σ → τ)
    (goes : ∀ s t, body s = .inl t → body' (project s) = .inl (project t))
    (leaves : ∀ s result, body s = .inr result → ∃ result', body' (project s) = .inr result')
    (s : σ) : Halts body s ↔ Halts body' (project s) := by
  constructor
  · intro halts
    obtain ⟨n, t, result, walk, last⟩ := halts_iff.mp halts
    obtain ⟨result', last'⟩ := leaves t result last
    refine halts_iff.mpr ⟨n, project t, result', ?_, last'⟩
    clear halts last last'
    induction n generalizing s with
    | zero => exact congrArg project walk
    | succ n ih =>
        obtain ⟨next, first, rest⟩ := walk
        exact ⟨project next, goes s next first, ih next rest⟩
  · rintro ⟨fuel, result', ran⟩
    induction fuel generalizing s with
    | zero => simp [runFor] at ran
    | succ fuel ih =>
        cases pass : body s with
        | inl next =>
            rw [runFor, goes s next pass] at ran
            obtain ⟨n, t, result, walk, last⟩ := halts_iff.mp (ih next ran)
            exact halts_iff.mpr ⟨n + 1, t, result, ⟨next, pass, walk⟩, last⟩
        | inr result => exact halts_iff.mpr ⟨0, s, result, rfl, pass⟩

end PackagedTask.Library.Iteration
