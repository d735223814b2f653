import Mathlib.Data.List.Forall2

namespace PackagedTask.Library

/-! An object that answers one call after the other, and the lookups of two such objects. -/

variable {σ σ' κ ω α β γ δ : Type}

def session (serve : σ → κ → ω × σ) : σ → List κ → List ω × σ
  | s, [] => ([], s)
  | s, call :: calls =>
      let answer := serve s call
      let later := session serve answer.2 calls
      (answer.1 :: later.1, later.2)

def Admitted (serve : σ → κ → ω × σ) (allowed : σ → κ → Prop) (s : σ) (calls : List κ) : Prop :=
  ∀ past call rest, calls = past ++ call :: rest → allowed (session serve s past).2 call

/-- Two objects that answer alike from related states, as long as the second allows each call. -/
theorem session_refines {serve : σ → κ → ω × σ} {serve' : σ' → κ → ω × σ'}
    {related : σ → σ' → Prop} {allowed : σ' → κ → Prop}
    (follows : ∀ {s s' call}, related s s' → allowed s' call →
      (serve s call).1 = (serve' s' call).1 ∧ related (serve s call).2 (serve' s' call).2)
    {s : σ} {s' : σ'} {calls : List κ} (base : related s s')
    (admitted : Admitted serve' allowed s' calls) :
    (session serve s calls).1 = (session serve' s' calls).1 ∧
      related (session serve s calls).2 (session serve' s' calls).2 := by
  induction calls generalizing s s' with
  | nil => exact ⟨rfl, base⟩
  | cons call calls ih =>
      obtain ⟨answer, after⟩ := follows base (admitted [] call calls rfl)
      obtain ⟨answers, last⟩ := ih after fun past next rest split =>
        admitted (call :: past) next rest (congrArg (call :: ·) split)
      exact ⟨congrArg₂ List.cons answer answers, last⟩

theorem rel_findSome? {related : γ → δ → Prop} {matched : α → β → Prop} {f : α → Option γ}
    {g : β → Option δ} (alike : ∀ {a b}, matched a b → Option.Rel related (f a) (g b))
    {first : List α} {second : List β} (lists : List.Forall₂ matched first second) :
    Option.Rel related (first.findSome? f) (second.findSome? g) := by
  induction lists with
  | nil => exact .none
  | @cons a b first second here _ ih =>
      have same := alike here
      rw [List.findSome?_cons, List.findSome?_cons]
      cases left : f a <;> cases right : g b <;> simp_all

theorem rel_find? {matched : α → β → Prop} {p : α → Bool} {q : β → Bool}
    (alike : ∀ {a b}, matched a b → p a = q b) {first : List α} {second : List β}
    (lists : List.Forall₂ matched first second) :
    Option.Rel matched (first.find? p) (second.find? q) := by
  rw [List.find?_eq_findSome?_guard, List.find?_eq_findSome?_guard]
  apply rel_findSome? _ lists
  intro a b here
  have same := alike here
  cases picked : q b <;> simp_all [Option.guard]

theorem rel_map {related : γ → α → Prop} {related' : γ → β → Prop} {f : α → β}
    (carried : ∀ {c a}, related c a → related' c (f a)) {first : Option γ} {second : Option α}
    (lists : Option.Rel related first second) : Option.Rel related' first (second.map f) := by
  cases lists with
  | some here => exact .some (carried here)
  | none => exact .none

theorem rel_or {related : γ → δ → Prop} {a b : Option γ} {c d : Option δ}
    (first : Option.Rel related a c) (second : Option.Rel related b d) :
    Option.Rel related (a.or b) (c.or d) := by
  cases first with
  | some here => exact .some here
  | none => exact second

theorem findSome?_filter (keep : α → Bool) (f : α → Option β) (list : List α) :
    (list.filter keep).findSome? f = list.findSome? fun a => if keep a then f a else none := by
  induction list with
  | nil => rfl
  | cons a list ih =>
      rw [List.filter_cons, List.findSome?_cons]
      by_cases kept : keep a = true <;> simp [kept, ih, List.findSome?_cons]

end PackagedTask.Library
