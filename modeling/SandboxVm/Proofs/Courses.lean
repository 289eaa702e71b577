/-
SandboxVm.Proofs.Courses — finite stretches of a deterministic course.

A course is given by a function that says what comes next, if anything does. The calls of
bytecode modules and those of native modules are followed moment by moment in this way, each
with its own kind of moment. `after` counts moments, `Reaches` does not, and
`Reaches.preserves` is the induction behind every invariant of a course.
-/

namespace SandboxVm.Course

variable {α : Type} {next : α → Option α} {a b c : α} {n k : Nat}

/-- What comes `n` moments later, unless the course ends before. -/
def after (next : α → Option α) : (n : Nat) → α → Option α
  | 0, a => some a
  | n + 1, a => (next a).bind (after next n)

/-- The course passes from one moment to another. -/
def Reaches (next : α → Option α) (a b : α) : Prop := ∃ n, after next n a = some b

theorem after_succ (h : next a = some b) : after next (n + 1) a = after next n b := by
  simp [after, h]

theorem after_add (h : after next n a = some b) : after next (n + k) a = after next k b := by
  induction n generalizing a with
  | zero =>
    cases h
    rw [Nat.zero_add]
  | succ n ih =>
    cases hn : next a with
    | none => simp [after, hn] at h
    | some a' =>
      rw [after_succ hn] at h
      rw [Nat.add_right_comm, after_succ hn, ih h]

/-- A course that goes on for `n` moments goes on for fewer. -/
theorem after_of_le (h : after next n a = some b) (hk : k ≤ n) :
    ∃ c, after next k a = some c ∧ after next (n - k) c = some b := by
  induction k generalizing n a with
  | zero => exact ⟨a, rfl, h⟩
  | succ k ih =>
    obtain ⟨n, rfl⟩ : ∃ m, n = m + 1 := ⟨n - 1, by omega⟩
    cases hn : next a with
    | none => simp [after, hn] at h
    | some a' =>
      rw [after_succ hn] at h
      obtain ⟨c, hc, hb⟩ := ih h (by omega)
      refine ⟨c, by rw [after_succ hn, hc], ?_⟩
      rwa [Nat.add_sub_add_right]

/-- Nothing follows a last moment. -/
theorem after_eq_none (hb : next b = none) (h : after next n a = some b) (hk : n < k) :
    after next k a = none := by
  obtain ⟨j, rfl⟩ : ∃ j, k = n + (j + 1) := ⟨k - n - 1, by omega⟩
  rw [after_add h]
  simp [after, hb]

/-- A course has at most one last moment. -/
theorem eq_of_last (hb : next b = none) (hc : next c = none) (h₁ : after next n a = some b)
    (h₂ : after next k a = some c) : n = k ∧ b = c := by
  have hnk : ¬ n < k := fun hlt => by simp [after_eq_none hb h₁ hlt] at h₂
  have hkn : ¬ k < n := fun hlt => by simp [after_eq_none hc h₂ hlt] at h₁
  have heq : n = k := by omega
  subst heq
  rw [h₁] at h₂
  exact ⟨rfl, Option.some.inj h₂⟩

/-- What one moment hands on to the next as long as it steers clear holds until it does not. -/
theorem after_preserves {P Q : α → Prop} (hstep : ∀ {a b}, next a = some b → Q a → P a → P b)
    (h : after next n a = some b) (hQ : ∀ k c, k < n → after next k a = some c → Q c)
    (ha : P a) : P b := by
  induction n generalizing a with
  | zero =>
    cases h
    exact ha
  | succ n ih =>
    cases ha' : next a with
    | none => simp [after, ha'] at h
    | some a' =>
      rw [after_succ ha'] at h
      refine ih h ?_ (hstep ha' (hQ 0 a (by omega) rfl) ha)
      intro k c hk hc
      refine hQ (k + 1) c (by omega) ?_
      rw [after_succ ha', hc]

/-- Two courses that can be followed side by side stay side by side, and end together. -/
theorem after_rel {β : Type} {next' : β → Option β} {r : α → β → Prop} {x : β}
    (hstep : ∀ {a b}, r a b → Option.Rel r (next a) (next' b)) (h : r a x) :
    Option.Rel r (after next n a) (after next' n x) := by
  induction n generalizing a x with
  | zero => exact .some h
  | succ n ih =>
    have hnext := hstep h
    simp only [after]
    generalize next a = p, next' x = q at hnext
    cases hnext with
    | none => exact .none
    | some h => exact ih h

/-- What is found at the first `n` moments of a course, in order. -/
def collect {β : Type} (next : α → Option α) (f : α → Option β) : (n : Nat) → α → List β
  | 0, _ => []
  | n + 1, a => (f a).toList ++ (next a).elim [] (collect next f n)

theorem collect_succ {β : Type} {f : α → Option β} (h : next a = some b) :
    collect next f (n + 1) a = (f a).toList ++ collect next f n b := by
  simp [collect, h]

namespace Reaches

theorem refl (a : α) : Reaches next a a := ⟨0, rfl⟩

theorem head (h : next a = some b) (hb : Reaches next b c) : Reaches next a c := by
  obtain ⟨n, hn⟩ := hb
  exact ⟨n + 1, by rw [after_succ h, hn]⟩

theorem trans (h₁ : Reaches next a b) (h₂ : Reaches next b c) : Reaches next a c := by
  obtain ⟨n, hn⟩ := h₁
  obtain ⟨k, hk⟩ := h₂
  exact ⟨n + k, by rw [after_add hn, hk]⟩

/-- Every moment of a course leads to the last one. -/
theorem to_last (hlast : next c = none) (hc : Reaches next a c) (hb : Reaches next a b) :
    Reaches next b c := by
  obtain ⟨n, hn⟩ := hb
  obtain ⟨k, hk⟩ := hc
  have hle : n ≤ k := by
    refine Nat.le_of_not_lt fun hlt => ?_
    simp [after_eq_none hlast hk hlt] at hn
  obtain ⟨e, he, hec⟩ := after_of_le hk hle
  obtain rfl : b = e := Option.some.inj (hn.symm.trans he)
  exact ⟨k - n, hec⟩

/-- What one moment hands on to the next holds along a whole course. -/
theorem preserves {P : α → Prop} (hstep : ∀ {a b}, next a = some b → P a → P b)
    (h : Reaches next a b) (ha : P a) : P b := by
  obtain ⟨n, hn⟩ := h
  induction n generalizing a with
  | zero =>
    cases hn
    exact ha
  | succ n ih =>
    cases ha' : next a with
    | none => simp [after, ha'] at hn
    | some a' =>
      rw [after_succ ha'] at hn
      exact ih (hstep ha' ha) hn

end Reaches

end SandboxVm.Course
