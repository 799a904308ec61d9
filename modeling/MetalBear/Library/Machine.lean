import Mathlib

/-!
# Machines and their runs

A machine is a total step function over labels; whatever the environment chooses
is part of the label. A run is a list of labels, so a property of every run is a
property of every list. `States` speaks about the states a run passes through and
`Steps` about the pairs of a state and the label taken in it. The rules below turn
one-step facts into facts about whole runs.
-/

namespace Machine

universe u v

variable {σ : Type u} {α : Type v}

/-- The state in which a run ends. -/
def exec (step : σ → α → σ) (s : σ) (run : List α) : σ := run.foldl step s

/-- A predicate holds in every state of a run, the first one included. -/
def States (step : σ → α → σ) (P : σ → Prop) : σ → List α → Prop
  | s, [] => P s
  | s, a :: run => P s ∧ States step P (step s a) run

/-- A condition holds of every step of a run, in the state where it is taken. -/
def Steps (step : σ → α → σ) (C : σ → α → Prop) : σ → List α → Prop
  | _, [] => True
  | s, a :: run => C s a ∧ Steps step C (step s a) run

/-- Some step of a run meets the condition. -/
def Ever (step : σ → α → σ) (D : σ → α → Prop) : σ → List α → Prop
  | _, [] => False
  | s, a :: run => D s a ∨ Ever step D (step s a) run

/-- Every step that meets the first condition is followed by one that meets the second. -/
def Answered (step : σ → α → σ) (C D : σ → α → Prop) : σ → List α → Prop
  | _, [] => True
  | s, a :: run => (C s a → Ever step D (step s a) run) ∧ Answered step C D (step s a) run

section Rules

variable {step : σ → α → σ} {P J : σ → Prop} {C D : σ → α → Prop} {s : σ} {a : α} {run : List α}

@[simp] theorem exec_nil : exec step s [] = s := rfl

@[simp] theorem exec_cons : exec step s (a :: run) = exec step (step s a) run := rfl

theorem exec_append (run' : List α) :
    exec step s (run ++ run') = exec step (exec step s run) run' := List.foldl_append

@[simp] theorem states_nil : States step P s [] ↔ P s := Iff.rfl

@[simp] theorem states_cons :
    States step P s (a :: run) ↔ P s ∧ States step P (step s a) run := Iff.rfl

@[simp] theorem steps_nil : Steps step C s [] := trivial

@[simp] theorem steps_cons :
    Steps step C s (a :: run) ↔ C s a ∧ Steps step C (step s a) run := Iff.rfl

/-- A condition holds of every step of a run and of the steps that go on from its end. -/
theorem steps_append {run' : List α} : Steps step C s (run ++ run') ↔
    Steps step C s run ∧ Steps step C (Machine.exec step s run) run' := by
  induction run generalizing s with
  | nil => simp
  | cons a run ih => rw [List.cons_append, steps_cons, steps_cons, ih, exec_cons, and_assoc]

/-- The last state of a run is one of its states. -/
theorem States.exec (h : States step P s run) : P (exec step s run) := by
  induction run generalizing s with
  | nil => exact h
  | cons a run ih => exact ih h.2

/-- A run's states are exactly the ends of its prefixes. -/
theorem states_iff_prefix :
    States step P s run ↔ ∀ pre, pre <+: run → P (Machine.exec step s pre) := by
  induction run generalizing s with
  | nil => simp
  | cons a run ih =>
    rw [states_cons, ih]
    constructor
    · rintro ⟨h0, h⟩ pre hpre
      cases pre with
      | nil => exact h0
      | cons b pre =>
        obtain ⟨rfl, hp⟩ := List.cons_prefix_cons.mp hpre
        exact h pre hp
    · intro h
      exact ⟨h [] (List.nil_prefix), fun pre hp => h (a :: pre) (List.cons_prefix_cons.mpr ⟨rfl, hp⟩)⟩

/-- The invariant rule: what holds at first and survives every step allowed by the
condition holds throughout a run whose steps all meet the condition. -/
theorem states_of_steps (h0 : P s) (hstep : ∀ s a, P s → C s a → P (step s a))
    (h : Steps step C s run) : States step P s run := by
  induction run generalizing s with
  | nil => exact h0
  | cons a run ih => exact ⟨h0, ih (hstep s a h0 h.1) h.2⟩

/-- The invariant rule at the end of a run. -/
theorem exec_of_steps (h0 : P s) (hstep : ∀ s a, P s → C s a → P (step s a))
    (h : Steps step C s run) : P (Machine.exec step s run) :=
  (states_of_steps h0 hstep h).exec

/-- An invariant of every step holds at the end of every run. -/
theorem exec_of_invariant (h0 : P s) (hstep : ∀ s a, P s → P (step s a)) :
    P (Machine.exec step s run) := by
  induction run generalizing s with
  | nil => exact h0
  | cons a run ih => exact ih (hstep s a h0)

/-- An invariant of every step holds throughout every run. -/
theorem states_of_invariant (h0 : P s) (hstep : ∀ s a, P s → P (step s a)) :
    States step P s run := by
  induction run generalizing s with
  | nil => exact h0
  | cons a run ih => exact ⟨h0, ih (hstep s a h0)⟩

/-- What an invariant says of the next step holds of every step of a run. -/
theorem steps_of_invariant (h0 : J s) (hbg : ∀ s a, J s → J (step s a))
    (hstep : ∀ s a, J s → C s a) : Steps step C s run := by
  induction run generalizing s with
  | nil => trivial
  | cons a run ih => exact ⟨hstep s a h0, ih (hbg s a h0)⟩

/-- A condition on labels alone holds of every step. -/
theorem steps_of_forall {p : α → Prop} (h : ∀ a ∈ run, p a) : Steps step (fun _ a => p a) s run := by
  induction run generalizing s with
  | nil => trivial
  | cons a run ih => exact ⟨h a (by simp), ih fun b hb => h b (by simp [hb])⟩

/-- Throughout a run a property may be weakened. -/
theorem States.imp {Q : σ → Prop} (himp : ∀ s, P s → Q s) (h : States step P s run) :
    States step Q s run := by
  induction run generalizing s with
  | nil => exact himp s h
  | cons a run ih => exact ⟨himp s h.1, ih h.2⟩

/-- Two conditions on the steps of a run are one. -/
theorem Steps.and (hc : Steps step C s run) (hd : Steps step D s run) :
    Steps step (fun s a => C s a ∧ D s a) s run := by
  induction run generalizing s with
  | nil => trivial
  | cons a run ih => exact ⟨⟨hc.1, hd.1⟩, ih hc.2 hd.2⟩

/-- Steps may be weakened under an invariant that they themselves maintain. -/
theorem Steps.imp (h0 : J s) (himp : ∀ s a, J s → C s a → D s a)
    (hstep : ∀ s a, J s → C s a → J (step s a)) (h : Steps step C s run) :
    Steps step D s run := by
  induction run generalizing s with
  | nil => trivial
  | cons a run ih => exact ⟨himp s a h0 h.1, ih (hstep s a h0 h.1) h.2⟩

/-- The exactness rule: if a good state stays good across a step precisely when the
step meets the condition, then a run stays good precisely when all its steps meet it.
`J` is background that every step maintains, good or not. -/
theorem states_iff_steps (hJ : J s) (hP : P s) (hbg : ∀ s a, J s → J (step s a))
    (hstep : ∀ s a, J s → P s → (P (step s a) ↔ C s a)) :
    States step P s run ↔ Steps step C s run := by
  induction run generalizing s with
  | nil => simp [hP]
  | cons a run ih =>
    rw [states_cons, steps_cons]
    constructor
    · rintro ⟨_, h⟩
      have hnext : P (step s a) := by
        cases run with
        | nil => exact h
        | cons b run => exact h.1
      exact ⟨(hstep s a hJ hP).mp hnext, (ih (hbg s a hJ) hnext).mp h⟩
    · rintro ⟨hc, h⟩
      have hnext : P (step s a) := (hstep s a hJ hP).mpr hc
      exact ⟨hP, (ih (hbg s a hJ) hnext).mpr h⟩

/-- The exactness rule for a property that an invariant of the good steps implies: of the steps
that the environment takes, those that do not meet the condition break it at once. -/
theorem states_iff_steps_of_invariant {A : σ → α → Prop} (h0 : J s)
    (hkeep : ∀ s a, J s → A s a → C s a → J (step s a)) (himp : ∀ s, J s → P s)
    (hbreak : ∀ s a, J s → A s a → P (step s a) → C s a) (hA : Steps step A s run) :
    States step P s run ↔ Steps step C s run := by
  induction run generalizing s with
  | nil => simp [himp s h0]
  | cons a run ih =>
    rw [states_cons, steps_cons]
    constructor
    · rintro ⟨-, h⟩
      have hnext : P (step s a) := by
        cases run with
        | nil => exact h
        | cons b run => exact h.1
      have hc := hbreak s a h0 hA.1 hnext
      exact ⟨hc, (ih (hkeep s a h0 hA.1 hc) hA.2).mp h⟩
    · rintro ⟨hc, h⟩
      exact ⟨himp s h0, (ih (hkeep s a h0 hA.1 hc) hA.2).mpr h⟩

/-- The exactness rule at the end of a run: goodness is kept by the steps that meet the
condition, and once a step that does not has lost it, it stays lost. -/
theorem exec_iff_steps {Lost : σ → Prop} (hJ : J s) (hP : P s) (hbg : ∀ s a, J s → J (step s a))
    (hgood : ∀ s a, J s → P s → C s a → P (step s a))
    (hbad : ∀ s a, J s → P s → ¬ C s a → Lost (step s a))
    (hlost : ∀ s a, J s → Lost s → Lost (step s a)) :
    (Steps step C s run → P (Machine.exec step s run)) ∧
      (¬ Steps step C s run → Lost (Machine.exec step s run)) := by
  induction run generalizing s with
  | nil => exact ⟨fun _ => hP, fun h => absurd trivial h⟩
  | cons a run ih =>
    rw [steps_cons, exec_cons]
    by_cases hc : C s a
    · have := ih (hbg s a hJ) (hgood s a hJ hP hc)
      simpa [hc] using this
    · refine ⟨fun h => absurd h.1 hc, fun _ => ?_⟩
      have hkeep : ∀ s a, J s ∧ Lost s → J (step s a) ∧ Lost (step s a) :=
        fun s a h => ⟨hbg s a h.1, hlost s a h.1 h.2⟩
      exact (exec_of_invariant ⟨hbg s a hJ, hbad s a hJ hP hc⟩ hkeep).2

/-- The response rule: a property that some steps break, some restore and all others leave
alone holds at the end of a run if and only if every breach is answered. -/
theorem exec_iff_answered (hJ : J s) (hP : P s) (hbg : ∀ s a, J s → J (step s a))
    (hbreak : ∀ s a, J s → C s a → ¬ P (step s a)) (hrestore : ∀ s a, J s → D s a → P (step s a))
    (hkeep : ∀ s a, J s → ¬ C s a → ¬ D s a → (P (step s a) ↔ P s)) :
    P (Machine.exec step s run) ↔ Answered step C D s run := by
  -- From any state: every breach is answered, and a bad start is answered too.
  have hany : ∀ s, J s → (P (Machine.exec step s run) ↔
      Answered step C D s run ∧ (P s ∨ Ever step D s run)) := by
    induction run with
    | nil => intro s _; simp [Answered, Ever]
    | cons a run ih =>
      intro s hJ
      have hb := hbreak s a hJ
      have hr := hrestore s a hJ
      have hk := hkeep s a hJ
      rw [exec_cons, ih (step s a) (hbg s a hJ), Answered, Ever]
      by_cases hc : C s a
      · have := hb hc
        have hd : ¬ D s a := fun hd => this (hr hd)
        tauto
      · by_cases hd : D s a
        · have := hr hd
          tauto
        · rw [hk hc hd]
          tauto
  rw [hany s hJ]
  exact ⟨fun h => h.1, fun h => ⟨h, Or.inl hP⟩⟩

/-- The exactness rule for properties of steps rather than of states. -/
theorem steps_iff_steps (hJ : J s) (hiff : ∀ s a, J s → (C s a ↔ D s a))
    (hbg : ∀ s a, J s → C s a → J (step s a)) :
    Steps step C s run ↔ Steps step D s run := by
  induction run generalizing s with
  | nil => simp
  | cons a run ih =>
    rw [steps_cons, steps_cons]
    constructor
    · rintro ⟨hc, h⟩
      exact ⟨(hiff s a hJ).mp hc, (ih (hbg s a hJ hc)).mp h⟩
    · rintro ⟨hd, h⟩
      have hc := (hiff s a hJ).mpr hd
      exact ⟨hc, (ih (hbg s a hJ hc)).mpr h⟩

end Rules

end Machine
