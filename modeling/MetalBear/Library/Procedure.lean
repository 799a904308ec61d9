import MetalBear.Library.Machine

/-!
# Procedures and pools

A procedure is a tree of calls: its result, or the next call and how it goes on with the answer. A
pool runs any number of procedures over one shared state, one call at a time and in any order. A
discipline follows a procedure by a local state and says which calls it may make; the rules below
carry the discipline of every procedure of a pool across the steps of the pool.
-/

universe u v w

/-- A procedure that makes the calls `κ`, is answered in `ρ` and ends in an `α`. -/
inductive Procedure (κ : Type u) (ρ : κ → Type v) (α : Type w) where
  | ret (a : α)
  | call (k : κ) (next : ρ k → Procedure κ ρ α)

namespace Procedure

variable {κ : Type u} {ρ : κ → Type v} {α β : Type w}

/-- One procedure after the other. -/
def bind : Procedure κ ρ α → (α → Procedure κ ρ β) → Procedure κ ρ β
  | ret a, f => f a
  | call k next, f => call k fun a => (next a).bind f

instance : Monad (Procedure κ ρ) where
  pure := ret
  bind := bind

/-- The call that a procedure makes next. -/
def head : Procedure κ ρ α → Option κ
  | ret _ => none
  | call k _ => some k

@[simp] theorem pure_eq (a : α) : (pure a : Procedure κ ρ α) = ret a := rfl

@[simp] theorem ret_bind (a : α) (f : α → Procedure κ ρ β) : ret a >>= f = f a := rfl

@[simp] theorem call_bind (k : κ) (next : ρ k → Procedure κ ρ α) (f : α → Procedure κ ρ β) :
    call k next >>= f = call k fun a => next a >>= f := rfl

@[simp] theorem head_ret (a : α) : (ret a : Procedure κ ρ α).head = none := rfl

@[simp] theorem head_call (k : κ) (next : ρ k → Procedure κ ρ α) :
    (call k next).head = some k := rfl

/-! ## Disciplines -/

/-- A discipline: the calls that a local state permits, and the local states that an answer may
lead to. -/
structure Discipline (κ : Type u) (ρ : κ → Type v) (τ : Type*) where
  permits : τ → κ → Prop
  after : τ → (k : κ) → ρ k → τ → Prop

variable {τ : Type*} {D : Discipline κ ρ τ} {post : τ → α → Prop} {t : τ}

/-- Every call of the procedure is permitted, and every end meets the postcondition. -/
def Follows (D : Discipline κ ρ τ) (post : τ → α → Prop) : Procedure κ ρ α → τ → Prop
  | ret a, t => post t a
  | call k next, t => D.permits t k ∧ ∀ a t', D.after t k a t' → (next a).Follows D post t'

@[simp] theorem follows_ret {a : α} : (ret a : Procedure κ ρ α).Follows D post t ↔ post t a :=
  Iff.rfl

@[simp] theorem follows_call {k : κ} {next : ρ k → Procedure κ ρ α} :
    (call k next).Follows D post t ↔
      D.permits t k ∧ ∀ a t', D.after t k a t' → (next a).Follows D post t' := Iff.rfl

/-- The rule of composition. -/
theorem Follows.bind {p : Procedure κ ρ α} {f : α → Procedure κ ρ β} {post' : τ → β → Prop}
    (h : p.Follows D post t) (hf : ∀ a t', post t' a → (f a).Follows D post' t') :
    (p >>= f).Follows D post' t := by
  induction p generalizing t with
  | ret a => exact hf a t h
  | call k next ih => exact ⟨h.1, fun a t' hafter => ih a (h.2 a t' hafter)⟩

/-- The rule of consequence. -/
theorem Follows.imp {p : Procedure κ ρ α} {post' : τ → α → Prop} (h : p.Follows D post t)
    (himp : ∀ a t', post t' a → post' t' a) : p.Follows D post' t := by
  induction p generalizing t with
  | ret a => exact himp a t h
  | call k next ih => exact ⟨h.1, fun a t' hafter => ih a (h.2 a t' hafter)⟩

end Procedure

/-! ## Pools -/

/-- A call under way: what was called, and what is left of it. -/
structure Thread (κ : Type u) (ρ : κ → Type v) (χ α : Type w) where
  called : χ
  left : Procedure κ ρ (Option α)

/-- The state of a pool. -/
structure Pool (σ : Type*) (κ : Type u) (ρ : κ → Type v) (χ α : Type w) where
  shared : σ
  threads : ℕ → Option (Thread κ ρ χ α)

/-- What happens next: a thread begins, or makes its next call in some environment. -/
inductive Event (χ ε : Type*) where
  | start (i : ℕ) (c : χ)
  | go (i : ℕ) (e : ε)

namespace Pool

open Procedure

variable {σ ε : Type*} {κ : Type u} {ρ : κ → Type v} {χ α : Type w}

/-- The call that a thread makes next. -/
def next (s : Pool σ κ ρ χ α) (i : ℕ) : Option κ := (s.threads i).bind fun t => t.left.head

/-- What a thread has returned, with what was called. -/
def returned (s : Pool σ κ ρ χ α) (i : ℕ) : Option (χ × α) :=
  match s.threads i with
  | some ⟨c, .ret (some a)⟩ => some (c, a)
  | _ => none

/-- One event. A procedure that ends without a result is called again. -/
def step (prog : χ → Procedure κ ρ (Option α)) (serve : σ → ℕ → ε → (k : κ) → σ × ρ k)
    (s : Pool σ κ ρ χ α) : Event χ ε → Pool σ κ ρ χ α
  | .start i c =>
    if (s.threads i).isNone then
      { s with threads := Function.update s.threads i (some ⟨c, prog c⟩) }
    else s
  | .go i e =>
    match s.threads i with
    | none => s
    | some ⟨_, .ret (some _)⟩ => s
    | some ⟨c, .ret none⟩ =>
      { s with threads := Function.update s.threads i (some ⟨c, prog c⟩) }
    | some ⟨c, .call k next⟩ =>
      let r := serve s.shared i e k
      ⟨r.1, Function.update s.threads i (some ⟨c, next r.2⟩)⟩

variable {s : Pool σ κ ρ χ α} {i : ℕ} {c : χ}

theorem next_eq_some {k : κ} : s.next i = some k ↔
    ∃ c next, s.threads i = some ⟨c, .call k next⟩ := by
  constructor
  · intro h
    obtain ⟨⟨c, p⟩, ht, hp⟩ := Option.bind_eq_some_iff.mp h
    cases p with
    | ret a => cases hp
    | call k' next =>
      obtain rfl := Option.some.inj hp
      exact ⟨c, next, ht⟩
  · rintro ⟨c, rest, ht⟩
    rw [Pool.next, ht]
    rfl

theorem returned_eq_some {a : α} :
    s.returned i = some (c, a) ↔ s.threads i = some ⟨c, .ret (some a)⟩ := by
  rw [returned]
  split <;> simp_all

/-- What an event can do: nothing, begin the procedure of a call, or serve a call. -/
theorem step_cases (prog : χ → Procedure κ ρ (Option α)) (serve : σ → ℕ → ε → (k : κ) → σ × ρ k)
    (s : Pool σ κ ρ χ α) (ev : Event χ ε) :
    step prog serve s ev = s ∨
    (∃ i c, ev = .start i c ∧ s.threads i = none ∧
      step prog serve s ev =
        { s with threads := Function.update s.threads i (some ⟨c, prog c⟩) }) ∨
    (∃ i e c, ev = .go i e ∧ s.threads i = some ⟨c, .ret none⟩ ∧
      step prog serve s ev =
        { s with threads := Function.update s.threads i (some ⟨c, prog c⟩) }) ∨
    ∃ i e c k next, ev = .go i e ∧ s.threads i = some ⟨c, .call k next⟩ ∧
      step prog serve s ev = ⟨(serve s.shared i e k).1,
        Function.update s.threads i (some ⟨c, next (serve s.shared i e k).2⟩)⟩ := by
  cases ev with
  | start i c =>
    cases ht : s.threads i with
    | none => exact .inr (.inl ⟨i, c, rfl, ht, by simp [step, ht]⟩)
    | some t => exact .inl (by simp [step, ht])
  | go i e =>
    cases ht : s.threads i with
    | none => exact .inl (by simp [step, ht])
    | some t =>
      obtain ⟨c, p⟩ := t
      match p, ht with
      | .ret (some a), ht => exact .inl (by simp [step, ht])
      | .ret none, ht => exact .inr (.inr (.inl ⟨i, e, c, rfl, ht, by simp [step, ht]⟩))
      | .call k next, ht =>
        exact .inr (.inr (.inr ⟨i, e, c, k, next, rfl, ht, by simp [step, ht]⟩))

variable {prog : χ → Procedure κ ρ (Option α)} {τ : Type*} {D : χ → Discipline κ ρ τ}
  {post : χ → τ → Option α → Prop} {view : σ → ℕ → τ}

/-- Every thread follows the discipline of its call, its local state being what the shared state
shows of it. -/
def Follow (D : χ → Discipline κ ρ τ) (post : χ → τ → Option α → Prop) (view : σ → ℕ → τ)
    (s : Pool σ κ ρ χ α) : Prop :=
  ∀ i c p, s.threads i = some ⟨c, p⟩ → p.Follows (D c) (post c) (view s.shared i)

/-- A thread that begins, or is called again, with a procedure that follows its discipline. -/
theorem Follow.begin (h : s.Follow D post view)
    (hprog : (prog c).Follows (D c) (post c) (view s.shared i)) :
    Follow D post view { s with threads := Function.update s.threads i (some ⟨c, prog c⟩) } := by
  intro j c' p hj
  by_cases hji : j = i
  · subst hji
    simp only [Function.update_self] at hj
    cases hj
    exact hprog
  · simp only [Function.update_of_ne hji] at hj
    exact h j c' p hj

/-- A call that is served: the caller's local state moves as the discipline says, and the others'
stay as they are. -/
theorem Follow.served {k : κ} {next : ρ k → Procedure κ ρ (Option α)} {r : σ × ρ k}
    (h : s.Follow D post view) (ht : s.threads i = some ⟨c, .call k next⟩)
    (hown : (D c).after (view s.shared i) k r.2 (view r.1 i))
    (hframe : ∀ j, j ≠ i → view r.1 j = view s.shared j) :
    Follow D post view ⟨r.1, Function.update s.threads i (some ⟨c, next r.2⟩)⟩ := by
  intro j c' p hj
  by_cases hji : j = i
  · subst hji
    simp only [Function.update_self] at hj
    cases hj
    exact (h j _ _ ht).2 _ _ hown
  · simp only [Function.update_of_ne hji] at hj
    rw [hframe j hji]
    exact h j c' p hj

/-- The call that a thread makes next is one that its discipline permits. -/
theorem Follow.permits {k : κ} {next : ρ k → Procedure κ ρ (Option α)}
    (h : s.Follow D post view) (ht : s.threads i = some ⟨c, .call k next⟩) :
    (D c).permits (view s.shared i) k := (h i _ _ ht).1

variable {prog' : χ → Procedure κ ρ (Option α)} {serve : σ → ℕ → ε → (k : κ) → σ × ρ k}

/-- A call that a thread is in after an event was started by it or was under way before. -/
theorem called_step {ev : Event χ ε} {t : Thread κ ρ χ α}
    (h : (step prog serve s ev).threads i = some t) :
    ev = .start i t.called ∨ ∃ t', s.threads i = some t' ∧ t'.called = t.called := by
  obtain heq | ⟨j, c, rfl, -, heq⟩ | ⟨j, e, c, -, hj, heq⟩ | ⟨j, e, c, k, next, -, hj, heq⟩ :=
    step_cases prog serve s ev
  · exact .inr ⟨t, heq ▸ h, rfl⟩
  all_goals
    rw [heq] at h
    by_cases hij : i = j
    · subst hij
      simp only [Function.update_self, Option.some.injEq] at h
      subst h
      first
        | exact .inl rfl
        | exact .inr ⟨_, hj, rfl⟩
    · simp only [Function.update_of_ne hij] at h
      exact .inr ⟨t, h, rfl⟩

/-- One event depends on the procedures of the calls under way and of the call that begins. -/
theorem step_congr {ev : Event χ ε} (hs : ∀ i t, s.threads i = some t → prog t.called = prog' t.called)
    (hev : ∀ i c, ev = .start i c → prog c = prog' c) :
    step prog serve s ev = step prog' serve s ev := by
  cases ev with
  | start i c => rw [step, step, hev i c rfl]
  | go i e =>
    cases ht : s.threads i with
    | none => simp only [step, ht]
    | some t =>
      obtain ⟨c, p⟩ := t
      have hprog : prog c = prog' c := hs i _ ht
      match p, ht with
      | .ret (some a), ht => simp only [step, ht]
      | .ret none, ht => simp only [step, ht, hprog]
      | .call k next, ht => simp only [step, ht]

/-- A run depends on the procedures of the calls that it starts. -/
theorem exec_congr {run : List (Event χ ε)}
    (hs : ∀ i t, s.threads i = some t → prog t.called = prog' t.called)
    (hrun : ∀ i c, .start i c ∈ run → prog c = prog' c) :
    Machine.exec (step prog serve) s run = Machine.exec (step prog' serve) s run := by
  induction run generalizing s with
  | nil => rfl
  | cons ev run ih =>
    have hev : ∀ i c, ev = .start i c → prog c = prog' c :=
      fun i c h => hrun i c (h ▸ List.mem_cons_self)
    rw [Machine.exec_cons, Machine.exec_cons, ← step_congr hs hev]
    refine ih (fun i t ht => ?_) fun i c h => hrun i c (List.mem_cons_of_mem _ h)
    obtain rfl | ⟨t', ht', hcalled⟩ := called_step ht
    · exact hev i t.called rfl
    · exact hcalled ▸ hs i t' ht'

end Pool
