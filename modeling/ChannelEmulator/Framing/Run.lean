import Mathlib.Data.List.Basic
import Mathlib.Tactic.Common

/-!
# Runs of a machine with outputs

A machine takes one input at a time, may fail, and emits a list of outputs with every
input it takes. `runAll` feeds it a list of inputs.

* `runAll_forall₂`: **the rule of a stage**. A machine that answers every input with one output,
  in a relation to what the input stands for, keeps the order of what passes through it.
* `runAll_inStep`: the same for a machine that counts, where the relation depends on the number of the input.
* `Judged.cons`: **the rule of refusals**. Where each input is taken just when it is good, a run
  gets through just when all of them are.
-/

namespace Framing

variable {ε σ α β : Type*}

/-- A computation of two parts succeeds when both do. -/
theorem bind_ok {γ δ : Type _} {x : Except ε γ} {f : γ → Except ε δ} {b : δ}
    (h : x >>= f = .ok b) : ∃ a, x = .ok a ∧ f a = .ok b := by
  cases x with
  | error e => exact absurd h (by simp [bind, Except.bind])
  | ok a => exact ⟨a, rfl, h⟩

/-- The second part of a computation whose first part has succeeded. -/
theorem ok_bind {γ δ : Type _} (a : γ) (f : γ → Except ε δ) : (Except.ok a >>= f) = f a := rfl

/-- Feeds the inputs one after the other and collects the outputs. -/
def runAll (f : σ → α → Except ε (σ × List β)) : σ → List α → Except ε (σ × List β)
  | s, [] => .ok (s, [])
  | s, a :: as => do
    let (s₁, o₁) ← f s a
    let (s₂, o₂) ← runAll f s₁ as
    return (s₂, o₁ ++ o₂)

variable {f : σ → α → Except ε (σ × List β)}

@[simp] theorem runAll_nil (s : σ) : runAll f s [] = .ok (s, []) := rfl

theorem runAll_cons_eq (s : σ) (a : α) (as : List α) :
    runAll f s (a :: as) = f s a >>= fun r => runAll f r.1 as >>= fun q => .ok (q.1, r.2 ++ q.2) := rfl

theorem runAll_cons {s s₁ s₂ : σ} {a : α} {as : List α} {o₁ o₂ : List β}
    (h₁ : f s a = .ok (s₁, o₁)) (h₂ : runAll f s₁ as = .ok (s₂, o₂)) :
    runAll f s (a :: as) = .ok (s₂, o₁ ++ o₂) := by
  rw [runAll_cons_eq, h₁, ok_bind, h₂, ok_bind]

/-- A run that succeeds succeeds at its first input and on the rest. -/
theorem runAll_cons_inv {s s₂ : σ} {a : α} {as : List α} {o : List β}
    (h : runAll f s (a :: as) = .ok (s₂, o)) :
    ∃ s₁ o₁ o₂, f s a = .ok (s₁, o₁) ∧ runAll f s₁ as = .ok (s₂, o₂) ∧ o = o₁ ++ o₂ := by
  obtain ⟨⟨s₁, o₁⟩, h₁, h⟩ := bind_ok h
  obtain ⟨⟨s₃, o₂⟩, h₂, h⟩ := bind_ok h
  obtain ⟨rfl, rfl⟩ := Prod.mk.inj (Except.ok.inj h)
  exact ⟨s₁, o₁, o₂, h₁, h₂, rfl⟩

/-- Machines that agree on the inputs of a run agree on the run. -/
theorem runAll_congr {g : σ → α → Except ε (σ × List β)} {as : List α}
    (h : ∀ s, ∀ a ∈ as, f s a = g s a) (s : σ) : runAll f s as = runAll g s as := by
  induction as generalizing s with
  | nil => rfl
  | cons a as ih =>
    rw [runAll_cons_eq, runAll_cons_eq, h s a List.mem_cons_self]
    rcases g s a with e | ⟨s₁, o₁⟩
    · rfl
    · rw [ok_bind, ok_bind, ih (fun s b hb => h s b (List.mem_cons_of_mem a hb)) s₁]

/-- A machine that is fed with what its inputs are read as. -/
theorem runAll_map {γ : Type*} (g : γ → α) (s : σ) (cs : List γ) :
    runAll (fun s c => f s (g c)) s cs = runAll f s (cs.map g) := by
  induction cs generalizing s with
  | nil => rfl
  | cons c cs ih =>
    rw [runAll_cons_eq, List.map_cons, runAll_cons_eq]
    simp only [ih]

/-- A run goes on where the run of the first inputs has ended. -/
theorem runAll_append_inv {s s₂ : σ} {as bs : List α} {o : List β} (h : runAll f s (as ++ bs) = .ok (s₂, o)) :
    ∃ s₁ o₁ o₂, runAll f s as = .ok (s₁, o₁) ∧ runAll f s₁ bs = .ok (s₂, o₂) ∧ o = o₁ ++ o₂ := by
  induction as generalizing s o with
  | nil => exact ⟨s, [], o, rfl, h, rfl⟩
  | cons a as ih =>
    obtain ⟨s', o', o'', hfirst, hrest, rfl⟩ := runAll_cons_inv h
    obtain ⟨s₁, o₁, o₂, h₁, h₂, rfl⟩ := ih hrest
    exact ⟨s₁, o' ++ o₁, o₂, runAll_cons hfirst h₁, h₂, (List.append_assoc ..).symm⟩

/-- A run whose outputs are changed one by one. -/
theorem runAll_outputs {γ : Type*} (g : β → γ) (s : σ) (as : List α) :
    runAll (fun s a => (f s a).map fun r => (r.1, r.2.map g)) s as =
      (runAll f s as).map fun r => (r.1, r.2.map g) := by
  induction as generalizing s with
  | nil => rfl
  | cons a as ih =>
    rw [runAll_cons_eq, runAll_cons_eq]
    cases f s a with
    | error e => rfl
    | ok p =>
      show runAll _ p.1 as >>= _ = _
      rw [ih]
      cases hrest : runAll f p.1 as with
      | error e => rw [ok_bind, hrest]; rfl
      | ok q =>
        rw [ok_bind, hrest]
        refine congrArg (fun o => Except.ok (q.1, o)) ?_
        exact (List.map_append ..).symm

theorem runAll_error {s : σ} {a : α} {as : List α} {e : ε} (h : f s a = .error e) :
    runAll f s (a :: as) = .error e := by
  rw [runAll_cons_eq, h]
  rfl

theorem runAll_cons_error {s s₁ : σ} {a : α} {as : List α} {o₁ : List β} {e : ε}
    (h₁ : f s a = .ok (s₁, o₁)) (h₂ : runAll f s₁ as = .error e) :
    runAll f s (a :: as) = .error e := by
  rw [runAll_cons_eq, h₁, ok_bind, h₂]
  rfl

/-! ## Refusals -/

/-- A computation over what is good sends `out` and leaves what `I` says; over anything else it
is refused. -/
def Judged (x : Except ε (σ × List β)) (good : Prop) (out : List β) (I : σ → Prop) : Prop :=
  (good → ∃ s', x = .ok (s', out) ∧ I s') ∧ (¬good → ∃ e, x = .error e)

theorem Judged.of_ok {x : Except ε (σ × List β)} {good : Prop} {out : List β} {I : σ → Prop}
    {s' : σ} (hg : good) (h : x = .ok (s', out)) (hI : I s') : Judged x good out I :=
  ⟨fun _ => ⟨s', h, hI⟩, fun hn => absurd hg hn⟩

/-- **The rule of refusals.** -/
theorem Judged.cons {s : σ} {a : α} {as : List α} {P Q : Prop} {o out : List β} {I J : σ → Prop}
    (h : Judged (f s a) Q o J) (hrest : ∀ s₁, J s₁ → Judged (runAll f s₁ as) P out I) :
    Judged (runAll f s (a :: as)) (Q ∧ P) (o ++ out) I := by
  constructor
  · rintro ⟨hq, hp⟩
    obtain ⟨s₁, h₁, hJ⟩ := h.1 hq
    obtain ⟨s₂, h₂, hI⟩ := (hrest s₁ hJ).1 hp
    exact ⟨s₂, runAll_cons h₁ h₂, hI⟩
  · intro hn
    by_cases hq : Q
    · obtain ⟨s₁, h₁, hJ⟩ := h.1 hq
      obtain ⟨e, he⟩ := (hrest s₁ hJ).2 fun hp => hn ⟨hq, hp⟩
      exact ⟨e, runAll_cons_error h₁ he⟩
    · obtain ⟨e, he⟩ := h.2 hq
      exact ⟨e, runAll_error he⟩

/-! ## Stages -/

/-- **The rule of a stage.** What an input stands for the one output to it stands for, and each
step counts one up. -/
theorem runAll_forall₂ {γ : Type*} {R : γ → α → Prop} {R' : γ → β → Prop} {count : σ → ℕ}
    (step : ∀ s d a, R d a → ∃ s' b, f s a = .ok (s', [b]) ∧ R' d b ∧ count s' = count s + 1)
    {ds : List γ} {as : List α} (h : List.Forall₂ R ds as) (s : σ) :
    ∃ s' bs, runAll f s as = .ok (s', bs) ∧ List.Forall₂ R' ds bs ∧
      count s' = count s + ds.length := by
  induction h generalizing s with
  | nil => exact ⟨s, [], runAll_nil s, .nil, rfl⟩
  | @cons d a ds as hd _ ih =>
    obtain ⟨s₁, b, h₁, hb, hc⟩ := step s d a hd
    obtain ⟨s₂, bs, h₂, hbs, hc₂⟩ := ih s₁
    refine ⟨s₂, b :: bs, runAll_cons h₁ h₂, .cons hb hbs, ?_⟩
    rw [hc₂, hc, List.length_cons]
    omega

/-- Inputs in order, each in a relation to its number and to what it stands for. -/
inductive InStep {γ : Type*} (R : ℕ → γ → α → Prop) : ℕ → List γ → List α → Prop where
  | nil {k : ℕ} : InStep R k [] []
  | cons {k : ℕ} {d : γ} {a : α} {ds : List γ} {as : List α} :
      R k d a → InStep R (k + 1) ds as → InStep R k (d :: ds) (a :: as)

/-- **The rule of a stage that counts.** The state at an input is in step with the number of the input. -/
theorem runAll_inStep {γ : Type*} {R : ℕ → γ → α → Prop} {Q : ℕ → γ → β → Prop} {I : ℕ → σ → Prop}
    (step : ∀ k s d a, I k s → R k d a → ∃ s' b, f s a = .ok (s', [b]) ∧ Q k d b ∧ I (k + 1) s')
    {k : ℕ} {ds : List γ} {as : List α} (h : InStep R k ds as) {s : σ} (hs : I k s) :
    ∃ s' bs, runAll f s as = .ok (s', bs) ∧ InStep Q k ds bs ∧ I (k + ds.length) s' := by
  induction h generalizing s with
  | nil => exact ⟨s, [], runAll_nil s, .nil, hs⟩
  | @cons k d a ds as hd _ ih =>
    obtain ⟨s₁, b, h₁, hb, hI⟩ := step k s d a hs hd
    obtain ⟨s₂, bs, h₂, hbs, hI₂⟩ := ih hI
    refine ⟨s₂, b :: bs, runAll_cons h₁ h₂, .cons hb hbs, ?_⟩
    rwa [List.length_cons, show k + (ds.length + 1) = k + 1 + ds.length by omega]

/-- The condition holds of every input of a run and the state it is fed in. -/
def EveryStep (f : σ → α → Except ε (σ × List β)) (P : σ → α → Prop) : σ → List α → Prop
  | _, [] => True
  | s, a :: as => P s a ∧ ∀ s' o, f s a = .ok (s', o) → EveryStep f P s' as

/-- What every step of a run keeps, the run keeps. -/
theorem runAll_keeps {γ : Type*} (kept : σ → γ) {as : List α}
    (step : ∀ s a s' o, a ∈ as → f s a = .ok (s', o) → kept s' = kept s) {s s' : σ} {o : List β}
    (h : runAll f s as = .ok (s', o)) : kept s' = kept s := by
  induction as generalizing s o with
  | nil =>
    obtain ⟨rfl, -⟩ := Prod.mk.inj (Except.ok.inj h)
    rfl
  | cons a as ih =>
    obtain ⟨s₁, o₁, o₂, h₁, h₂, -⟩ := runAll_cons_inv h
    rw [ih (fun s b s' o hb => step s b s' o (List.mem_cons_of_mem a hb)) h₂,
      step s a s₁ o₁ List.mem_cons_self h₁]

end Framing
