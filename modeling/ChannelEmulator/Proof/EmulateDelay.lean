import ChannelEmulator.Spec.EmulateDelay
import Mathlib.Data.List.Perm.Basic
import Mathlib.Tactic.Common

/-!
# When delayed units leave

* `units_kept`: **no unit is lost or doubled, and none leaves early**, in any run, whatever is set on the way.
* `departs_exactly`: in their order, units leave **exactly at the times of `departures`**.
* `leaves_in_time`: where jitter may change the order, a unit is late **only for the unit that the thread had taken**
  when it came.
-/

namespace ChannelEmulator.EmulateDelay

variable {s s' : Delay} {ok : Delay → Delay.Event → Prop} {allowJitterReorder : Bool}

/-! ## Steps -/

namespace Delay

/-- What `getData_` does. -/
theorem getData_cases {place : ℕ} (h : s.getData place = some s') : s.taken = none ∧ ∃ (i : ℕ) (u : Delayed),
    s.queue[i]? = some u ∧ (s.allowJitterReorder = false → i = 0) ∧ (s.allowJitterReorder = true → s.IsNext u) ∧
      s' = { s with queue := s.queue.eraseIdx i, taken := some u } := by
  unfold getData at h
  cases htaken : s.taken with
  | some u =>
    rw [htaken] at h
    cases h
  | none =>
    rw [htaken] at h
    refine ⟨rfl, if s.allowJitterReorder = true then place else 0, ?_⟩
    cases hget : s.queue[if s.allowJitterReorder = true then place else 0]? with
    | none =>
      simp only [hget] at h
      cases h
    | some u =>
      simp only [hget] at h
      split at h
      · next hnext =>
        refine ⟨u, rfl, fun hfalse => ?_, hnext, (Option.some.inj h).symm⟩
        rw [hfalse, if_neg (by decide)]
      · cases h

/-- What `svc` does behind the sleep. -/
theorem send_cases (h : s.send = some s') : ∃ u, s.taken = some u ∧ u.deadline ≤ s.clock ∧
    s' = { s with taken := none, sent := s.sent ++ [(u, s.clock)] } := by
  unfold send at h
  cases htaken : s.taken with
  | none =>
    rw [htaken] at h
    cases h
  | some u =>
    rw [htaken] at h
    simp only at h
    split at h
    · next hle => exact ⟨u, rfl, hle, (Option.some.inj h).symm⟩
    · cases h

/-- The unit that a call of `putData` makes. -/
def made (s : Delay) (c : Call) : Delayed where
  data := c.data
  deadline := s.sendTime c
  arrival := s.clock
  asleepUntil := (s.taken.map Delayed.deadline).getD 0

/-- What `putData` does: the unit goes to a place in the queue, which is the last where the order is kept. -/
theorem putData_cases (s : Delay) (c : Call) : ∃ queue : List Delayed, queue.Perm (s.queue ++ [s.made c]) ∧
    (s.allowJitterReorder = false → queue = s.queue ++ [s.made c]) ∧
      s.putData c = { s with queue := queue, put := s.put ++ [s.made c] } := by
  unfold putData
  cases hreorder : s.allowJitterReorder with
  | false => exact ⟨_, .refl _, fun _ => rfl, rfl⟩
  | true =>
    refine ⟨_, ?_, fun h => absurd h (by decide), rfl⟩
    exact (List.perm_insertIdx _ _ (Nat.min_le_right _ _)).trans (List.perm_append_singleton _ _).symm

/-- **What a step does.** -/
theorem step_cases {e : Event} (h : s.step e = some s') :
    (e = .tick ∧ s' = { s with clock := s.clock + 1 }) ∨
    (∃ c queue, e = .putData c ∧ queue.Perm (s.queue ++ [s.made c]) ∧
      (s.allowJitterReorder = false → queue = s.queue ++ [s.made c]) ∧
      s' = { s with queue := queue, put := s.put ++ [s.made c] }) ∨
    (∃ i u, s.taken = none ∧ s.queue[i]? = some u ∧ (s.allowJitterReorder = false → i = 0) ∧
      (s.allowJitterReorder = true → s.IsNext u) ∧
      s' = { s with queue := s.queue.eraseIdx i, taken := some u }) ∨
    (∃ u, s.taken = some u ∧ u.deadline ≤ s.clock ∧
      s' = { s with taken := none, sent := s.sent ++ [(u, s.clock)] }) ∨
    (∃ newVal useTimeStamp, (newVal = s.allowJitterReorder ∨ e = .setAllowJitterReorder newVal) ∧
      s' = { s with allowJitterReorder := newVal, useTimeStamp := useTimeStamp }) := by
  cases e with
  | tick => exact .inl ⟨rfl, (Option.some.inj h).symm⟩
  | putData c =>
    obtain ⟨queue, hperm, hlast, hput⟩ := s.putData_cases c
    change (if c.time ≤ s.clock then some (s.putData c) else none) = some s' at h
    split at h
    · rw [hput] at h
      exact .inr (.inl ⟨c, queue, rfl, hperm, hlast, (Option.some.inj h).symm⟩)
    · cases h
  | getData place =>
    obtain ⟨htaken, i, u, hu⟩ := getData_cases h
    exact .inr (.inr (.inl ⟨i, u, htaken, hu⟩))
  | send => exact .inr (.inr (.inr (.inl (send_cases h))))
  | setAllowJitterReorder newVal =>
    exact .inr (.inr (.inr (.inr ⟨newVal, s.useTimeStamp, .inr rfl, (Option.some.inj h).symm⟩)))
  | setUseTimeStamp newVal =>
    exact .inr (.inr (.inr (.inr ⟨s.allowJitterReorder, newVal, .inl rfl, (Option.some.inj h).symm⟩)))

end Delay

/-! ## Any run -/

/-- What holds in any run: each unit that was put is in one place, and what was sent was due, and there. -/
structure Kept (s : Delay) : Prop where
  all : (s.sent.map Prod.fst ++ (s.taken.toList ++ s.queue)).Perm s.put
  arrived : ∀ u ∈ s.put, u.arrival ≤ s.clock
  times : ∀ p ∈ s.sent, p.1.deadline ≤ p.2 ∧ p.1.arrival ≤ p.2 ∧ p.2 ≤ s.clock
  ordered : s.sent.Pairwise fun p q => p.2 ≤ q.2

theorem Kept.arrival_le (h : Kept s) {u : Delayed} (hu : u ∈ s.taken.toList ++ s.queue) : u.arrival ≤ s.clock :=
  h.arrived u (h.all.subset (List.mem_append_right _ hu))

/-- A unit goes from one place to the next. -/
theorem perm_eraseIdx {queue : List Delayed} {i : ℕ} {u : Delayed} (h : queue[i]? = some u) :
    (u :: queue.eraseIdx i).Perm queue := by
  obtain ⟨hi, rfl⟩ := List.getElem?_eq_some_iff.1 h
  exact List.getElem_cons_eraseIdx_perm hi

/-- **A step keeps it.** -/
theorem Kept.step (h : Kept s) {e : Delay.Event} (hstep : s.step e = some s') : Kept s' := by
  rcases Delay.step_cases hstep with ⟨-, rfl⟩ | ⟨c, queue, -, hperm, -, rfl⟩ | ⟨i, u, htaken, hu, -, -, rfl⟩ |
    ⟨u, htaken, hle, rfl⟩ | ⟨newVal, useTimeStamp, -, rfl⟩
  · refine ⟨h.all, fun u hu => Nat.le_succ_of_le (h.arrived u hu), fun p hp => ?_, h.ordered⟩
    obtain ⟨hdeadline, harrival, hclock⟩ := h.times p hp
    exact ⟨hdeadline, harrival, Nat.le_succ_of_le hclock⟩
  · refine ⟨?_, fun u hu => ?_, h.times, h.ordered⟩
    · have hput := h.all.append_right [s.made c]
      rw [List.append_assoc, List.append_assoc] at hput
      exact (((hperm.append_left _).append_left _)).trans hput
    · rcases List.mem_append.1 hu with hu | hu
      · exact h.arrived u hu
      · rw [List.mem_singleton.1 hu]
        exact Nat.le_refl _
  · refine ⟨?_, h.arrived, h.times, h.ordered⟩
    have hall := h.all
    rw [htaken] at hall
    exact ((perm_eraseIdx hu).append_left _).trans hall
  · have hall := h.all
    rw [htaken] at hall
    refine ⟨?_, h.arrived, fun p hp => ?_, ?_⟩
    · rw [List.map_append, List.append_assoc]
      exact hall
    · rcases List.mem_append.1 hp with hp | hp
      · exact h.times p hp
      · rw [List.mem_singleton.1 hp]
        exact ⟨hle, h.arrival_le (by rw [htaken]; exact List.mem_cons_self), Nat.le_refl _⟩
    · refine List.pairwise_append.2 ⟨h.ordered, List.pairwise_singleton _ _, fun p hp q hq => ?_⟩
      rw [List.mem_singleton.1 hq]
      exact (h.times p hp).2.2
  · exact ⟨h.all, h.arrived, h.times, h.ordered⟩

theorem kept_of_reached (h : Reached allowJitterReorder ok s) : Kept s := by
  induction h with
  | start => exact ⟨.refl _, fun u hu => absurd hu List.not_mem_nil, fun p hp => absurd hp List.not_mem_nil, .nil⟩
  | step _ _ hstep ih => exact ih.step hstep

/-- In the order in which they came: sent, taken, and in the queue. -/
structure InOrder (s : Delay) : Prop where
  mode : s.allowJitterReorder = false
  order : s.put = s.sent.map Prod.fst ++ (s.taken.toList ++ s.queue)

theorem InOrder.step (h : InOrder s) {e : Delay.Event} (he : e ≠ .setAllowJitterReorder true)
    (hstep : s.step e = some s') : InOrder s' := by
  have hmode := h.mode
  have horder := h.order
  rcases Delay.step_cases hstep with ⟨-, rfl⟩ | ⟨c, queue, -, -, hlast, rfl⟩ | ⟨i, u, htaken, hu, hfirst, -, rfl⟩ |
    ⟨u, htaken, hle, rfl⟩ | ⟨newVal, useTimeStamp, hnew, rfl⟩
  · exact ⟨hmode, horder⟩
  · refine ⟨hmode, ?_⟩
    rw [hlast hmode]
    simp only [horder, List.append_assoc]
  · refine ⟨hmode, ?_⟩
    obtain rfl := hfirst hmode
    rw [htaken] at horder
    cases hqueue : s.queue with
    | nil =>
      rw [hqueue] at hu
      cases hu
    | cons v queue =>
      rw [hqueue] at hu horder
      obtain rfl := Option.some.inj hu
      exact horder
  · refine ⟨hmode, ?_⟩
    rw [htaken] at horder
    rw [List.map_append, List.append_assoc]
    exact horder
  · refine ⟨?_, horder⟩
    rcases hnew with rfl | rfl
    · exact hmode
    · exact Bool.eq_false_of_not_eq_true fun hnew => he (hnew ▸ rfl)

/-- **No unit is lost or doubled, and none leaves early.** Each unit that was put was sent, is taken or waits in the
queue, and what was sent was due and there. Where jitter was never allowed to change the order, it has not changed. -/
theorem units_kept (h : Reached allowJitterReorder ok s) :
    (s.sent.map Prod.fst ++ (s.taken.toList ++ s.queue)).Perm s.put ∧
      (∀ p ∈ s.sent, p.1.deadline ≤ p.2 ∧ p.1.arrival ≤ p.2 ∧ p.2 ≤ s.clock) ∧
      (s.sent.Pairwise fun p q => p.2 ≤ q.2) ∧
      (allowJitterReorder = false → (∀ s e, ok s e → e ≠ .setAllowJitterReorder true) →
        s.put = s.sent.map Prod.fst ++ (s.taken.toList ++ s.queue)) := by
  have hkept := kept_of_reached h
  refine ⟨hkept.all, hkept.times, hkept.ordered, fun hfalse hnever => ?_⟩
  have horder : InOrder s := by
    clear hkept
    induction h with
    | start => exact ⟨hfalse, rfl⟩
    | step _ hok hstep ih => exact ih.step (hnever _ _ hok) hstep
  exact horder.order

/-- A unit that overtakes another in the queue, when jitter may change the order. -/
theorem units_kept_two : ∃ s, Reached false (fun _ _ => True) s ∧ s.sent = [(⟨[2], 1, 0, 0⟩, 1)] ∧
    s.queue = [⟨[1], 5, 0, 0⟩] ∧ (s.sent.map Prod.fst ++ (s.taken.toList ++ s.queue)).Perm s.put := by
  have h₁ : Reached false (fun _ _ => True) _ := .step .start trivial (e := .putData ⟨[1], 0, 0, 5, 0⟩) rfl
  have h₂ : Reached false (fun _ _ => True) _ := .step h₁ trivial (e := .setAllowJitterReorder true) rfl
  have h₃ : Reached false (fun _ _ => True) _ := .step h₂ trivial (e := .putData ⟨[2], 0, 0, 1, 1⟩) rfl
  have h₄ : Reached false (fun _ _ => True) _ := .step h₃ trivial (e := .getData 1) rfl
  have h₅ : Reached false (fun _ _ => True) _ := .step h₄ trivial (e := .tick) rfl
  have h₆ : Reached false (fun _ _ => True) _ := .step h₅ trivial (e := .send) rfl
  exact ⟨_, h₆, rfl, rfl, (units_kept h₆).1⟩

/-! ## In order -/

theorem prompt_of_ne {e : Delay.Event} (htick : e ≠ .tick) (horder : ∀ newVal, e ≠ .setAllowJitterReorder newVal) :
    Prompt s e :=
  ⟨fun h => absurd h htick, fun newVal h => absurd h (horder newVal)⟩

theorem prompt_tick (h : s.Resting) : Prompt s .tick := ⟨fun _ => h, fun _ h => by cases h⟩

/-- The time behind the departures of units. -/
def lastTime : ℕ → List Delayed → ℕ
  | time, [] => time
  | time, u :: units => lastTime (max time (max u.arrival u.deadline)) units

theorem lastTime_concat (units : List Delayed) (time : ℕ) (u : Delayed) :
    lastTime time (units ++ [u]) = max (lastTime time units) (max u.arrival u.deadline) := by
  induction units generalizing time with
  | nil => rfl
  | cons v units ih => exact ih _

theorem departures_append (units more : List Delayed) (time : ℕ) :
    departures time (units ++ more) = departures time units ++ departures (lastTime time units) more := by
  induction units generalizing time with
  | nil => rfl
  | cons u units ih => exact congrArg (List.cons _) (ih _)

theorem le_departures {units : List Delayed} {time : ℕ} : ∀ p ∈ departures time units, time ≤ p.2 := by
  induction units generalizing time with
  | nil => exact fun p hp => absurd hp List.not_mem_nil
  | cons u units ih =>
    intro p hp
    rcases List.mem_cons.1 hp with rfl | hp
    · exact Nat.le_max_left _ _
    · exact (Nat.le_max_left _ _).trans (ih p hp)

/-- The first of the units that are not sent, and when it may leave: the thread has done at once what it can do. -/
def Ahead (s : Delay) (time : ℕ) : Prop :=
  match s.taken, s.queue with
  | some u, _ => max time u.arrival ≤ s.clock ∧ s.clock ≤ max time (max u.arrival u.deadline)
  | none, u :: _ => s.clock ≤ max time u.arrival
  | none, [] => True

/-- What holds in the runs of a thread that does at once what it can do, where the order is kept. -/
structure OnTime (s : Delay) : Prop where
  inOrder : InOrder s
  arrived : ∀ u ∈ s.put, u.arrival ≤ s.clock
  exact_eq : s.sent = departures 0 (s.sent.map Prod.fst)
  last : lastTime 0 (s.sent.map Prod.fst) ≤ s.clock
  ahead : Ahead s (lastTime 0 (s.sent.map Prod.fst))

theorem OnTime.step (h : OnTime s) {e : Delay.Event} (he : Prompt s e) (hstep : s.step e = some s') : OnTime s' := by
  have hnever : e ≠ .setAllowJitterReorder true := by
    rintro rfl
    have hstays := he.stays true rfl
    rw [h.inOrder.mode] at hstays
    cases hstays
  have hinOrder := h.inOrder.step hnever hstep
  have hahead := h.ahead
  have hwaits : ∀ u ∈ s.queue, u.arrival ≤ s.clock := fun u hu => h.arrived u (by
    rw [h.inOrder.order]
    exact List.mem_append_right _ (List.mem_append_right _ hu))
  unfold Ahead at hahead
  rcases Delay.step_cases hstep with ⟨rfl, rfl⟩ | ⟨c, queue, -, -, hlast, rfl⟩ | ⟨i, u, htaken, hu, hfirst, -, rfl⟩ |
    ⟨u, htaken, hle, rfl⟩ | ⟨newVal, useTimeStamp, -, rfl⟩
  · refine ⟨hinOrder, fun u hu => Nat.le_succ_of_le (h.arrived u hu), h.exact_eq, Nat.le_succ_of_le h.last, ?_⟩
    -- the clock goes on only while the thread sleeps, or has nothing to take
    have hrests := he.rests rfl
    unfold Delay.Resting at hrests
    unfold Ahead
    cases htaken : s.taken with
    | some u =>
      rw [htaken] at hrests hahead
      exact ⟨Nat.le_succ_of_le hahead.1, by simp only at hrests ⊢; omega⟩
    | none =>
      rw [htaken] at hrests
      simp only at hrests ⊢
      rw [hrests]
      trivial
  · refine ⟨hinOrder, fun u hu => ?_, h.exact_eq, h.last, ?_⟩
    · rcases List.mem_append.1 hu with hu | hu
      · exact h.arrived u hu
      · rw [List.mem_singleton.1 hu]
        exact Nat.le_refl _
    · rw [hlast h.inOrder.mode]
      unfold Ahead
      cases htaken : s.taken with
      | some u =>
        rw [htaken] at hahead
        exact hahead
      | none =>
        rw [htaken] at hahead
        cases hqueue : s.queue with
        | nil => exact Nat.le_max_right _ _
        | cons u queue =>
          rw [hqueue] at hahead
          exact hahead
  · refine ⟨hinOrder, h.arrived, h.exact_eq, h.last, ?_⟩
    obtain rfl := hfirst h.inOrder.mode
    cases hqueue : s.queue with
    | nil =>
      rw [hqueue] at hu
      cases hu
    | cons v queue =>
      have harrival := hwaits v (by rw [hqueue]; exact List.mem_cons_self)
      have hlast := h.last
      rw [hqueue] at hu
      obtain rfl := Option.some.inj hu
      rw [htaken, hqueue] at hahead
      refine ⟨by simp only; omega, by simp only at hahead ⊢; omega⟩
  · have hlast := h.last
    rw [htaken] at hahead
    have htime : s.clock = max (lastTime 0 (s.sent.map Prod.fst)) (max u.arrival u.deadline) := by
      simp only at hahead
      omega
    have hlast' : lastTime 0 ((s.sent ++ [(u, s.clock)]).map Prod.fst) = s.clock := by
      rw [List.map_append, List.map_singleton, lastTime_concat, ← htime]
    refine ⟨hinOrder, h.arrived, ?_, hlast'.le, ?_⟩
    · show s.sent ++ [(u, s.clock)] = departures 0 ((s.sent ++ [(u, s.clock)]).map Prod.fst)
      rw [List.map_append, departures_append, ← h.exact_eq]
      exact congrArg (fun t => s.sent ++ [(u, t)]) htime
    · show Ahead _ (lastTime 0 ((s.sent ++ [(u, s.clock)]).map Prod.fst))
      rw [hlast']
      unfold Ahead
      cases s.queue with
      | nil => exact trivial
      | cons v queue => exact Nat.le_max_left _ _
  · exact ⟨hinOrder, h.arrived, h.exact_eq, h.last, h.ahead⟩

theorem onTime_of_reached (h : Reached false Prompt s) : OnTime s := by
  induction h with
  | start => exact ⟨⟨rfl, rfl⟩, fun u hu => absurd hu List.not_mem_nil, rfl, Nat.le_refl _, trivial⟩
  | step _ hok hstep ih => exact ih.step hok hstep

/-- **Units leave exactly at the times of `departures`**, where the thread does at once what it can do and the order is
kept: those that have left are the first of them, each with its time, and no time of another one is past. -/
theorem departs_exactly (h : Reached false Prompt s) :
    ∃ rest, departures 0 s.put = s.sent ++ rest ∧ ∀ p ∈ rest, s.clock ≤ p.2 := by
  have honTime := onTime_of_reached h
  refine ⟨departures (lastTime 0 (s.sent.map Prod.fst)) (s.taken.toList ++ s.queue), ?_, ?_⟩
  · rw [honTime.inOrder.order, departures_append, ← honTime.exact_eq]
  · have hahead := honTime.ahead
    unfold Ahead at hahead
    have hrest : ∀ (u : Delayed) (units : List Delayed) (time : ℕ), s.clock ≤ max time (max u.arrival u.deadline) →
        ∀ p ∈ departures time (u :: units), s.clock ≤ p.2 := by
      intro u units time hle p hp
      rcases List.mem_cons.1 hp with rfl | hp
      · exact hle
      · exact hle.trans (le_departures p hp)
    cases htaken : s.taken with
    | some u =>
      rw [htaken] at hahead
      exact hrest u s.queue _ hahead.2
    | none =>
      rw [htaken] at hahead
      cases hqueue : s.queue with
      | nil => exact fun p hp => absurd hp List.not_mem_nil
      | cons u queue =>
        rw [hqueue] at hahead
        exact hrest u queue _ (by simp only at hahead; omega)

/-- Two units, of which the second is due while the first is not sent. -/
theorem departs_exactly_two : ∃ s, Reached false Prompt s ∧ s.sent = [(⟨[1], 1, 0, 0⟩, 1)] ∧
    s.queue = [⟨[2], 0, 0, 1⟩] ∧ ∃ rest, departures 0 s.put = s.sent ++ rest ∧ ∀ p ∈ rest, s.clock ≤ p.2 := by
  have h₁ : Reached false Prompt _ := .step .start (prompt_of_ne (by decide) (by decide))
    (e := .putData ⟨[1], 0, 0, 1, 0⟩) rfl
  have h₂ : Reached false Prompt _ := .step h₁ (prompt_of_ne (by decide) (by decide)) (e := .getData 0) rfl
  have h₃ : Reached false Prompt _ := .step h₂ (prompt_of_ne (by decide) (by decide))
    (e := .putData ⟨[2], 0, 0, 0, 0⟩) rfl
  have h₄ : Reached false Prompt _ := .step h₃ (prompt_tick Nat.one_pos) (e := .tick) rfl
  have h₅ : Reached false Prompt _ := .step h₄ (prompt_of_ne (by decide) (by decide)) (e := .send) rfl
  exact ⟨_, h₅, rfl, rfl, departs_exactly h₅⟩

/-! ## With another order -/

/-- Until when a unit leaves where jitter may change the order. -/
def Delayed.latest (u : Delayed) : ℕ := max u.deadline (max u.arrival u.asleepUntil)

/-- What holds in the runs of a thread that does at once what it can do, where jitter may change the order. -/
structure InTime (s : Delay) : Prop where
  mode : s.allowJitterReorder = true
  waiting : ∀ u ∈ s.queue, s.clock ≤ u.latest ∧ ∀ v ∈ s.taken, v.deadline ≤ u.latest
  taken : ∀ u ∈ s.taken, s.clock ≤ u.latest
  sent : ∀ p ∈ s.sent, p.2 ≤ p.1.latest

theorem InTime.step (h : InTime s) {e : Delay.Event} (he : Prompt s e) (hstep : s.step e = some s') : InTime s' := by
  rcases Delay.step_cases hstep with ⟨rfl, rfl⟩ | ⟨c, queue, -, hperm, -, rfl⟩ | ⟨i, u, htaken, hu, -, hnext, rfl⟩ |
    ⟨u, htaken, hle, rfl⟩ | ⟨newVal, useTimeStamp, hnew, rfl⟩
  · have hrests := he.rests rfl
    unfold Delay.Resting at hrests
    refine ⟨h.mode, fun u hu => ⟨?_, (h.waiting u hu).2⟩, fun u hu => ?_, h.sent⟩
    · cases htaken : s.taken with
      | none =>
        rw [htaken] at hrests
        rw [show s.queue = [] from hrests] at hu
        cases hu
      | some v =>
        -- the thread sleeps, and no longer than until the unit is late
        rw [htaken] at hrests
        exact Nat.le_trans (Nat.succ_le_of_lt hrests) ((h.waiting u hu).2 v htaken)
    · rw [show s.taken = some u from hu] at hrests
      exact Nat.le_trans (Nat.succ_le_of_lt hrests) (Nat.le_max_left _ _)
  · refine ⟨h.mode, fun u hu => ?_, h.taken, h.sent⟩
    rcases List.mem_append.1 (hperm.subset hu) with hu | hu
    · exact h.waiting u hu
    · obtain rfl := List.mem_singleton.1 hu
      refine ⟨(Nat.le_max_left _ _).trans (Nat.le_max_right _ _), fun v hv => ?_⟩
      have hasleep : (s.made c).asleepUntil = v.deadline := by
        unfold Delay.made
        rw [show s.taken = some v from hv]
        rfl
      unfold Delayed.latest
      rw [hasleep]
      exact (Nat.le_max_right _ _).trans (Nat.le_max_right _ _)
  · have hmem : u ∈ s.queue := List.mem_of_getElem? hu
    refine ⟨h.mode, fun v hv => ?_, fun v hv => ?_, h.sent⟩
    · have hv' := List.mem_of_mem_eraseIdx hv
      refine ⟨(h.waiting v hv').1, fun w hw => ?_⟩
      obtain rfl := Option.some.inj hw
      exact (hnext h.mode v hv').trans (Nat.le_max_left _ _)
    · obtain rfl := Option.some.inj hv
      exact (h.waiting u hmem).1
  · refine ⟨h.mode, fun v hv => ⟨(h.waiting v hv).1, fun w hw => ?_⟩, fun w hw => ?_, fun p hp => ?_⟩
    · cases hw
    · cases hw
    · rcases List.mem_append.1 hp with hp | hp
      · exact h.sent p hp
      · rw [List.mem_singleton.1 hp]
        exact h.taken u htaken
  · refine ⟨?_, h.waiting, h.taken, h.sent⟩
    rcases hnew with rfl | rfl
    · exact h.mode
    · rw [he.stays newVal rfl]
      exact h.mode

/-- **A unit is late only for what the thread had taken when it came**, where jitter may change the order and the thread
does at once what it can do: it leaves when it is due and there, or when the thread wakes for that unit. -/
theorem leaves_in_time (h : Reached true Prompt s) :
    (∀ p ∈ s.sent, p.1.deadline ≤ p.2 ∧ p.2 ≤ max p.1.deadline (max p.1.arrival p.1.asleepUntil)) ∧
      ∀ u ∈ s.taken.toList ++ s.queue, s.clock ≤ max u.deadline (max u.arrival u.asleepUntil) := by
  have hinTime : InTime s := by
    induction h with
    | start =>
      exact ⟨rfl, fun u hu => absurd hu List.not_mem_nil, fun u hu => absurd hu (Option.not_mem_none u),
        fun p hp => absurd hp List.not_mem_nil⟩
    | step _ hok hstep ih => exact ih.step hok hstep
  refine ⟨fun p hp => ⟨((kept_of_reached h).times p hp).1, hinTime.sent p hp⟩, fun u hu => ?_⟩
  rcases List.mem_append.1 hu with hu | hu
  · exact hinTime.taken u (Option.mem_toList.1 hu)
  · exact (hinTime.waiting u hu).1

/-- Of two units, the one that is due earlier leaves first. -/
theorem leaves_in_time_two : ∃ s, Reached true Prompt s ∧ s.sent = [(⟨[2], 1, 0, 0⟩, 1)] ∧
    ∀ p ∈ s.sent, p.1.deadline ≤ p.2 ∧ p.2 ≤ max p.1.deadline (max p.1.arrival p.1.asleepUntil) := by
  have h₁ : Reached true Prompt _ := .step .start (prompt_of_ne (by decide) (by decide))
    (e := .putData ⟨[1], 0, 0, 5, 0⟩) rfl
  have h₂ : Reached true Prompt _ := .step h₁ (prompt_of_ne (by decide) (by decide))
    (e := .putData ⟨[2], 0, 0, 1, 1⟩) rfl
  have h₃ : Reached true Prompt _ := .step h₂ (prompt_of_ne (by decide) (by decide)) (e := .getData 1) rfl
  have h₄ : Reached true Prompt _ := .step h₃ (prompt_tick Nat.one_pos) (e := .tick) rfl
  have h₅ : Reached true Prompt _ := .step h₄ (prompt_of_ne (by decide) (by decide)) (e := .send) rfl
  exact ⟨_, h₅, rfl, (leaves_in_time h₅).1⟩

end ChannelEmulator.EmulateDelay
